/-
What a dictionary of rules says about each selector.

The reference is a plain look at the list of rules: `blocksFor` collects the
declarations of every rule for a selector, in the order of the rules.  The
dictionary holds just those under the text of the selector (`get?_ofRules`), since
selectors that are written the same are the same; and reading its keys back never
fails, because they are the texts of selectors that were read.  So the tags and
classes that elements are matched with are those of the rules
(`matchable_ofRules`).

Of rules that were not read only the texts of their selectors count: what stands
under a text comes from all selectors that are written like that (`blocksUnder`), and
it makes no difference in which calls the rules were added (`dictionary_of_calls`).
-/
import StyleInliner.Inline.Document
import StyleInliner.Proofs.Css.Rule
import StyleInliner.Proofs.Grouping

namespace StyleInliner.Css

open StyleInliner.Inline

theorem Selector.tagName?_eq_some_iff {s : Selector} {tag : String} :
    s.tagName? = some tag ↔ s = .single ⟨.tagName, tag⟩ := by
  unfold Selector.tagName?
  split
  · simp
  · rename_i hother
    simp only [reduceCtorEq, false_iff]
    exact hother tag

theorem Selector.className?_eq_some_iff {s : Selector} {name : String} :
    s.className? = some name ↔ s = .single ⟨.className, name⟩ := by
  unfold Selector.className?
  split
  · simp
  · rename_i hother
    simp only [reduceCtorEq, false_iff]
    exact hother name

/-- The declarations of the rules for a selector, one list for each time a rule has it. -/
def blocksFor (rules : List Rule) (selector : Selector) : List (List Declaration) :=
  rules.flatMap fun rule => (rule.selectors.filter (· = selector)).map fun _ => rule.declarations

theorem blocksFor_ne_nil_iff {rules : List Rule} {selector : Selector} :
    blocksFor rules selector ≠ [] ↔ ∃ rule ∈ rules, selector ∈ rule.selectors := by
  rw [blocksFor, Ne, List.flatMap_eq_nil_iff]
  simp [List.filter_eq_nil_iff]

theorem mem_blocksFor {rules : List Rule} {selector : Selector} {ds : List Declaration} :
    ds ∈ blocksFor rules selector ↔
      ∃ rule ∈ rules, selector ∈ rule.selectors ∧ ds = rule.declarations := by
  simp [blocksFor]

/-- The texts of all selectors of the rules. -/
def selectorTexts (rules : List Rule) : List String :=
  rules.flatMap fun rule => rule.selectors.map Selector.text

/-- The declarations of the rules with a selector of a text, one list for each such selector. -/
def blocksUnder (rules : List Rule) (key : String) : List (List Declaration) :=
  rules.flatMap fun rule => (rule.selectors.filter (·.text = key)).map fun _ => rule.declarations

theorem blocksUnder_ne_nil_iff {rules : List Rule} {key : String} :
    blocksUnder rules key ≠ [] ↔ key ∈ selectorTexts rules := by
  rw [blocksUnder, Ne, List.flatMap_eq_nil_iff]
  simp [selectorTexts, List.filter_eq_nil_iff]

namespace Dictionary

/-- What rules are entered as. -/
def entries (rules : List Rule) : List (String × List Declaration) :=
  rules.flatMap fun rule => rule.selectors.map fun selector => (selector.text, rule.declarations)

theorem map_fst_entries (rules : List Rule) :
    (entries rules).map Prod.fst = selectorTexts rules := by
  simp [entries, selectorTexts, List.map_flatMap, Function.comp_def]

theorem ofRules_eq (rules : List Rule) :
    ofRules rules =
      (entries rules).foldl (fun g entry => g.add entry.1 entry.2) Grouping.empty := by
  rw [ofRules, addRules, entries, List.foldl_flatMap]
  congr 1
  funext d rule
  rw [addRule, List.foldl_map]

theorem filter_entries (rules : List Rule) (key : String) :
    ((entries rules).filter (·.1 = key)).map Prod.snd = blocksUnder rules key := by
  rw [entries, blocksUnder, List.filter_flatMap, List.map_flatMap]
  refine List.flatMap_congr fun rule _ => ?_
  rw [List.filter_map, List.map_map]
  rfl

/-- Under any text stand the declarations of the rules with a selector written like that. -/
theorem get?_ofRules_key (rules : List Rule) (key : String) :
    (ofRules rules).get? key =
      match blocksUnder rules key with
      | [] => none
      | blocks => some blocks.flatten := by
  rw [ofRules_eq, Grouping.get?_foldl_add, filter_entries]
  cases blocksUnder rules key <;> rfl

/-- The keys are the texts of the selectors, in the order in which they first came. -/
theorem names_ofRules (rules : List Rule) :
    (ofRules rules).names = (selectorTexts rules).eraseDups := by
  rw [ofRules_eq, Grouping.names_foldl_add, map_fst_entries]

/-- Keys and declarations of the entries are those of the rules. -/
theorem forall_mem_groups_ofRules {rules : List Rule} {P : String → Prop} {Q : Declaration → Prop}
    (hselectors : ∀ rule ∈ rules, ∀ s ∈ rule.selectors, P s.text)
    (hdeclarations : ∀ rule ∈ rules, ∀ d ∈ rule.declarations, Q d) :
    ∀ group ∈ (ofRules rules).groups, P group.1 ∧ ∀ d ∈ group.2, Q d := by
  rw [ofRules_eq]
  refine Grouping.forall_mem_groups_foldl_add ?_ (by simp [Grouping.empty])
  intro entry hentry
  obtain ⟨rule, hrule, hentry⟩ := List.mem_flatMap.1 hentry
  obtain ⟨s, hs, rfl⟩ := List.mem_map.1 hentry
  exact ⟨hselectors rule hrule s hs, hdeclarations rule hrule⟩

theorem nodup_eraseDups (names : List String) : names.eraseDups.Nodup := by
  induction h : names.length using Nat.strong_induction_on generalizing names with
  | _ n ih =>
      cases names with
      | nil => simp
      | cons name names =>
          have hlt : (names.filter fun other => !other == name).length < n := by
            have hle := List.length_filter_le (fun other => !other == name) names
            rw [List.length_cons] at h
            omega
          rw [List.eraseDups_cons, List.nodup_cons, List.mem_eraseDups]
          exact ⟨by simp, ih _ hlt _ rfl⟩

section Canonical

variable {rules : List Rule} (hrules : ∀ rule ∈ rules, ∀ s ∈ rule.selectors, s.Canonical)
include hrules

theorem blocksUnder_text {selector : Selector} (hselector : selector.Canonical) :
    blocksUnder rules selector.text = blocksFor rules selector := by
  rw [blocksUnder, blocksFor]
  refine List.flatMap_congr fun rule hrule => ?_
  have hsame : rule.selectors.filter (fun s => decide (s.text = selector.text))
      = rule.selectors.filter (fun s => decide (s = selector)) := by
    refine List.filter_congr fun s hs => ?_
    rw [decide_eq_decide]
    exact ⟨text_injective (hrules rule hrule s hs) hselector, fun h => by rw [h]⟩
  rw [hsame]

/-- **Under the text of a selector stand the declarations of its rules.** -/
theorem get?_ofRules {selector : Selector} (hselector : selector.Canonical) :
    (ofRules rules).get? selector.text =
      match blocksFor rules selector with
      | [] => none
      | blocks => some blocks.flatten := by
  rw [get?_ofRules_key, blocksUnder_text hrules hselector]

/-- The keys are read back as the selectors of the rules, each where it first came. -/
theorem selectors_ofRules :
    (ofRules rules).selectors = .ok (rules.flatMap Rule.selectors).eraseDups := by
  have hcanon : ∀ s ∈ rules.flatMap Rule.selectors, s.Canonical := by
    intro s hs
    obtain ⟨rule, hrule, hs⟩ := List.mem_flatMap.1 hs
    exact hrules rule hrule s hs
  have hnames : (ofRules rules).names =
      (rules.flatMap Rule.selectors).eraseDups.map Selector.text := by
    have hinjective : ∀ s ∈ rules.flatMap Rule.selectors, ∀ t ∈ rules.flatMap Rule.selectors,
        ∀ key, some s.text = some key → some t.text = some key → s = t := by
      intro s hs t ht key hkey hkey'
      exact text_injective (hcanon s hs) (hcanon t ht) (Option.some.inj (hkey.trans hkey'.symm))
    have heq := Grouping.eraseDups_filterMap hinjective
    rw [names_ofRules, selectorTexts, ← List.map_flatMap]
    rwa [List.filterMap_eq_map'] at heq
  rw [selectors, hnames, mapM_eq_ok_iff, List.forall₂_map_left_iff, List.forall₂_same]
  intro s hs
  exact parseSelector_text (hcanon s (List.mem_eraseDups.1 hs))

/-- Elements are matched with the tags and the classes that have rules of their own. -/
theorem matchable_ofRules :
    ∃ m, Matchable.ofDictionary (ofRules rules) = .ok m ∧ m.tags.Nodup ∧
      (∀ tag, tag ∈ m.tags ↔ blocksFor rules (.single ⟨.tagName, tag⟩) ≠ []) ∧
      ∀ name, name ∈ m.classes ↔ blocksFor rules (.single ⟨.className, name⟩) ≠ [] := by
  have hmem : ∀ s, s ∈ (rules.flatMap Rule.selectors).eraseDups ↔
      ∃ rule ∈ rules, s ∈ rule.selectors := fun s => by
    rw [List.mem_eraseDups, List.mem_flatMap]
  refine ⟨_, by rw [Matchable.ofDictionary, selectors_ofRules hrules]; rfl, nodup_eraseDups _,
    ?_, ?_⟩
  · intro tag
    rw [blocksFor_ne_nil_iff, ← hmem, List.mem_eraseDups, List.mem_filterMap]
    simp only [Selector.tagName?_eq_some_iff, exists_eq_right]
  · intro name
    rw [blocksFor_ne_nil_iff, ← hmem, List.mem_eraseDups, List.mem_filterMap]
    simp only [Selector.className?_eq_some_iff, exists_eq_right]

end Canonical

/-! ### Rules added call by call -/

theorem addRules_append (d : Dictionary) (rules more : List Rule) :
    addRules d (rules ++ more) = addRules (addRules d rules) more :=
  List.foldl_append

/-- What was added in several calls might have been added in one. -/
theorem foldl_addRules (calls : List (List Rule)) (d : Dictionary) :
    calls.foldl addRules d = addRules d calls.flatten := by
  induction calls generalizing d with
  | nil => rfl
  | cons rules calls ih => rw [List.foldl_cons, ih, List.flatten_cons, addRules_append]

/-- Adds rules, one after the other, to a table of declarations and the list of its keys. -/
def addRulesToParts (p : Grouping.Parts Declaration) (rules : List Rule) :
    Grouping.Parts Declaration :=
  rules.foldl (fun p rule =>
    rule.selectors.foldl (fun p selector => p.add selector.text rule.declarations) p) p

/-- The table and the list of keys hold what the dictionary holds, after any calls. -/
theorem holds_of_calls (calls : List (List Rule)) {p : Grouping.Parts Declaration}
    {d : Dictionary} (h : p.Holds d) :
    (calls.foldl addRulesToParts p).Holds (calls.foldl addRules d) := by
  have hrule : ∀ {p : Grouping.Parts Declaration} {d : Dictionary}, p.Holds d → ∀ rule : Rule,
      (rule.selectors.foldl (fun p selector => p.add selector.text rule.declarations) p).Holds
        (addRule d rule) := by
    intro p d h rule
    have hentries := h.foldl_add (rule.selectors.map fun s => (s.text, rule.declarations))
    rwa [List.foldl_map, List.foldl_map] at hentries
  have hrules : ∀ (rules : List Rule) {p : Grouping.Parts Declaration} {d : Dictionary},
      p.Holds d → (addRulesToParts p rules).Holds (addRules d rules) := by
    intro rules
    induction rules with
    | nil => exact fun h => h
    | cons rule rules ih => exact fun h => ih (hrule h rule)
  induction calls generalizing p d with
  | nil => exact h
  | cons rules calls ih => exact ih (hrules rules h)

/-- **A dictionary is the grouping of all rules that were ever added to it,** in whatever calls.
The rules need not be ones that reading gives.  It may be kept as a table and the list of its keys,
which stay together. -/
theorem dictionary_of_calls (calls : List (List Rule)) :
    let d := calls.foldl addRules Grouping.empty
    let rules := calls.flatten
    (calls.foldl addRulesToParts Grouping.Parts.empty).Holds d ∧ d = ofRules rules ∧
      d.names = (selectorTexts rules).eraseDups ∧ d.names.Nodup ∧
      (∀ key, (d.get? key).isSome = true ↔ key ∈ d.names) ∧
      (∀ key, d.get? key =
        if key ∈ selectorTexts rules then some (blocksUnder rules key).flatten else none) ∧
      d.size = d.names.length ∧ d.isEmpty = d.names.isEmpty := by
  intro d rules
  have hd : d = ofRules rules := foldl_addRules calls Grouping.empty
  refine ⟨holds_of_calls calls Grouping.Parts.holds_empty, hd, ?_, d.nodup_names,
    fun key => Grouping.mem_names_iff.symm, fun key => ?_, d.size_eq, d.isEmpty_eq⟩
  · rw [hd, names_ofRules]
  · rw [hd, get?_ofRules_key]
    cases hblocks : blocksUnder rules key with
    | nil => rw [if_neg fun hmem => blocksUnder_ne_nil_iff.2 hmem hblocks]
    | cons block blocks =>
        have hmem : key ∈ selectorTexts rules := blocksUnder_ne_nil_iff.1 (by simp [hblocks])
        rw [if_pos hmem]

end Dictionary

end StyleInliner.Css
