/-
When a dictionary is read back from what it is printed as.

An entry gathers declarations that stood far apart, and the entries stand in the order
of their first use.  So printing may put a declaration that holds a slash and a star in
front of one that holds a star and a slash, although no such pair was left in the text
the rules were read from, and then the printed text has a comment.  Nothing else can go
wrong, and this always does (`parseDictionary_printed`).

Without comments the text is that of rules with one selector each, which are read back
(`parseDictionary_of_commentFree`).  With one, taking it out loses a slash that reading
does not bring back: what is read are again rules with one selector each, because a
comment begins and ends inside of braces (`tidy_stripComments`), and neither they nor
the dictionary made of them hold a slash that the text does not (`count_blocks_ofRules`).
-/
import StyleInliner.Proofs.Css.Dictionary
import StyleInliner.Proofs.Css.RoundTrip

namespace StyleInliner.Css

open StyleInliner.Text

/-- The declarations of a dictionary, in the order of their entries. -/
def Dictionary.declarations (d : Dictionary) : List Declaration :=
  d.groups.flatMap Prod.snd

/-! ### Printed entries -/

namespace Layout

/-- Entries, one after the other. -/
def blocks (layout : Layout) (groups : List (String × List Declaration)) : String :=
  String.join (groups.map fun group => layout.block group.1 group.2)

/-- Rules with one selector each are printed as the entries they make. -/
theorem rules_eq_blocks (layout : Layout) {rules : List Rule}
    (h : ∀ rule ∈ rules, ∃ s, rule.selectors = [s]) :
    layout.rules rules = layout.blocks (Dictionary.entries rules) := by
  induction rules with
  | nil => rfl
  | cons rule rules ih =>
      obtain ⟨⟨s, hs⟩, hrules⟩ := List.forall_mem_cons.1 h
      have hrest := ih hrules
      rw [Layout.rules, blocks, Dictionary.entries] at hrest
      rw [Layout.rules, blocks, Dictionary.entries, List.map_cons, List.flatMap_cons,
        List.map_append, String.join_cons, hrest, Rule.selectorText, hs]
      simp

/-- The texts that an entry is printed as. -/
def texts (layout : Layout) (group : String × List Declaration) : List (List Char) :=
  [group.1.toList ++ [layout.gap], '\x7b' :: layout.lineEnd] ++
    (group.2.flatMap fun d => [layout.indent, d.text.toList, layout.lineEnd]) ++
      [['\x7d', layout.gap]]

theorem toList_blocks_cons (layout : Layout) (group : String × List Declaration)
    (groups : List (String × List Declaration)) :
    (layout.blocks (group :: groups)).toList =
      (group.1.toList ++ [layout.gap]) ++ '\x7b' ::
        ((layout.lineEnd ++ (layout.declarations group.2).toList) ++ '\x7d' ::
          layout.gap :: (layout.blocks groups).toList) := by
  rw [blocks, List.map_cons, String.join_cons, String.toList_append, toList_block]
  simp [blocks]

theorem toList_blocks (layout : Layout) (groups : List (String × List Declaration)) :
    (layout.blocks groups).toList = (groups.flatMap layout.texts).flatten := by
  have hdeclarations : ∀ ds : List Declaration, (layout.declarations ds).toList =
      (ds.flatMap fun d => [layout.indent, d.text.toList, layout.lineEnd]).flatten := by
    intro ds
    rw [toList_declarations]
    induction ds with
    | nil => rfl
    | cons d ds ih =>
        rw [List.flatMap_cons, List.flatMap_cons, List.flatten_append, ih]
        simp
  induction groups with
  | nil => simp [blocks]
  | cons group groups ih =>
      rw [toList_blocks_cons, ih, hdeclarations]
      simp [texts]

/-- Besides its key and its declarations, an entry is printed with neutral characters only. -/
theorem texts_cases (layout : Layout) {group : String × List Declaration} {t : List Char}
    (h : t ∈ layout.texts group) :
    t = group.1.toList ++ [layout.gap] ∨ (∃ d ∈ group.2, t = d.text.toList) ∨
      ∀ c ∈ t, Neutral c := by
  have hopen : ∀ c ∈ '\x7b' :: layout.lineEnd, Neutral c :=
    List.forall_mem_cons.2 ⟨by decide, layout.neutral_lineEnd⟩
  have hclose : ∀ c ∈ ['\x7d', layout.gap], Neutral c :=
    List.forall_mem_cons.2 ⟨by decide, by simpa using layout.neutral_gap⟩
  simp only [texts, List.mem_append, List.mem_cons, List.mem_flatMap, List.not_mem_nil,
    or_false] at h
  rcases h with ((rfl | rfl) | ⟨d, hd, rfl | rfl | rfl⟩) | rfl
  · exact Or.inl rfl
  · exact Or.inr (Or.inr hopen)
  · exact Or.inr (Or.inr layout.neutral_indent)
  · exact Or.inr (Or.inl ⟨d, hd, rfl⟩)
  · exact Or.inr (Or.inr layout.neutral_lineEnd)
  · exact Or.inr (Or.inr hclose)

theorem endsNeutral_texts (layout : Layout) {group : String × List Declaration} {t : List Char}
    (h : t ∈ layout.texts group) : EndsNeutral t := by
  rcases layout.texts_cases h with rfl | ⟨d, -, rfl⟩ | hneutral
  · exact endsNeutral_concat layout.neutral_gap _
  · rw [Declaration.toList_text]
    exact endsNeutral_concat (by decide) _
  · exact endsNeutral_of_neutral hneutral

/-- Of the texts of an entry, only its declarations may hold a star. -/
theorem filter_texts (layout : Layout) {group : String × List Declaration}
    (hkey : '*' ∉ group.1.toList) :
    (layout.texts group).filter ('*' ∈ ·) =
      (group.2.map fun d => d.text.toList).filter ('*' ∈ ·) := by
  have hneutral : ∀ {t : List Char}, (∀ c ∈ t, Neutral c) → '*' ∉ t := fun ht hm =>
    (ht _ hm).2 rfl
  have hgap : '*' ≠ layout.gap := Ne.symm layout.neutral_gap.2
  have hdeclarations : ∀ ds : List Declaration,
      (ds.flatMap fun d => [layout.indent, d.text.toList, layout.lineEnd]).filter ('*' ∈ ·) =
        (ds.map fun d => d.text.toList).filter ('*' ∈ ·) := by
    intro ds
    induction ds with
    | nil => rfl
    | cons d ds ih =>
        have hindent := hneutral layout.neutral_indent
        have hlineEnd := hneutral layout.neutral_lineEnd
        rw [List.flatMap_cons, List.filter_append, ih, List.map_cons, List.filter_cons]
        by_cases hstar : '*' ∈ d.text.toList
        · simp [hindent, hlineEnd, hstar]
        · simp [hindent, hlineEnd, hstar]
  rw [texts, List.filter_append, List.filter_append, hdeclarations]
  simp [hkey, hgap, hneutral layout.neutral_lineEnd]

section Pieces

variable {groups : List (String × List Declaration)}
  (hkeys : ∀ group ∈ groups, CommentFree group.1.toList)
  (hdeclarations : ∀ group ∈ groups, ∀ d ∈ group.2, CommentFree d.text.toList)

theorem endsNeutral_of_mem_texts (layout : Layout) :
    ∀ t ∈ groups.flatMap layout.texts, EndsNeutral t := by
  intro t ht
  obtain ⟨group, -, ht⟩ := List.mem_flatMap.1 ht
  exact layout.endsNeutral_texts ht

include hkeys hdeclarations

theorem commentFree_of_mem_texts (layout : Layout) :
    ∀ t ∈ groups.flatMap layout.texts, CommentFree t := by
  intro t ht
  obtain ⟨group, hgroup, ht⟩ := List.mem_flatMap.1 ht
  rcases layout.texts_cases ht with rfl | ⟨d, hd, rfl⟩ | hneutral
  · refine (commentFree_append_cons_iff layout.neutral_gap).2 ⟨hkeys group hgroup, ?_, ?_⟩
    · exact commentFree_nil
    · exact fun _ => rfl
  · exact hdeclarations group hgroup d hd
  · exact commentFree_of_neutral hneutral

/-- There is no line comment in printed entries. -/
theorem line_notMem_blocks (layout : Layout) :
    ¬ ['/', '/'] <:+: (layout.blocks groups).toList := by
  rw [toList_blocks, pair_infix_flatten_iff layout.endsNeutral_of_mem_texts (by decide) (by decide)]
  rintro ⟨t, ht, hline⟩
  exact (layout.commentFree_of_mem_texts hkeys hdeclarations t ht).line_notMem hline

/-- **Where printed entries hold a comment:** a declaration opens it and a later one closes it. -/
theorem commentFree_blocks_iff (layout : Layout)
    (hstar : ∀ group ∈ groups, '*' ∉ group.1.toList) :
    CommentFree (layout.blocks groups).toList ↔
      (groups.flatMap Prod.snd).Pairwise fun a b =>
        ['/', '*'] <:+: a.text.toList → ¬ ['*', '/'] <:+: b.text.toList := by
  -- only texts with a star in them matter, and these are declarations
  have hstars : ∀ a b : List Char, (['/', '*'] <:+: a → ¬ ['*', '/'] <:+: b) ↔
      (decide ('*' ∈ a) = true → decide ('*' ∈ b) = true →
        ['/', '*'] <:+: a → ¬ ['*', '/'] <:+: b) := by
    intro a b
    have ha : ['/', '*'] <:+: a → '*' ∈ a := fun h => h.subset (by simp)
    have hb : ['*', '/'] <:+: b → '*' ∈ b := fun h => h.subset (by simp)
    simp only [decide_eq_true_eq]
    tauto
  have hfilter : (groups.flatMap layout.texts).filter ('*' ∈ ·) =
      ((groups.flatMap Prod.snd).map fun d => d.text.toList).filter ('*' ∈ ·) := by
    rw [List.filter_flatMap, List.map_flatMap, List.filter_flatMap]
    exact List.flatMap_congr fun group hgroup => layout.filter_texts (hstar group hgroup)
  rw [toList_blocks, commentFree_flatten_iff layout.endsNeutral_of_mem_texts,
    and_iff_right (layout.commentFree_of_mem_texts hkeys hdeclarations),
    List.Pairwise.iff hstars, ← List.pairwise_filter, hfilter, List.pairwise_filter,
    ← List.Pairwise.iff hstars, List.pairwise_map]

end Pieces

end Layout

/-! ### Without comments -/

/-- What reading guarantees of an entry: it is that of a readable rule with one selector. -/
def ReadableEntry (group : String × List Declaration) : Prop :=
  ∃ s : Selector, s.text = group.1 ∧ Rule.Readable ⟨[s], group.2⟩

/-- Readable entries are those of rules with one selector each. -/
theorem exists_rules_of_groups {groups : List (String × List Declaration)}
    (h : ∀ group ∈ groups, ReadableEntry group) :
    ∃ rules, (∀ rule ∈ rules, rule.Readable ∧ ∃ s, rule.selectors = [s]) ∧
      Dictionary.entries rules = groups := by
  induction groups with
  | nil => exact ⟨[], by simp, rfl⟩
  | cons group groups ih =>
      obtain ⟨⟨s, hs, hreadable⟩, hgroups⟩ := List.forall_mem_cons.1 h
      obtain ⟨rules, hrules, hentries⟩ := ih hgroups
      refine ⟨⟨[s], group.2⟩ :: rules, ?_, ?_⟩
      · exact List.forall_mem_cons.2 ⟨⟨hreadable, s, rfl⟩, hrules⟩
      · rw [← hentries, Dictionary.entries, List.flatMap_cons, List.map_singleton, hs]
        rfl

theorem readableEntry_of_mem_groups {rules : List Rule} (hrules : ∀ rule ∈ rules, rule.Readable) :
    ∀ group ∈ (Dictionary.ofRules rules).groups, ReadableEntry group := by
  have hmembers := Dictionary.forall_mem_groups_ofRules
    (P := fun key => ∃ s : Selector, s.text = key ∧ s.Canonical ∧ '\x7b' ∉ s.text.toList)
    (Q := fun d => d.Readable ∧ '\x7d' ∉ d.property.toList ∧ '\x7d' ∉ d.value.toList)
    (fun rule hrule s hs =>
      ⟨s, rfl, (hrules rule hrule).canonical s hs, (hrules rule hrule).selectors_plain s hs⟩)
    (fun rule hrule d hd =>
      ⟨(hrules rule hrule).readable d hd, (hrules rule hrule).declarations_plain d hd⟩)
  intro group hgroup
  obtain ⟨⟨s, hs, hcanon, hplain⟩, hdeclarations⟩ := hmembers group hgroup
  refine ⟨s, hs, by simp, ?_, ?_, fun d hd => (hdeclarations d hd).1,
    fun d hd => (hdeclarations d hd).2⟩
  · intro t ht
    rwa [List.mem_singleton.1 ht]
  · intro t ht
    rwa [List.mem_singleton.1 ht]

/-- A dictionary printed without a comment is read back. -/
theorem parseDictionary_of_commentFree {source : String} {d : Dictionary}
    (h : parseDictionary source = .ok d) {layout : Layout}
    (hfree : CommentFree (layout.dictionary d).toList) :
    parseDictionary (layout.dictionary d) = .ok d := by
  obtain ⟨read, hread, rfl⟩ := map_eq_ok_iff.1 h
  obtain ⟨rules, hrules, hentries⟩ :=
    exists_rules_of_groups (readableEntry_of_mem_groups (readable_of_parseBlocks hread))
  have hprinted : layout.dictionary (Dictionary.ofRules read) = layout.rules rules := by
    rw [layout.rules_eq_blocks fun rule hrule => (hrules rule hrule).2, hentries]
    rfl
  have hback : parseRules (layout.dictionary (Dictionary.ofRules read)) = .ok rules := by
    rw [parseRules, stripComments_of_commentFree hfree, hprinted]
    exact parseBlocks_written (fun rule hrule => (hrules rule hrule).1) layout (l := []) rfl
  have hsame : Dictionary.ofRules rules = Dictionary.ofRules read := by
    refine Grouping.ext_groups ?_
    rw [Dictionary.ofRules_eq, hentries]
    exact Grouping.groups_foldl_add_of_nodup (Dictionary.ofRules read).nodup_names
  rw [parseDictionary, hback, ← hsame]
  rfl

/-! ### Stars and commas inside of braces -/

/-- Neither a star nor a comma stands outside of braces.  The flag tells whether the text begins
inside of them; they do not nest. -/
def Tidy : Bool → List Char → Prop
  | _, [] => True
  | false, c :: cs => c ≠ '*' ∧ c ≠ ',' ∧ Tidy (c == '\x7b') cs
  | true, c :: cs => Tidy (c != '\x7d') cs

theorem tidy_false_append_iff {k cs : List Char} (hk : '\x7b' ∉ k) :
    Tidy false (k ++ '\x7b' :: cs) ↔ '*' ∉ k ∧ ',' ∉ k ∧ Tidy true cs := by
  induction k with
  | nil => simp [Tidy]
  | cons c k ih =>
      rw [List.mem_cons, not_or] at hk
      have hopen : (c == '\x7b') = false := beq_eq_false_iff_ne.2 (Ne.symm hk.1)
      rw [List.cons_append, Tidy, hopen, ih hk.2]
      simp only [List.mem_cons, not_or, ne_eq, eq_comm (b := c)]
      tauto

theorem tidy_true_append_iff {body cs : List Char} (hbody : '\x7d' ∉ body) :
    Tidy true (body ++ '\x7d' :: cs) ↔ Tidy false cs := by
  induction body with
  | nil => simp [Tidy]
  | cons c body ih =>
      rw [List.mem_cons, not_or] at hbody
      have hopen : (c != '\x7d') = true := bne_iff_ne.2 (Ne.symm hbody.1)
      rw [List.cons_append, Tidy, hopen, ih hbody.2]

/-- A comment closes inside of braces. -/
theorem tidy_of_afterClosing {inside : Bool} {cs rest : List Char} (htidy : Tidy inside cs)
    (h : afterClosing cs = some rest) : Tidy true rest := by
  fun_induction afterClosing cs generalizing inside with
  | case1 => cases h
  | case2 tail =>
      obtain rfl := Option.some.inj h
      cases inside with
      | false => exact absurd rfl htidy.1
      | true => exact htidy
  | case3 c tail _ ih =>
      cases inside with
      | false => exact ih htidy.2.2 h
      | true => exact ih htidy h

/-- **A comment begins and ends inside of braces,** so taking comments out leaves the text tidy. -/
theorem tidy_stripComments {inside : Bool} {cs : List Char} (htidy : Tidy inside cs)
    (hline : ¬ ['/', '/'] <:+: cs) : Tidy inside (stripComments cs) := by
  fun_induction stripComments cs generalizing inside with
  | case1 => exact htidy
  | case2 rest ih => exact absurd ⟨[], rest, rfl⟩ hline
  | case3 rest after hafter ih =>
      have hafterLine : ¬ ['/', '/'] <:+: after := fun hm => hline (hm.trans
        ((suffix_of_afterClosing hafter).trans
          ((List.suffix_cons _ _).trans (List.suffix_cons _ _))).isInfix)
      cases inside with
      | false => exact absurd rfl htidy.2.2.1
      | true =>
          have hrest : Tidy true rest := htidy
          exact ih (tidy_of_afterClosing hrest hafter) hafterLine
  | case4 rest hafter ih =>
      have hrest : ¬ ['/', '/'] <:+: rest := fun hm => hline (hm.trans
        ((List.suffix_cons _ _).trans (List.suffix_cons _ _)).isInfix)
      cases inside with
      | false => exact absurd rfl htidy.2.2.1
      | true =>
          have hinside : Tidy true (stripComments rest) := ih htidy hrest
          exact hinside
  | case5 c rest _ _ ih =>
      have hrest : ¬ ['/', '/'] <:+: rest := fun hm =>
        hline (hm.trans (List.suffix_cons c rest).isInfix)
      cases inside with
      | false => exact ⟨htidy.1, htidy.2.1, ih htidy.2.2 hrest⟩
      | true => exact ih htidy hrest

/-- Rules read from a tidy text have one selector each. -/
theorem exists_selectors_eq_of_tidy {cs : List Char} {rules : List Rule} (htidy : Tidy false cs)
    (h : parseBlocks cs = .ok rules) : ∀ rule ∈ rules, ∃ s, rule.selectors = [s] := by
  induction rules generalizing cs with
  | nil => simp
  | cons rule rules ih =>
      rcases parseBlocks_cases h with hnil | ⟨s, d, rest, _, _, hnext, hss, -, hrest, heq⟩
      · cases hnil
      obtain ⟨rfl, rfl⟩ := List.cons.inj heq
      obtain ⟨l, hl, rfl, -, -, hopen, hclose⟩ := nextBlock_eq_block_iff.1 hnext
      have hblank : '\x7b' ∉ l := fun hm => absurd (List.all_eq_true.1 hl _ hm) (by decide)
      have hstart : '\x7b' ∉ l ++ s := by simp [hblank, hopen]
      rw [← List.append_assoc, tidy_false_append_iff hstart, tidy_true_append_iff hclose] at htidy
      obtain ⟨-, hcomma, htidy⟩ := htidy
      refine List.forall_mem_cons.2 ⟨?_, ih htidy hrest⟩
      -- without a comma there is one piece to read
      obtain ⟨hne, hread⟩ := parseSelectors_eq_ok_iff.1 hss
      have hpiece : ',' ∉ trim s := fun hm => hcomma (by simp [mem_of_mem_trim hm])
      rw [String.toList_ofList, selectorPieces_of_notMem hpiece] at hread
      split at hread
      · exact absurd (Except.ok.inj hread).symm hne
      · rw [List.mapM_cons] at hread
        obtain ⟨found, -, hread⟩ := bind_eq_ok_iff.1 hread
        exact ⟨found, (Except.ok.inj hread).symm⟩

/-- Printed entries are tidy. -/
theorem tidy_blocks (layout : Layout) {groups : List (String × List Declaration)}
    (h : ∀ group ∈ groups, ReadableEntry group) :
    Tidy false (layout.blocks groups).toList := by
  have hgap : ∀ cs, Tidy false cs → Tidy false (layout.gap :: cs) := by
    intro cs hcs
    cases layout <;> exact ⟨by decide, by decide, hcs⟩
  induction groups with
  | nil => simp [Layout.blocks, Tidy]
  | cons group groups ih =>
      obtain ⟨⟨s, hs, hreadable⟩, hgroups⟩ := List.forall_mem_cons.1 h
      have hcanon := hreadable.canonical s (by simp)
      have hbrace := hreadable.selectors_plain s (by simp)
      have hclose := layout.brace_notMem_declarations hreadable.declarations_plain
      have hkey : ∀ c, c ≠ layout.gap → c ∉ s.text.toList → c ∉ group.1.toList ++ [layout.gap] := by
        intro c hgap hc
        simp [← hs, hgap, hc]
      rw [Layout.toList_blocks_cons,
        tidy_false_append_iff (hkey _ (by cases layout <;> decide) hbrace),
        tidy_true_append_iff hclose]
      exact ⟨hkey _ (by cases layout <;> decide) (star_notMem_text hcanon),
        hkey _ (by cases layout <;> decide) (comma_notMem_text hcanon), hgap _ (ih hgroups)⟩

/-! ### Slashes -/

section Slashes

variable (layout : Layout)

theorem count_block (key : String) (ds : List Declaration) :
    (layout.block key ds).toList.count '/' =
      key.toList.count '/' + (layout.declarations ds).toList.count '/' := by
  rw [Layout.toList_block]
  cases layout <;> simp [Layout.gap, Layout.lineEnd]

theorem count_blocks_cons (group : String × List Declaration)
    (groups : List (String × List Declaration)) :
    (layout.blocks (group :: groups)).toList.count '/' =
      (layout.block group.1 group.2).toList.count '/' +
        (layout.blocks groups).toList.count '/' := by
  simp [Layout.blocks]

theorem count_blocks_extendGroup (name : String) (ds : List Declaration)
    (groups : List (String × List Declaration)) :
    (layout.blocks (extendGroup name ds groups)).toList.count '/' ≤
      (layout.blocks groups).toList.count '/' + (layout.block name ds).toList.count '/' := by
  induction groups with
  | nil => simp [extendGroup, Layout.blocks]
  | cons group groups ih =>
      obtain ⟨other, values⟩ := group
      rw [extendGroup]
      split
      · have hjoin : (layout.declarations (values ++ ds)).toList =
            (layout.declarations values).toList ++ (layout.declarations ds).toList := by
          simp [Layout.declarations]
        rw [count_blocks_cons, count_blocks_cons]
        simp only [count_block, hjoin, List.count_append]
        omega
      · rw [count_blocks_cons, count_blocks_cons]
        omega

/-- Grouping brings in no slash. -/
theorem count_blocks_ofRules (rules : List Rule) :
    (layout.dictionary (Dictionary.ofRules rules)).toList.count '/' ≤
      (layout.blocks (Dictionary.entries rules)).toList.count '/' := by
  have hfold : ∀ (entries : List (String × List Declaration)) (g : Dictionary),
      let all : Dictionary := entries.foldl (fun g entry => g.add entry.1 entry.2) g
      (layout.dictionary all).toList.count '/' ≤
        (layout.dictionary g).toList.count '/' + (layout.blocks entries).toList.count '/' := by
    intro entries
    induction entries with
    | nil =>
        intro g
        simp
    | cons entry entries ih =>
        intro g
        have hstep : (layout.dictionary (g.add entry.1 entry.2)).toList.count '/' ≤
            (layout.dictionary g).toList.count '/' +
              (layout.block entry.1 entry.2).toList.count '/' :=
          count_blocks_extendGroup layout entry.1 entry.2 g.groups
        have hrest := ih (g.add entry.1 entry.2)
        rw [List.foldl_cons, count_blocks_cons]
        omega
  have hempty : (layout.dictionary Grouping.empty).toList.count '/' = 0 := by
    simp [Layout.dictionary, Grouping.empty]
  have hall := hfold (Dictionary.entries rules) Grouping.empty
  rw [hempty, Nat.zero_add, ← Dictionary.ofRules_eq] at hall
  exact hall

end Slashes

/-! ### Reading a printed dictionary -/

section Printed

variable {source : String} {d : Dictionary} (h : parseDictionary source = .ok d)
include h

/-- Keys and declarations of a dictionary that was read are readable, and free of comments. -/
theorem pieces_of_parseDictionary :
    (∀ group ∈ d.groups, ReadableEntry group) ∧
      (∀ group ∈ d.groups, CommentFree group.1.toList) ∧
        ∀ group ∈ d.groups, ∀ e ∈ group.2, CommentFree e.text.toList := by
  obtain ⟨rules, hrules, rfl⟩ := map_eq_ok_iff.1 h
  have hfree := commentFree_rules hrules .compact
  have hmembers := Dictionary.forall_mem_groups_ofRules
    (P := fun key => CommentFree key.toList) (Q := fun e => CommentFree e.text.toList)
    (fun rule hrule s hs => hfree.of_infix ((infix_rules .compact hrule).1 s hs))
    (fun rule hrule e he => hfree.of_infix ((infix_rules .compact hrule).2 e he))
  exact ⟨readableEntry_of_mem_groups (readable_of_parseBlocks hrules),
    fun group hgroup => (hmembers group hgroup).1, fun group hgroup => (hmembers group hgroup).2⟩

/-- A dictionary that is read back was printed without a comment. -/
theorem commentFree_of_parseDictionary {layout : Layout}
    (hback : parseDictionary (layout.dictionary d) = .ok d) :
    CommentFree (layout.dictionary d).toList := by
  obtain ⟨hreadable, hkeys, hdeclarations⟩ := pieces_of_parseDictionary h
  obtain ⟨rules, hrules, hsame⟩ := map_eq_ok_iff.1 hback
  have htidy : Tidy false (stripComments (layout.dictionary d).toList) :=
    tidy_stripComments (tidy_blocks layout hreadable)
      (layout.line_notMem_blocks hkeys hdeclarations)
  have hprinted := layout.rules_eq_blocks (exists_selectors_eq_of_tidy htidy hrules)
  -- the slashes of the text that was read are all there without its comments
  have hgroup := count_blocks_ofRules layout rules
  have hread := (excerpt_of_parseBlocks hrules layout (w := [' ']) (by decide)).count_slash_le
  rw [hsame, ← hprinted] at hgroup
  rw [List.singleton_append, List.count_cons_of_ne (by decide)] at hread
  have hstrip : stripComments (layout.dictionary d).toList = (layout.dictionary d).toList := by
    rcases count_stripComments (layout.dictionary d).toList with heq | hlt
    · exact heq
    · omega
  have hfree := commentFree_stripComments (layout.dictionary d).toList
  rwa [hstrip] at hfree

/-- **A dictionary is read back from what it is printed as exactly if no declaration in it closes a
comment that an earlier one opens,** in either layout. -/
theorem parseDictionary_printed (layout : Layout) :
    parseDictionary (layout.dictionary d) = .ok d ↔
      d.declarations.Pairwise fun a b =>
        ['/', '*'] <:+: a.text.toList → ¬ ['*', '/'] <:+: b.text.toList := by
  obtain ⟨hreadable, hkeys, hdeclarations⟩ := pieces_of_parseDictionary h
  have hstar : ∀ group ∈ d.groups, '*' ∉ group.1.toList := by
    intro group hgroup
    obtain ⟨s, hs, hrule⟩ := hreadable group hgroup
    rw [← hs]
    exact star_notMem_text (hrule.canonical s (by simp))
  have hfree := layout.commentFree_blocks_iff hkeys hdeclarations hstar
  exact ⟨fun hback => hfree.1 (commentFree_of_parseDictionary h hback),
    fun hpairs => parseDictionary_of_commentFree h (hfree.2 hpairs)⟩

end Printed

theorem parseDictionary_printed_closing_first :
    let d := Dictionary.ofRules [⟨[.single ⟨.tagName, "b"⟩], [⟨"y", "*/"⟩]⟩,
      ⟨[.single ⟨.tagName, "a"⟩], [⟨"x", "/*"⟩]⟩]
    parseDictionary "b\x7by:*/\x7d a\x7bx:/*\x7d" = .ok d ∧
      d.groups = [("b", [⟨"y", "*/"⟩]), ("a", [⟨"x", "/*"⟩])] ∧
      Layout.compact.dictionary d = "b \x7by:*/;\x7d a \x7bx:/*;\x7d " ∧
      ∀ layout : Layout, parseDictionary (layout.dictionary d) = .ok d := by
  intro d
  have hrules : parseRules "b\x7by:*/\x7d a\x7bx:/*\x7d" =
      .ok [⟨[.single ⟨.tagName, "b"⟩], [⟨"y", "*/"⟩]⟩,
        ⟨[.single ⟨.tagName, "a"⟩], [⟨"x", "/*"⟩]⟩] := by decide +kernel
  have hread : parseDictionary "b\x7by:*/\x7d a\x7bx:/*\x7d" = .ok d := by
    rw [parseDictionary, hrules]
    rfl
  have hpairs : d.declarations.Pairwise fun a b =>
      ['/', '*'] <:+: a.text.toList → ¬ ['*', '/'] <:+: b.text.toList := by decide +kernel
  exact ⟨hread, by decide +kernel, by decide +kernel,
    fun layout => (parseDictionary_printed hread layout).2 hpairs⟩

/-- A rule that adds to an entry puts its declarations in front of those of the entries behind. -/
theorem parseDictionary_printed_opening_moved :
    let d := Dictionary.ofRules [⟨[.single ⟨.tagName, "a"⟩], []⟩,
      ⟨[.single ⟨.tagName, "b"⟩], [⟨"y", "*/"⟩]⟩, ⟨[.single ⟨.tagName, "a"⟩], [⟨"x", "/*"⟩]⟩]
    parseDictionary "a\x7b\x7db\x7by:*/\x7da\x7bx:/*\x7d" = .ok d ∧
      d.groups = [("a", [⟨"x", "/*"⟩]), ("b", [⟨"y", "*/"⟩])] ∧
      ∀ layout : Layout, ∃ d', parseDictionary (layout.dictionary d) = .ok d' ∧
        d'.groups = [("a", [⟨"x", ""⟩])] := by
  intro d
  have hrules : parseRules "a\x7b\x7db\x7by:*/\x7da\x7bx:/*\x7d" =
      .ok [⟨[.single ⟨.tagName, "a"⟩], []⟩,
        ⟨[.single ⟨.tagName, "b"⟩], [⟨"y", "*/"⟩]⟩,
        ⟨[.single ⟨.tagName, "a"⟩], [⟨"x", "/*"⟩]⟩] := by decide +kernel
  have hback : ∀ layout : Layout, parseRules (layout.dictionary d) =
      .ok [⟨[.single ⟨.tagName, "a"⟩], [⟨"x", ""⟩]⟩] := by
    intro layout
    cases layout <;> decide +kernel
  refine ⟨?_, by decide +kernel, fun layout => ?_⟩
  · rw [parseDictionary, hrules]
    rfl
  · refine ⟨Dictionary.ofRules [⟨[.single ⟨.tagName, "a"⟩], [⟨"x", ""⟩]⟩], ?_, by decide +kernel⟩
    rw [parseDictionary, hback]
    rfl

end StyleInliner.Css
