/-
Inlining is the cascade, element by element.

The reference visits each element by itself: it applies the rules for its tag, all
of them at once, and then for each class it lists the rules for that class.  It
reads the list of rules and nothing else.  The passes come to the same by other
ways: through a dictionary keyed by the text of selectors, an index of the
elements by tag, and a list of those that carry a class, and they go through the
whole document once for each tag before any class is looked at.

Both are schedules of edits, so it is enough that they hold the same edits for
each node.  An element has one tag, so of the edits by tag only one is for it,
wherever that tag comes in the order; and no element stands in the index twice.

Which classes an element has the reference settles for itself, by cutting the value
at its blanks (`classTokens`).
-/
import StyleInliner.Proofs.Css.Dictionary
import StyleInliner.Proofs.Dom.Traversal
import StyleInliner.Proofs.Inline.Schedule
import StyleInliner.Proofs.Text.MaximalRun

namespace StyleInliner.Inline

open StyleInliner.Css StyleInliner.Dom

/-! ### The reference -/

/-- Applies the declarations of all rules for a selector at once, if there are such rules. -/
def applyMatching (rules : List Rule) (selector : Selector) : Edit := fun e =>
  match blocksFor rules selector with
  | [] => .ok e
  | blocks => applyDeclarations e blocks.flatten

/-- The names that a class value lists: what stands between its blanks, without the empty pieces. -/
def classTokens (value : String) : List String :=
  ((value.toList.splitOnP Text.isBlank).filter (· ≠ [])).map String.ofList

/-- The cascade at one element: the rules for its tag, and, if it carries a class attribute, those
for each class that is listed after that. -/
def cascadeElement (rules : List Rule) (remove : Bool) : Edit := fun e => do
  let styled ← applyMatching rules (.single ⟨.tagName, e.tag⟩) e
  if e.hasAttribute "class" then
    let styled ← (classTokens ((styled.attribute? "class").getD "")).foldlM
      (fun e name => applyMatching rules (.single ⟨.className, name⟩) e) styled
    return if remove then styled.removeAttribute "class" else styled
  else return styled

/-- The cascade at every element of a document, each as the document has it. -/
def cascade (rules : List Rule) (remove : Bool) (d : Document) : Except CssError Forest :=
  d.elements.foldlM
    (fun f n =>
      match d.forest.element? n with
      | none => .ok f
      | some e => (cascadeElement rules remove e).map fun e => f.setContent n (.element e))
    d.forest

/-! ### Class tokens -/

/-- The pass reads from a class value what the reference reads from it. -/
theorem classesOf_eq_classTokens (value : String) : classesOf value = classTokens value := by
  have hwords := (Text.runsOf_words value.toList).eq_filter_splitOnP
  simp only [Bool.not_not] at hwords
  rw [classesOf, hwords, classTokens]

/-- Those are the runs of characters that are not blank, in order. -/
theorem runsOf_classTokens (value : String) :
    Text.RunsOf (fun c => !Text.isBlank c) value.toList
      ((classTokens value).map String.toList) := by
  have hsame : ((classesOf value).map String.toList) = Text.words value.toList := by
    simp [classesOf, Function.comp_def]
  rw [← classesOf_eq_classTokens, hsame]
  exact Text.runsOf_words value.toList

/-! ### Edits for one node -/

theorem editOf_flatMap {α : Type} (l : List α) (edits : α → Schedule) (n : NodeId) (e : Element) :
    editOf (l.flatMap edits) n e = l.foldlM (fun e a => editOf (edits a) n e) e := by
  induction l generalizing e with
  | nil => rfl
  | cons a l ih =>
      rw [List.flatMap_cons, editOf_append, List.foldlM_cons]
      simp only [← ih]

/-- One edit for each of several nodes. -/
theorem editOf_map {nodes : List NodeId} (hnodes : nodes.Nodup) (edit : Edit) (n : NodeId)
    (e : Element) :
    editOf (nodes.map fun m => (m, edit)) n e = if n ∈ nodes then edit e else .ok e := by
  rw [editOf, List.foldlM_map, foldlM_eq_of_nodup hnodes (a := n)]
  · simp
  · intro m _ hm e
    exact if_neg hm

/-- The cascade is a schedule, too: as no element is met twice, each is still as it was. -/
theorem cascade_eq_runSchedule {d : Document} (hnodup : d.elements.Nodup) (rules : List Rule)
    (remove : Bool) :
    cascade rules remove d =
      runSchedule (d.elements.map fun n => (n, cascadeElement rules remove)) d.forest := by
  have hgo : ∀ (nodes : List NodeId) (f : Forest), nodes.Nodup →
      (∀ n ∈ nodes, f.element? n = d.forest.element? n) →
      nodes.foldlM
        (fun f n =>
          match d.forest.element? n with
          | none => .ok f
          | some e => (cascadeElement rules remove e).map fun e => f.setContent n (.element e)) f =
        runSchedule (nodes.map fun n => (n, cascadeElement rules remove)) f := by
    intro nodes
    induction nodes with
    | nil => exact fun f _ _ => rfl
    | cons n nodes ih =>
        intro f hnodup hsame
        obtain ⟨hn, hnodup⟩ := List.nodup_cons.1 hnodup
        rw [List.foldlM_cons, List.map_cons, runSchedule, List.foldlM_cons, editAt,
          hsame n (by simp)]
        cases he : d.forest.element? n with
        | none => exact ih f hnodup fun m hm => hsame m (by simp [hm])
        | some e =>
            simp only
            cases cascadeElement rules remove e with
            | error fault => rfl
            | ok e' =>
                refine ih (f.setContent n (.element e')) hnodup fun m hm => ?_
                rw [Forest.element?_setContent, if_neg, hsame m (by simp [hm])]
                rintro ⟨rfl, -⟩
                exact hn hm
  exact hgo d.elements d.forest hnodup fun _ _ => rfl

/-- The elements of a document that have a tag, in document order. -/
def elementsOfTag (d : Document) (tag : String) : List NodeId :=
  d.elements.filter fun n => d.forest.tag? n = some tag

theorem mem_elementsOfTag {d : Document} {tag : String} {n : NodeId} :
    n ∈ elementsOfTag d tag ↔ n ∈ d.elements ∧ d.forest.tag? n = some tag := by
  simp [elementsOfTag]

theorem nodup_elementsOfTag {d : Document} (hnodup : d.elements.Nodup) (tag : String) :
    (elementsOfTag d tag).Nodup :=
  hnodup.filter _

/-! ### Both schedules agree -/

section Agreement

variable {rules : List Rule} {m : Matchable} {d : Document}

theorem classEdit_eq_applyMatching (hrules : ∀ rule ∈ rules, ∀ s ∈ rule.selectors, s.Canonical)
    (hclasses : ∀ name, name ∈ m.classes ↔ blocksFor rules (.single ⟨.className, name⟩) ≠ [])
    (name : String) :
    classEdit (Dictionary.ofRules rules) m name =
      applyMatching rules (.single ⟨.className, name⟩) := by
  funext e
  unfold classEdit applyMatching
  by_cases hblocks : blocksFor rules (.single ⟨.className, name⟩) = []
  · have hname : m.classes.contains name = false := by
      simpa [hclasses] using hblocks
    rw [hname, hblocks]
    rfl
  · have hname : m.classes.contains name = true := by
      simpa [hclasses] using hblocks
    obtain ⟨rule, hrule, hselector⟩ := blocksFor_ne_nil_iff.1 hblocks
    have hget := Dictionary.get?_ofRules hrules (hrules rule hrule _ hselector)
    rw [if_pos hname, Dictionary.getClass?]
    rw [show (Selector.single ⟨.className, name⟩).text = "." ++ name from rfl] at hget
    rw [hget]
    cases hcase : blocksFor rules (.single ⟨.className, name⟩) with
    | nil => exact absurd hcase hblocks
    | cons block blocks => rfl

/-- The edits for a tag apply its rules to the elements that have it. -/
theorem tagEdits_eq (hrules : ∀ rule ∈ rules, ∀ s ∈ rule.selectors, s.Canonical) {tag : String}
    (htag : blocksFor rules (.single ⟨.tagName, tag⟩) ≠ []) :
    tagEdits (Dictionary.ofRules rules) (Index.ofDocument d) tag =
      (elementsOfTag d tag).map fun n => (n, applyMatching rules (.single ⟨.tagName, tag⟩)) := by
  obtain ⟨rule, hrule, hselector⟩ := blocksFor_ne_nil_iff.1 htag
  have hcanon : (Selector.single ⟨.tagName, tag⟩).Canonical := hrules rule hrule _ hselector
  have hlower : Text.lower tag = tag := (hcanon.tag rfl).2
  have hget := Dictionary.get?_ofRules hrules hcanon
  rw [show (Selector.single ⟨.tagName, tag⟩).text = tag from rfl] at hget
  have hnodes : (Index.ofDocument d).byTag tag = elementsOfTag d tag := by
    rw [Index.byTag_ofDocument, elementsOfTag, hlower]
    refine List.filter_congr fun n hn => ?_
    obtain ⟨e, he⟩ := Option.isSome_iff_exists.1 (List.mem_filter.1 hn).2
    simp [Forest.tag?, he]
  unfold tagEdits applyMatching
  rw [hget, hnodes]
  cases hcase : blocksFor rules (.single ⟨.tagName, tag⟩) with
  | nil => exact absurd hcase htag
  | cons block blocks => rfl

/-- So an element has edits for a tag when the tag is its own. -/
theorem editOf_tagEdits (hrules : ∀ rule ∈ rules, ∀ s ∈ rule.selectors, s.Canonical)
    (hnodup : d.elements.Nodup) {tag : String}
    (htag : blocksFor rules (.single ⟨.tagName, tag⟩) ≠ []) {n : NodeId} {e : Element}
    (he : d.forest.element? n = some e) (x : Element) :
    editOf (tagEdits (Dictionary.ofRules rules) (Index.ofDocument d) tag) n x =
      if n ∈ d.elements ∧ e.tag = tag then applyMatching rules (.single ⟨.tagName, tag⟩) x
      else .ok x := by
  rw [tagEdits_eq hrules htag, editOf_map (nodup_elementsOfTag hnodup tag)]
  simp only [mem_elementsOfTag, Forest.tag?, he, Option.map_some, Option.some.injEq]

/-- In whatever order the tags are taken, the edits for an element are those by its own tag. -/
theorem editOf_tagPass (hrules : ∀ rule ∈ rules, ∀ s ∈ rule.selectors, s.Canonical)
    (hnodup : d.elements.Nodup) {tags : List String} (htagsNodup : tags.Nodup)
    (htags : ∀ tag, tag ∈ tags ↔ blocksFor rules (.single ⟨.tagName, tag⟩) ≠ [])
    {n : NodeId} {e : Element} (he : d.forest.element? n = some e) :
    editOf (tags.flatMap (tagEdits (Dictionary.ofRules rules) (Index.ofDocument d))) n e =
      if n ∈ d.elements then applyMatching rules (.single ⟨.tagName, e.tag⟩) e else .ok e := by
  rw [editOf_flatMap, foldlM_eq_of_nodup htagsNodup (a := e.tag)]
  · by_cases hmem : e.tag ∈ tags
    · rw [if_pos hmem, editOf_tagEdits hrules hnodup ((htags _).1 hmem) he]
      simp
    · have hnone : applyMatching rules (.single ⟨.tagName, e.tag⟩) e = .ok e := by
        unfold applyMatching
        rw [not_not.1 fun hne => hmem ((htags _).2 hne)]
      rw [if_neg hmem, hnone, ite_self]
  · intro tag htag hne x
    rw [editOf_tagEdits hrules hnodup ((htags _).1 htag) he, if_neg]
    exact fun h => hne h.2.symm

/-- **For each element, the passes hold the edits of the cascade.** -/
theorem editOf_passes (hrules : ∀ rule ∈ rules, ∀ s ∈ rule.selectors, s.Canonical)
    (hnodup : d.elements.Nodup) (htagsNodup : m.tags.Nodup)
    (htags : ∀ tag, tag ∈ m.tags ↔ blocksFor rules (.single ⟨.tagName, tag⟩) ≠ [])
    (hclasses : ∀ name, name ∈ m.classes ↔ blocksFor rules (.single ⟨.className, name⟩) ≠ [])
    (remove : Bool) {n : NodeId} {e : Element} (he : d.forest.element? n = some e) :
    editOf (passes (Dictionary.ofRules rules) m (Index.ofDocument d) remove) n e =
      editOf (d.elements.map fun n => (n, cascadeElement rules remove)) n e := by
  have hclassed : n ∈ (Index.ofDocument d).classed ↔
      n ∈ d.elements ∧ e.hasAttribute "class" = true := by
    rw [Index.classed_ofDocument, List.mem_filter, he]
    rfl
  have hclassedNodup : (Index.ofDocument d).classed.Nodup := by
    rw [Index.classed_ofDocument]
    exact hnodup.filter _
  rw [passes, editOf_append, editOf_tagPass hrules hnodup htagsNodup htags he, editOf_map hnodup]
  by_cases hn : n ∈ d.elements
  · rw [if_pos hn, if_pos hn, cascadeElement]
    refine congrArg _ (funext fun styled => ?_)
    rw [editOf_map hclassedNodup]
    by_cases hclass : e.hasAttribute "class" = true
    · rw [if_pos (hclassed.2 ⟨hn, hclass⟩), if_pos hclass]
      unfold classesEdit
      simp only [classEdit_eq_applyMatching hrules hclasses, classesOf_eq_classTokens]
    · rw [if_neg fun h => hclass (hclassed.1 h).2, if_neg hclass]
      rfl
  · rw [if_neg hn, if_neg hn]
    show editOf _ n e = .ok e
    rw [editOf_map hclassedNodup, if_neg fun h => hn (hclassed.1 h).1]

end Agreement

/-- **Inlining the rules of a stylesheet is the cascade, element by element,** whatever order the
tags are taken in: one succeeds just when the other does, and with the same forest.  The classes
that the cascade goes by are the runs of a class value between its blanks, in order. -/
theorem inlineRules_eq_cascade {css : String} {rules : List Rule}
    (hread : parseRules css = .ok rules) {d : Document} (hd : d.WellFormed)
    (options : InlineOptions) :
    (∀ value, Text.RunsOf (fun c => !Text.isBlank c) value.toList
      ((classTokens value).map String.toList)) ∧
    ∃ m, Matchable.ofDictionary (Dictionary.ofRules rules) = .ok m ∧
      ∀ tags, tags.Perm m.tags → ∀ f,
        (inlineRules (Dictionary.ofRules rules) { m with tags } (Index.ofDocument d)
            options.removeClassAttributes d.forest).toExcept = .ok f ↔
          cascade rules options.removeClassAttributes d = .ok f := by
  have hrules : ∀ rule ∈ rules, ∀ s ∈ rule.selectors, s.Canonical := fun rule hrule =>
    (readable_of_parseBlocks hread rule hrule).canonical
  have hnodup : d.elements.Nodup := (Forest.nodup_preorder hd.forest d.root).filter _
  obtain ⟨m, hm, htagsNodup, htags, hclasses⟩ := Dictionary.matchable_ofRules hrules
  refine ⟨runsOf_classTokens, m, hm, fun tags hperm f => ?_⟩
  rw [toExcept_inlineRules, cascade_eq_runSchedule hnodup, runSchedule_eq_ok_iff,
    runSchedule_eq_ok_iff]
  have hsame : ∀ n e, d.forest.element? n = some e →
      editOf (passes (Dictionary.ofRules rules) { m with tags } (Index.ofDocument d)
          options.removeClassAttributes) n e =
        editOf (d.elements.map fun n => (n, cascadeElement rules options.removeClassAttributes))
          n e :=
    fun n e he => editOf_passes (m := { m with tags }) hrules hnodup (hperm.nodup_iff.2 htagsNodup)
      (fun tag => hperm.mem_iff.trans (htags tag)) hclasses _ he
  constructor
  · exact fun h => h.mono fun n e he e' hedit => hsame n e he ▸ hedit
  · exact fun h => h.mono fun n e he e' hedit => (hsame n e he).symm ▸ hedit

/-- An `a` with a style of its own and three class tokens, one of them given twice, and an `i` in it
that has no class: what the rules for a class declare comes behind what the rules for the tag do, in
the order of the tokens and not in that of the rules. -/
theorem inlineRules_eq_cascade_link :
    let page (link italic : List Attribute) := Document.ofTrees
      [.node (.element ⟨.html, "A", link⟩)
        [.node (.text "t") [], .node (.element ⟨.html, "i", italic⟩) []]] none true
    let d := page [⟨"class", "c\u2003b c "⟩, ⟨"style", "y: z"⟩] []
    let styled := page [⟨"style", "y: z;x:1;w:4;v:5;u:6;"⟩] [⟨"style", "x:2;w:3;u:6;"⟩]
    let css := "a\x7bx:1\x7di,.b\x7bx:2;w:3;u:6\x7d.c\x7bw:4;v:5\x7d"
    let rules : List Rule :=
      [⟨[.single ⟨.tagName, "a"⟩], [⟨"x", "1"⟩]⟩,
        ⟨[.single ⟨.tagName, "i"⟩, .single ⟨.className, "b"⟩], [⟨"x", "2"⟩, ⟨"w", "3"⟩, ⟨"u", "6"⟩]⟩,
        ⟨[.single ⟨.className, "c"⟩], [⟨"w", "4"⟩, ⟨"v", "5"⟩]⟩]
    d.WellFormed ∧ parseRules css = .ok rules ∧ cascade rules true d = .ok styled.forest ∧
      Matchable.ofDictionary (Dictionary.ofRules rules) = .ok ⟨["a", "i"], ["b", "c"]⟩ ∧
        ∀ tags, tags.Perm ["a", "i"] →
          (inlineRules (Dictionary.ofRules rules) ⟨tags, ["b", "c"]⟩ (Index.ofDocument d) true
            d.forest).toExcept = .ok styled.forest := by
  intro page d styled css rules
  have hd : d.WellFormed := ⟨Forest.wellFormed_of_forall (by decide), by decide, by decide⟩
  have hread : parseRules css = .ok rules := by decide +kernel
  have hcascade : cascade rules true d = .ok styled.forest := by decide +kernel
  have hmatchable : Matchable.ofDictionary (Dictionary.ofRules rules) =
      .ok ⟨["a", "i"], ["b", "c"]⟩ := by decide +kernel
  obtain ⟨-, m, hm, hsame⟩ := inlineRules_eq_cascade hread hd { removeClassAttributes := true }
  obtain rfl := Except.ok.inj (hm.symm.trans hmatchable)
  exact ⟨hd, hread, hcascade, hmatchable, fun tags htags => (hsame tags htags _).2 hcascade⟩

end StyleInliner.Inline
