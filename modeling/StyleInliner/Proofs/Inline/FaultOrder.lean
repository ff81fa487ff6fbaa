/-
In what order the tags are taken, and which fault is reported.

An element has one tag, so in the first pass it comes up once and is still as it was:
what stops the pass is the first style, in the order of its edits, that cannot be read
(`faultOf_runSchedule`).  The order of the tags decides which one that is, and nothing
else does (`faultOf_tagPass`).

A pass that no fault stops leaves the same forest in whatever order the tags are taken,
and nothing after it asks for that order again (`inlineRules_congr`).  So the order
decides which fault is reported, and never whether one is.
-/
import StyleInliner.Proofs.Inline.Application
import StyleInliner.Proofs.Inline.Cascade
import StyleInliner.Proofs.Inline.Stylesheet

namespace StyleInliner.Inline

open StyleInliner.Css StyleInliner.Dom

theorem findSome?_congr {α β : Type} {l : List α} {f g : α → Option β}
    (h : ∀ a ∈ l, f a = g a) : l.findSome? f = l.findSome? g := by
  rw [← List.head?_filterMap, List.filterMap_congr h, List.head?_filterMap]

theorem findSome?_flatMap {α β γ : Type} (l : List α) (lists : α → List β) (f : β → Option γ) :
    (l.flatMap lists).findSome? f = l.findSome? fun a => (lists a).findSome? f := by
  simp only [← List.head?_filterMap, List.filterMap_flatMap, List.head?_flatMap]

/-! ### The first style that cannot be read -/

/-- The fault of the first element of a tag whose style cannot be read. -/
def tagFault? (d : Document) (tag : String) : Option CssError :=
  (elementsOfTag d tag).findSome? fun n =>
    (d.forest.element? n).bind fun e => faultOf e.declarations

/-- The tags that the rules of a stylesheet are matched with; there are none if it cannot be
read. -/
def matchedTags (css : String) : List String :=
  match readStylesheet css with
  | .ok (_, matchable) => matchable.tags
  | .error _ => []

/-- An application fails when the style cannot be read, whatever is applied. -/
theorem faultOf_applyDeclarations (e : Element) (ds : List Declaration) :
    faultOf (applyDeclarations e ds) = faultOf e.declarations := by
  rw [applyDeclarations, faultOf_map]
  unfold Application.start Element.declarations
  cases e.attribute? "style" with
  | none => rfl
  | some style =>
      rw [Option.getD_some]
      dsimp only
      cases parseDeclarations style with
      | error fault => rfl
      | ok own => cases own <;> rfl

/-- A schedule with one edit for each node stops at the first that fails on the element as it
was. -/
theorem faultOf_runSchedule {schedule : Schedule} (hnodup : (schedule.map Prod.fst).Nodup)
    (f : Forest) :
    faultOf (runSchedule schedule f) =
      schedule.findSome? fun entry => (f.element? entry.1).bind fun e => faultOf (entry.2 e) := by
  induction schedule generalizing f with
  | nil => rfl
  | cons entry schedule ih =>
      obtain ⟨n, edit⟩ := entry
      obtain ⟨hn, hnodup⟩ := List.nodup_cons.1 hnodup
      rw [runSchedule, List.foldlM_cons, editAt, List.findSome?_cons]
      dsimp only
      cases he : f.element? n with
      | none => exact ih hnodup f
      | some e =>
          rw [Option.bind_some]
          dsimp only
          cases edit e with
          | error fault => rfl
          | ok e' =>
              -- the edits left are for other nodes, and those are still as they were
              refine (ih hnodup (f.setContent n (.element e'))).trans ?_
              refine findSome?_congr fun entry hentry => ?_
              rw [Forest.element?_setContent, if_neg]
              rintro ⟨rfl, -⟩
              exact hn (List.mem_map.2 ⟨entry, hentry, rfl⟩)

section TagPass

variable {rules : List Rule} {d : Document} {tags : List String}

/-- The edits for the tags are for different elements. -/
theorem nodup_tagPass (hrules : ∀ rule ∈ rules, ∀ s ∈ rule.selectors, s.Canonical)
    (hnodup : d.elements.Nodup) (htagsNodup : tags.Nodup)
    (htags : ∀ tag ∈ tags, blocksFor rules (.single ⟨.tagName, tag⟩) ≠ []) :
    ((tags.flatMap (tagEdits (Dictionary.ofRules rules) (Index.ofDocument d))).map
      Prod.fst).Nodup := by
  have hnodes : (tags.flatMap (tagEdits (Dictionary.ofRules rules) (Index.ofDocument d))).map
      Prod.fst = tags.flatMap (elementsOfTag d) := by
    rw [List.map_flatMap]
    refine List.flatMap_congr fun tag htag => ?_
    rw [tagEdits_eq hrules (htags tag htag), List.map_map]
    exact List.map_id _
  rw [hnodes, List.nodup_flatMap]
  refine ⟨fun tag _ => nodup_elementsOfTag hnodup tag, htagsNodup.imp fun hne n hn hn' => ?_⟩
  exact hne (Option.some.inj
    ((mem_elementsOfTag.1 hn).2.symm.trans (mem_elementsOfTag.1 hn').2))

/-- **What stops the first pass is the first fault of the first tag that has one.** -/
theorem faultOf_tagPass (hrules : ∀ rule ∈ rules, ∀ s ∈ rule.selectors, s.Canonical)
    (hnodup : d.elements.Nodup) (htagsNodup : tags.Nodup)
    (htags : ∀ tag ∈ tags, blocksFor rules (.single ⟨.tagName, tag⟩) ≠ []) :
    faultOf (runSchedule (tags.flatMap (tagEdits (Dictionary.ofRules rules)
      (Index.ofDocument d))) d.forest) = tags.findSome? (tagFault? d) := by
  rw [faultOf_runSchedule (nodup_tagPass hrules hnodup htagsNodup htags), findSome?_flatMap]
  refine findSome?_congr fun tag htag => ?_
  rw [tagEdits_eq hrules (htags tag htag), List.findSome?_map, tagFault?]
  refine findSome?_congr fun n _ => congrArg (Option.bind _) (funext fun e => ?_)
  unfold applyMatching
  cases hblocks : blocksFor rules (.single ⟨.tagName, tag⟩) with
  | nil => exact absurd hblocks (htags tag htag)
  | cons block blocks => exact faultOf_applyDeclarations e _

/-- A pass that no fault stops makes the same of the document in any order of the tags. -/
theorem tagPass_of_perm (hrules : ∀ rule ∈ rules, ∀ s ∈ rule.selectors, s.Canonical)
    (hnodup : d.elements.Nodup) (htagsNodup : tags.Nodup)
    (htags : ∀ tag, tag ∈ tags ↔ blocksFor rules (.single ⟨.tagName, tag⟩) ≠ [])
    {tags' : List String} (hperm : tags'.Perm tags) {g : Forest}
    (h : runSchedule (tags.flatMap (tagEdits (Dictionary.ofRules rules)
      (Index.ofDocument d))) d.forest = .ok g) :
    runSchedule (tags'.flatMap (tagEdits (Dictionary.ofRules rules)
      (Index.ofDocument d))) d.forest = .ok g := by
  rw [runSchedule_eq_ok_iff] at h ⊢
  refine h.mono fun n e he e' hedit => ?_
  rw [editOf_tagPass hrules hnodup htagsNodup htags he] at hedit
  rwa [editOf_tagPass hrules hnodup (hperm.nodup_iff.2 htagsNodup)
    (fun tag => hperm.mem_iff.trans (htags tag)) he]

end TagPass

/-- What comes after the first pass does not ask for the order of the tags. -/
theorem inlineRules_congr {rules : Dictionary} {m : Matchable} {index : Index} {remove : Bool}
    {tags tags' : List String} {f g : Forest}
    (h : runSchedule (tags.flatMap (tagEdits rules index)) f = .ok g)
    (h' : runSchedule (tags'.flatMap (tagEdits rules index)) f = .ok g) :
    inlineRules rules { m with tags := tags' } index remove f =
      inlineRules rules { m with tags } index remove f := by
  rw [← toExcept_inlineTags, ← Run.eq_done_iff] at h h'
  rw [inlineRules, inlineRules, h, h']
  rfl

/-! ### Two runs -/

/-- What a stylesheet is read as. -/
theorem exists_rules_of_readStylesheet {css : String} {dictionary : Dictionary} {m : Matchable}
    (h : readStylesheet css = .ok (dictionary, m)) :
    ∃ rules : List Rule, dictionary = Dictionary.ofRules rules ∧
      (∀ rule ∈ rules, ∀ s ∈ rule.selectors, s.Canonical) ∧ m.tags.Nodup ∧
      ∀ tag, tag ∈ m.tags ↔ blocksFor rules (.single ⟨.tagName, tag⟩) ≠ [] := by
  obtain ⟨dictionary', hparse, hread⟩ := bind_eq_ok_iff.1 h
  obtain ⟨rules, hrules, rfl⟩ := map_eq_ok_iff.1 hparse
  obtain ⟨m', hm, hread⟩ := bind_eq_ok_iff.1 hread
  obtain ⟨rfl, rfl⟩ := Prod.mk.inj (Except.ok.inj hread)
  have hcanonical : ∀ rule ∈ rules, ∀ s ∈ rule.selectors, s.Canonical := fun rule hrule =>
    (readable_of_parseBlocks hrules rule hrule).canonical
  obtain ⟨m, hm', hnodup, htags, -⟩ := Dictionary.matchable_ofRules hcanonical
  obtain rfl := Except.ok.inj (hm.symm.trans hm')
  exact ⟨rules, rfl, hcanonical, hnodup, htags⟩

section Sheet

variable {c : Document} (hc : c.WellFormed) {css : String} {remove : Bool}
  {order order' : List String → List String} (horder : ∀ tags, (order tags).Perm tags)
  (horder' : ∀ tags, (order' tags).Perm tags)
include hc horder

/-- A fault of the first pass is the one that is reported. -/
theorem fault_applyStylesheet {fault : CssError}
    (hfault : (order (matchedTags css)).findSome? (tagFault? c) = some fault) :
    (applyStylesheet order css remove c).fault = some fault := by
  have hnodup : c.elements.Nodup := (Forest.nodup_preorder hc.forest c.root).filter _
  rw [matchedTags] at hfault
  cases hread : readStylesheet css with
  | error e =>
      -- without tags to match no element is come to
      rw [hread, (horder []).eq_nil] at hfault
      cases hfault
  | ok read =>
      obtain ⟨dictionary, m⟩ := read
      obtain ⟨rules, rfl, hrules, htagsNodup, htags⟩ := exists_rules_of_readStylesheet hread
      have hperm := horder m.tags
      rw [hread] at hfault
      dsimp only at hfault
      rw [← faultOf_tagPass hrules hnodup (hperm.nodup_iff.2 htagsNodup)
        fun tag htag => (htags tag).1 (hperm.mem_iff.1 htag), faultOf_eq_some_iff] at hfault
      rw [applyStylesheet, hread]
      dsimp only
      rw [Run.fault_eq_some_iff, toExcept_inlineRules, passes, runSchedule, List.foldlM_append,
        ← runSchedule, hfault]
      rfl

include horder' in
/-- Without a fault in the first pass the orders make no difference. -/
theorem applyStylesheet_congr (hnone : ∀ tag ∈ matchedTags css, tagFault? c tag = none) :
    applyStylesheet order' css remove c = applyStylesheet order css remove c := by
  have hnodup : c.elements.Nodup := (Forest.nodup_preorder hc.forest c.root).filter _
  unfold applyStylesheet
  cases hread : readStylesheet css with
  | error e => rfl
  | ok read =>
      obtain ⟨dictionary, m⟩ := read
      obtain ⟨rules, rfl, hrules, htagsNodup, htags⟩ := exists_rules_of_readStylesheet hread
      rw [matchedTags, hread] at hnone
      obtain ⟨g, hg⟩ : ∃ g, runSchedule (m.tags.flatMap (tagEdits (Dictionary.ofRules rules)
          (Index.ofDocument c))) c.forest = .ok g := by
        rw [← faultOf_eq_none_iff, faultOf_tagPass hrules hnodup htagsNodup
          fun tag => (htags tag).1, List.findSome?_eq_none_iff]
        exact hnone
      dsimp only
      rw [inlineRules_congr
        (tagPass_of_perm hrules hnodup htagsNodup htags (horder m.tags) hg)
        (tagPass_of_perm hrules hnodup htagsNodup htags (horder' m.tags) hg)]

end Sheet

theorem inlineDocumentIn_eq (order : List String → List String) (d : Document)
    (options : InlineOptions) :
    inlineDocumentIn order d options =
      (applyStylesheet order (collectStylesheet d options).2 options.removeClassAttributes
        (collectStylesheet d options).1).andThen
          (convertAll (Index.ofDocument (collectStylesheet d options).1)) := rfl

section Documents

variable {d : Document} (hd : d.WellFormed) (options : InlineOptions)
  {order order' : List String → List String} (horder : ∀ tags, (order tags).Perm tags)
  (horder' : ∀ tags, (order' tags).Perm tags)
include hd horder

/-- So a run reports what its first pass does. -/
theorem fault_inlineDocumentIn {fault : CssError}
    (hfault : (order (matchedTags (collectStylesheet d options).2)).findSome?
      (tagFault? (collectStylesheet d options).1) = some fault) :
    (inlineDocumentIn order d options).fault = some fault := by
  have hstyled : (applyStylesheet order (collectStylesheet d options).2
      options.removeClassAttributes (collectStylesheet d options).1).fault = some fault :=
    fault_applyStylesheet (wellFormed_collectStylesheet hd options) horder hfault
  rw [inlineDocumentIn_eq, Run.andThen_of_fault hstyled, hstyled]

/-- If the first pass comes to a style that cannot be read, some tag has it for its first fault. -/
theorem exists_fault_inlineDocumentIn
    (hsome : ¬ ∀ tag ∈ matchedTags (collectStylesheet d options).2,
      tagFault? (collectStylesheet d options).1 tag = none) :
    ∃ tag ∈ matchedTags (collectStylesheet d options).2, ∃ fault,
      tagFault? (collectStylesheet d options).1 tag = some fault ∧
        (inlineDocumentIn order d options).fault = some fault := by
  have hperm := horder (matchedTags (collectStylesheet d options).2)
  cases hfirst : (order (matchedTags (collectStylesheet d options).2)).findSome?
      (tagFault? (collectStylesheet d options).1) with
  | none =>
      refine absurd (fun tag htag => ?_) hsome
      exact List.findSome?_eq_none_iff.1 hfirst tag (hperm.mem_iff.2 htag)
  | some fault =>
      obtain ⟨tag, htag, hfault⟩ := List.exists_of_findSome?_eq_some hfirst
      exact ⟨tag, hperm.mem_iff.1 htag, fault, hfault,
        fault_inlineDocumentIn hd options horder hfirst⟩

include horder' in
/-- If it comes to none, nothing shows in what order it went. -/
theorem inlineDocumentIn_congr
    (hnone : ∀ tag ∈ matchedTags (collectStylesheet d options).2,
      tagFault? (collectStylesheet d options).1 tag = none) :
    inlineDocumentIn order' d options = inlineDocumentIn order d options := by
  rw [inlineDocumentIn_eq, inlineDocumentIn_eq, applyStylesheet_congr
    (wellFormed_collectStylesheet hd options) horder horder' hnone]

end Documents

/-- The order that takes one tag before the others. -/
def takeFirst (tag : String) (tags : List String) : List String :=
  if tag ∈ tags then tag :: tags.erase tag else tags

theorem perm_takeFirst (tag : String) (tags : List String) : (takeFirst tag tags).Perm tags := by
  unfold takeFirst
  split
  · rename_i hmem
    exact (List.perm_cons_erase hmem).symm
  · exact List.Perm.refl tags

/-- The first fault of any tag is reported when that tag is taken first. -/
theorem fault_takeFirst {d : Document} (hd : d.WellFormed) (options : InlineOptions) {tag : String}
    (htag : tag ∈ matchedTags (collectStylesheet d options).2) {fault : CssError}
    (hfault : tagFault? (collectStylesheet d options).1 tag = some fault) :
    (inlineDocumentIn (takeFirst tag) d options).fault = some fault := by
  refine fault_inlineDocumentIn hd options (perm_takeFirst tag) ?_
  rw [takeFirst, if_pos htag, List.findSome?_cons_of_isSome (by rw [hfault]; rfl)]
  exact hfault

/-- **The order of the tags decides which fault is reported, and only that.**  If the first pass
comes to a style that cannot be read, the run fails with the first such style of the first tag that
has one; so all orders report the same just when the tags agree on their first faults.  If it does
not, the run is the same in every order. -/
theorem fault_by_tag_order {d : Document} (hd : d.WellFormed) (options : InlineOptions) :
    let c := (collectStylesheet d options).1
    let tags := matchedTags (collectStylesheet d options).2
    (∀ order : List String → List String, (∀ l, (order l).Perm l) →
      ∀ fault, (order tags).findSome? (tagFault? c) = some fault →
        (inlineDocumentIn order d options).fault = some fault) ∧
    (∀ order order' : List String → List String, (∀ l, (order l).Perm l) →
      (∀ l, (order' l).Perm l) →
        ((∃ fault, (inlineDocumentIn order d options).fault = some fault) ↔
          ∃ fault, (inlineDocumentIn order' d options).fault = some fault) ∧
        ((∀ tag ∈ tags, tagFault? c tag = none) →
          inlineDocumentIn order' d options = inlineDocumentIn order d options)) ∧
    ((∀ order order' : List String → List String, (∀ l, (order l).Perm l) →
      (∀ l, (order' l).Perm l) →
        (inlineDocumentIn order d options).fault = (inlineDocumentIn order' d options).fault) ↔
      ∀ tag ∈ tags, ∀ tag' ∈ tags, ∀ fault fault', tagFault? c tag = some fault →
        tagFault? c tag' = some fault' → fault = fault') := by
  intro c tags
  refine ⟨fun order horder fault => fault_inlineDocumentIn hd options horder,
    fun order order' horder horder' =>
      ⟨?_, inlineDocumentIn_congr hd options horder horder'⟩, fun hsame => ?_, fun hagree => ?_⟩
  · by_cases hnone : ∀ tag ∈ tags, tagFault? c tag = none
    · rw [inlineDocumentIn_congr hd options horder horder' hnone]
    · obtain ⟨_, _, fault, _, hfault⟩ :=
        exists_fault_inlineDocumentIn hd options horder hnone
      obtain ⟨_, _, fault', _, hfault'⟩ :=
        exists_fault_inlineDocumentIn hd options horder' hnone
      exact iff_of_true ⟨fault, hfault⟩ ⟨fault', hfault'⟩
  · intro tag htag tag' htag' fault fault' hfault hfault'
    have hreport := hsame _ _ (perm_takeFirst tag) (perm_takeFirst tag')
    rw [fault_takeFirst hd options htag hfault, fault_takeFirst hd options htag' hfault'] at hreport
    exact Option.some.inj hreport
  · intro order order' horder horder'
    by_cases hnone : ∀ tag ∈ tags, tagFault? c tag = none
    · rw [inlineDocumentIn_congr hd options horder horder' hnone]
    · obtain ⟨tag, htag, fault, hfault, hreport⟩ :=
        exists_fault_inlineDocumentIn hd options horder hnone
      obtain ⟨tag', htag', fault', hfault', hreport'⟩ :=
        exists_fault_inlineDocumentIn hd options horder' hnone
      rw [hreport, hreport', hagree tag htag tag' htag' fault fault' hfault hfault']

/-- Both elements have a style without a colon, and a rule. -/
theorem fault_by_tag_order_two_styles :
    let d := Document.ofTrees
      [.node (.element ⟨.html, "p", [⟨"style", "x"⟩]⟩) [],
        .node (.element ⟨.html, "b", [⟨"style", "y"⟩]⟩) []] none true
    let options : InlineOptions := { extraCss := some "p,b\x7bmargin:0\x7d" }
    d.WellFormed ∧ matchedTags (collectStylesheet d options).2 = ["p", "b"] ∧
      tagFault? (collectStylesheet d options).1 "p" = some (.missingColon "x") ∧
      tagFault? (collectStylesheet d options).1 "b" = some (.missingColon "y") ∧
      (inlineDocumentIn id d options).fault = some (.missingColon "x") ∧
      (inlineDocumentIn List.reverse d options).fault = some (.missingColon "y") := by
  intro d options
  have hd : d.WellFormed := ⟨Forest.wellFormed_of_forall (by decide), by decide, by decide⟩
  obtain ⟨htags, hp, hb⟩ : matchedTags (collectStylesheet d options).2 = ["p", "b"] ∧
      tagFault? (collectStylesheet d options).1 "p" = some (.missingColon "x") ∧
      tagFault? (collectStylesheet d options).1 "b" = some (.missingColon "y") := by
    decide +kernel
  obtain ⟨hreport, -, -⟩ := fault_by_tag_order hd options
  rw [htags] at hreport
  refine ⟨hd, htags, hp, hb, hreport id (fun _ => List.Perm.refl _) _ ?_,
    hreport List.reverse List.reverse_perm _ ?_⟩
  · rw [id, List.findSome?_cons, hp]
  · rw [show ["p", "b"].reverse = ["b", "p"] from rfl, List.findSome?_cons, hb]

/-- The fault that is reported is not the same in every order: with the tags taken the other way
round it is another one. -/
theorem fault_not_same_in_every_order :
    let d := Document.ofTrees
      [.node (.element ⟨.html, "td", [⟨"style", "color"⟩]⟩) [],
        .node (.element ⟨.html, "img", [⟨"style", ": 0"⟩]⟩) []] none true
    let options : InlineOptions := { extraCss := some "td,img\x7bwidth:1px\x7d" }
    d.WellFormed ∧ (∀ tags : List String, (id tags).Perm tags) ∧
      (∀ tags : List String, tags.reverse.Perm tags) ∧
      (inlineDocumentIn id d options).fault = some (.missingColon "color") ∧
      (inlineDocumentIn List.reverse d options).fault = some (.emptyDeclaration ": 0") := by
  intro d options
  have hfaults : (inlineDocumentIn id d options).fault = some (.missingColon "color") ∧
      (inlineDocumentIn List.reverse d options).fault = some (.emptyDeclaration ": 0") := by
    decide +kernel
  exact ⟨⟨Forest.wellFormed_of_forall (by decide), by decide, by decide⟩,
    fun _ => List.Perm.refl _, List.reverse_perm, hfaults⟩

end StyleInliner.Inline
