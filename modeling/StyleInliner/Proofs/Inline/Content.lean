/-
Inlining keeps the content of a document.

Three things are done to the tree, and each is known by what it does to the walk
over it.  Taking out `style` elements takes them out of the walk with all that is
in them (`preorder_collectStylesheet`), editing elements leaves the walk alone,
and the third pass puts the parts of tables where elements were.  So what is text,
comment or instruction comes in the order it came in before.
-/
import StyleInliner.Proofs.Inline.ConvertedWalk
import StyleInliner.Proofs.Inline.Directive

namespace StyleInliner

open StyleInliner.Css StyleInliner.Dom

/-- The character data that a node is, with the node. -/
def Dom.Forest.characterData? (f : Forest) (n : NodeId) : Option (NodeId × Content) :=
  ((f.content? n).filter Content.isCharacterData).map fun c => (n, c)

/-- The texts, comments and processing instructions of a document, in document order. -/
def Dom.Document.characterData (d : Document) : List (NodeId × Content) :=
  (d.forest.preorder d.root).filterMap d.forest.characterData?

theorem Dom.Forest.characterData?_eq_none {f : Forest} {n : NodeId} {e : Element}
    (h : f.element? n = some e) : f.characterData? n = none := by
  rw [characterData?, Forest.element?_eq_some_iff.1 h]
  rfl

namespace Inline

/-- The node is an element of the document that was neither taken out nor replaced. -/
def Remains (d : Document) (options : InlineOptions) (tables : Tables) (n : NodeId) : Prop :=
  n ∈ d.elements ∧ n ∉ removedNodes d options ∧ tables n = none

instance (d : Document) (options : InlineOptions) (tables : Tables) :
    DecidablePred (Remains d options tables) := fun _ =>
  inferInstanceAs (Decidable (_ ∧ _ ∧ _))

/-! ### Collecting the stylesheet -/

/-- Character data is picked from nodes that were picked. -/
theorem filterMap_characterData?_filter (f : Forest) (l : List NodeId) (p : NodeId → Bool) :
    (l.filter p).filterMap f.characterData? =
      (l.filterMap f.characterData?).filter fun x => p x.1 := by
  rw [List.filterMap_filter, List.filter_filterMap]
  refine List.filterMap_congr fun n _ => ?_
  cases hdata : f.characterData? n with
  | none => simp
  | some x =>
      obtain ⟨c, -, rfl⟩ := Option.map_eq_some_iff.1 hdata
      cases hp : p n <;> simp [Option.filter, hp]

theorem characterData?_collectStylesheet (d : Document) (options : InlineOptions) (n : NodeId) :
    (collectStylesheet d options).1.forest.characterData? n = d.forest.characterData? n := by
  rw [Forest.characterData?, content?_collectStylesheet, ← Forest.characterData?]

theorem characterData_collectStylesheet {d : Document} (hd : d.WellFormed)
    (options : InlineOptions) :
    (collectStylesheet d options).1.characterData =
      d.characterData.filter fun x => x.1 ∉ removedNodes d options := by
  rw [Document.characterData, Document.characterData, root_collectStylesheet,
    preorder_collectStylesheet hd,
    List.filterMap_congr fun n _ => characterData?_collectStylesheet d options n,
    filterMap_characterData?_filter]

/-! ### Editing elements -/

/-- The elements have one name and one namespace. -/
def SameKind (e e' : Element) : Prop :=
  e'.ns = e.ns ∧ e'.name = e.name

theorem sameKind_of_passes {rules : Dictionary} {m : Matchable} {index : Index} {remove : Bool}
    {n : NodeId} {e e' : Element} (h : editOf (passes rules m index remove) n e = .ok e') :
    SameKind e e' := by
  have hrefl : ∀ e, SameKind e e := fun _ => ⟨rfl, rfl⟩
  have htrans : ∀ {a b c}, SameKind a b → SameKind b c → SameKind a c := fun hab hbc =>
    ⟨hbc.1.trans hab.1, hbc.2.trans hab.2⟩
  refine rel_of_passes hrefl htrans ?_ (fun _ => ⟨rfl, rfl⟩) h
  intro _ _ ds _ e e' happlied
  refine rel_of_applyDeclarations hrefl htrans ?_ (fun _ _ => ⟨rfl, rfl⟩) happlied
  intro d _ x name _
  rcases Element.fillAttribute_cases x name d.value with heq | heq <;> rw [heq]
  · exact hrefl x
  · exact ⟨rfl, rfl⟩

namespace Edited

variable {f g : Forest} {R : NodeId → Element → Element → Prop} (h : Edited f g R)
include h

theorem preorder_eq (root : NodeId) : g.preorder root = f.preorder root :=
  Forest.preorder_congr h.size_eq h.children_eq root

theorem characterData?_eq (n : NodeId) : g.characterData? n = f.characterData? n := by
  cases he : f.element? n with
  | none => rw [Forest.characterData?, h.other n he, ← Forest.characterData?]
  | some e =>
      obtain ⟨e', he', -⟩ := h.element n e he
      rw [Forest.characterData?_eq_none he, Forest.characterData?_eq_none he']

theorem tag?_eq (hR : ∀ n e e', R n e e' → SameKind e e') (n : NodeId) : g.tag? n = f.tag? n := by
  cases he : f.element? n with
  | none => rw [Forest.tag?, Forest.tag?, h.element?_eq_none he, he]
  | some e =>
      obtain ⟨e', he', hedit⟩ := h.element n e he
      rw [Forest.tag?, Forest.tag?, he, he', Option.map_some, Option.map_some, Element.tag,
        Element.tag, (hR n e e' hedit).2]

end Edited

/-! ### Replacing elements -/

namespace Converted

variable {f g : Forest} {tables : Tables} (h : Converted f g tables) (hf : f.WellFormed)
include h hf

theorem characterData_place {root : NodeId} (hroot : root < f.size) :
    (g.preorder (tables.place root)).filterMap g.characterData? =
      (f.preorder root).filterMap f.characterData? := by
  rw [h.preorder_place hf hroot]
  refine filterMap_flatMap_nodesFor (fun n hn _ => ?_) fun n _ t ht => ?_
  · rw [Forest.characterData?, h.content?_eq (Forest.lt_size_of_mem_preorder hf hroot hn),
      ← Forest.characterData?]
  · obtain ⟨e, parts, he, -, htable⟩ := h.table ht
    refine ⟨Forest.characterData?_eq_none he, fun m hm => ?_⟩
    rw [Tables.nodesFor, ht] at hm
    simp only [List.mem_cons, List.not_mem_nil, or_false] at hm
    rcases hm with rfl | rfl | rfl
    · exact Forest.characterData?_eq_none (Forest.element?_eq_some_iff.2 htable.content?_table)
    · exact Forest.characterData?_eq_none (Forest.element?_eq_some_iff.2 htable.content?_row)
    · exact Forest.characterData?_eq_none (Forest.element?_eq_some_iff.2 htable.content?_cell)

omit hf in
/-- The parts of tables are tables, rows and cells. -/
theorem tag?_of_partFor {m n : Nat} (hm : tables.PartFor m n) :
    g.tag? m = some "table" ∨ g.tag? m = some "tr" ∨ g.tag? m = some "td" := by
  obtain ⟨t, ht, hpart⟩ := hm
  obtain ⟨e, parts, -, hparts, htable⟩ := h.table ht
  have hfit := CellTable.fit_ofAttributes hparts
  have htag : ∀ {k : Nat} {e : Element}, g.content? k = some (.element e) →
      g.tag? k = some (Text.lower e.name) := by
    intro k e hk
    rw [Forest.tag?, Forest.element?_eq_some_iff.2 hk]
    rfl
  rcases hpart with rfl | rfl | rfl
  · rw [htag htable.content?_table, hfit.table_name]
    exact Or.inl (by decide +kernel)
  · rw [htag htable.content?_row]
    exact Or.inr (Or.inl (by decide +kernel))
  · rw [htag htable.content?_cell, hfit.cell_name]
    exact Or.inr (Or.inr (by decide +kernel))

end Converted

/-- **No `style` element is left in the head,** or in the table that took its place. -/
theorem not_style_of_below_head {d : Document} (hd : d.WellFormed) {options : InlineOptions}
    (hremove : options.removeStyleElements = true) {head : NodeId} (hhead : d.head? = some head)
    {f g : Forest} {R : NodeId → Element → Element → Prop}
    (hedited : Edited (collectStylesheet d options).1.forest f R)
    (hR : ∀ n e e', R n e e' → SameKind e e') {tables : Tables} (hconv : Converted f g tables)
    {n : NodeId} (hn : g.Below n (tables.place head)) : g.tag? n ≠ some "style" := by
  have hc := (wellFormed_collectStylesheet hd options).forest
  have hf : f.WellFormed := hc.of_eq hedited.parent?_eq hedited.children_eq
  have htag : ∀ m, f.tag? m = d.forest.tag? m := by
    intro m
    rw [hedited.tag?_eq hR, Forest.tag?, element?_collectStylesheet, ← Forest.tag?]
  have hlt : head < f.size := lt_size_of_tag? ((htag head).trans (tag?_of_head? hhead))
  have hwalk := (Forest.mem_preorder_iff (hconv.wellFormed hf) (hconv.place_lt hlt)).2 hn
  rw [hconv.preorder_place hf hlt, List.mem_flatMap] at hwalk
  obtain ⟨k, hk, hstands⟩ := hwalk
  rcases Tables.mem_nodesFor.1 hstands with ⟨-, rfl⟩ | hpart
  · rw [Forest.tag?, hconv.element?_eq (Forest.lt_size_of_mem_preorder hf hlt hk), ← Forest.tag?,
      htag]
    intro hstyle
    have hbelow := (Forest.mem_preorder_iff hf hlt).1 hk
    have hup : ∀ a p, f.ChildOf a p → a ∉ takenOut d options ∧ d.forest.ChildOf a p := by
      intro a p hap
      rw [Forest.ChildOf, hedited.parent?_eq, collectStylesheet_eq] at hap
      exact (Forest.childOf_foldl_detach _).1 hap
    have hbelow' : d.forest.Below n head :=
      Relation.ReflTransGen.mono (fun a p hap => (hup a p hap).2) n head hbelow
    have hout := (mem_takenOut_iff hd options).2 ⟨hremove, head, hhead, hbelow', hstyle⟩
    rcases Relation.ReflTransGen.cases_head hbelow with rfl | ⟨p, hp, -⟩
    · rw [tag?_of_head? hhead] at hstyle
      exact absurd (Option.some.inj hstyle) (by decide)
    · exact (hup n p hp).1 hout
  · rcases hconv.tag?_of_partFor hpart with h | h | h <;> rw [h] <;> decide

/-! ### Whole runs -/

/-- What inlining keeps of a document. -/
structure ContentKept (d result : Document) (options : InlineOptions) (tables : Tables) : Prop where
  wellFormed : result.WellFormed
  /-- Texts, comments and instructions are the same nodes in the same order. -/
  characterData : result.characterData =
    d.characterData.filter fun x => x.1 ∉ removedNodes d options
  no_style : options.removeStyleElements = true → ∀ head, d.head? = some head →
    ∀ n, result.forest.Below n (tables.place head) → result.forest.tag? n ≠ some "style"
  sameKind : ∀ n, Remains d options tables n → ∃ e e', d.forest.element? n = some e ∧
    result.forest.element? n = some e' ∧ e'.ns = e.ns ∧ e'.name = e.name
  order : result.elements.filter (Remains d options tables) =
    d.elements.filter (Remains d options tables)
  nesting : ∀ a b, Remains d options tables a → Remains d options tables b →
    (result.forest.Below a b ↔ d.forest.Below a b)

section Passes

variable {d result : Document} {options : InlineOptions} {f : Forest}
  {R : NodeId → Element → Element → Prop} {tables : Tables} (hd : d.WellFormed)
  (hedited : Edited (collectStylesheet d options).1.forest f R)
  (hR : ∀ n e e', R n e e' → SameKind e e') (hconv : Converted f result.forest tables)
  (hkept : tables d.root = none) (hroot : result.root = d.root)

section Tree

include hd hedited

theorem wellFormed_of_edited : f.WellFormed :=
  (wellFormed_collectStylesheet hd options).forest.of_eq hedited.parent?_eq hedited.children_eq

theorem root_lt_size_of_edited : d.root < f.size := by
  rw [hedited.size_eq, ← root_collectStylesheet d options]
  exact (wellFormed_collectStylesheet hd options).root_lt_size

include hconv hkept hroot

theorem wellFormed_of_passes : result.WellFormed := by
  have hf := wellFormed_of_edited hd hedited
  have hlt := root_lt_size_of_edited hd hedited
  have hc := wellFormed_collectStylesheet hd options
  have hparent := hc.parent?_root
  have hcontent := hc.content?_root
  rw [root_collectStylesheet] at hparent hcontent
  have hnone : (collectStylesheet d options).1.forest.element? d.root = none := by
    rw [Forest.element?, hcontent]
    rfl
  refine ⟨hconv.wellFormed hf, ?_, ?_⟩
  · rw [hroot, ← Tables.place_of_none hkept, hconv.parent?_place hlt, hedited.parent?_eq, hparent]
    rfl
  · rw [hroot, hconv.content?_eq hlt, hedited.other _ hnone, hcontent]

/-- **Texts, comments and instructions stay in order,** those taken out aside. -/
theorem characterData_of_passes :
    result.characterData = d.characterData.filter fun x => x.1 ∉ removedNodes d options := by
  have hplace := Tables.place_of_none hkept
  calc result.characterData
      = (result.forest.preorder (tables.place d.root)).filterMap
          result.forest.characterData? := by rw [Document.characterData, hroot, hplace]
    _ = (f.preorder d.root).filterMap f.characterData? :=
        hconv.characterData_place (wellFormed_of_edited hd hedited)
          (root_lt_size_of_edited hd hedited)
    _ = (collectStylesheet d options).1.characterData := by
        rw [hedited.preorder_eq, Document.characterData, root_collectStylesheet]
        exact List.filterMap_congr fun n _ => hedited.characterData?_eq n
    _ = d.characterData.filter fun x => x.1 ∉ removedNodes d options :=
        characterData_collectStylesheet hd options

end Tree

section Elements

variable {n : NodeId} (hn : Remains d options tables n)

include hedited hn in
theorem lt_size_of_remains : n < f.size := by
  obtain ⟨e, he⟩ := Option.isSome_iff_exists.1 (List.mem_filter.1 hn.1).2
  rw [← element?_collectStylesheet d options] at he
  exact hedited.size_eq ▸ Forest.lt_size_of_element? he

include hedited hR hconv hn in
theorem sameKind_of_remains : ∃ e e', d.forest.element? n = some e ∧
    result.forest.element? n = some e' ∧ e'.ns = e.ns ∧ e'.name = e.name := by
  obtain ⟨e, he⟩ := Option.isSome_iff_exists.1 (List.mem_filter.1 hn.1).2
  obtain ⟨e', he', hedit⟩ :=
    hedited.element n e ((element?_collectStylesheet d options n).trans he)
  have hlt := lt_size_of_remains hedited hn
  exact ⟨e, e', he, (hconv.element?_eq hlt).trans he', hR n e e' hedit⟩

end Elements

include hd hedited hR hconv hkept hroot in
/-- **Elements that remain keep their order.** -/
theorem order_of_passes : result.elements.filter (Remains d options tables) =
    d.elements.filter (Remains d options tables) := by
  have hsome : ∀ n, decide (Remains d options tables n) = true →
      (result.forest.element? n).isSome ∧ (d.forest.element? n).isSome := by
    intro n hn
    obtain ⟨e, e', he, he', -⟩ := sameKind_of_remains hedited hR hconv (of_decide_eq_true hn)
    rw [he, he']
    exact ⟨rfl, rfl⟩
  have hplaced : ∀ n, decide (Remains d options tables n) = true →
      n < f.size ∧ tables n = none := fun n hn =>
    ⟨lt_size_of_remains hedited (of_decide_eq_true hn), (of_decide_eq_true hn).2.2⟩
  calc result.elements.filter (Remains d options tables)
      = (result.forest.preorder (tables.place d.root)).filter (Remains d options tables) := by
        rw [Document.elements, Forest.filter_elements fun n hn => (hsome n hn).1, hroot,
          Tables.place_of_none hkept]
    _ = (f.preorder d.root).filter (Remains d options tables) :=
        hconv.filter_preorder_place (wellFormed_of_edited hd hedited) hplaced
          (root_lt_size_of_edited hd hedited)
    _ = (d.forest.preorder d.root).filter (Remains d options tables) := by
        rw [hedited.preorder_eq, preorder_collectStylesheet hd, List.filter_filter]
        refine List.filter_congr fun n _ => ?_
        by_cases hn : Remains d options tables n
        · simp [hn, hn.2.1]
        · simp [hn]
    _ = d.elements.filter (Remains d options tables) :=
        (Forest.filter_elements (fun n hn => (hsome n hn).2) d.root).symm

include hd hedited hconv in
/-- **Of elements that remain, one is inside another just when it was.** -/
theorem below_iff_of_remains {a b : NodeId} (ha : Remains d options tables a)
    (hb : Remains d options tables b) : result.forest.Below a b ↔ d.forest.Below a b := by
  have hout : ∀ s ∈ takenOut d options, ¬ d.forest.Below a s := fun s hs has =>
    ha.2.1 ((mem_removedNodes_iff hd options).2 ⟨s, hs, has⟩)
  rw [hconv.below_iff (wellFormed_of_edited hd hedited) (lt_size_of_remains hedited ha)
      (lt_size_of_remains hedited hb) ha.2.2 hb.2.2,
    Forest.below_congr hedited.parent?_eq, ← Forest.below_foldl_detach_iff _ hout,
    collectStylesheet_eq]

end Passes

/-- **Inlining loses, repeats and moves no content.**  The nodes that are gone are those below the
`style` elements that were taken out, and the elements that were replaced. -/
theorem content_kept {order : List String → List String} {d result : Document}
    {options : InlineOptions} (hd : d.WellFormed)
    (hrun : inlineDocumentIn order d options = Run.done result) :
    let c := (collectStylesheet d options).1
    ∃ styled tables,
      applyStylesheet order (collectStylesheet d options).2 options.removeClassAttributes c =
        Run.done styled ∧
      ByMention styled.forest result.forest c.elements c.root tables ∧
      ContentKept d result options tables := by
  intro c
  obtain ⟨styled, tables, hstyled, hresult, hmention⟩ := exists_passes hd hrun
  refine ⟨styled, tables, hstyled, hmention, ?_⟩
  obtain ⟨rules, m, -, -, hedited⟩ := applyStylesheet_eq_done hstyled
  have hconv := hmention.converted
  have hR : ∀ n e e', editOf (passes (Dictionary.ofRules rules) { m with tags := order m.tags }
      (Index.ofDocument c) options.removeClassAttributes) n e = .ok e' → SameKind e e' :=
    fun _ _ _ => sameKind_of_passes
  have hsame := root_collectStylesheet d options
  have hroot : result.root = d.root := by rw [hresult, hsame]
  have hkept : tables d.root = none :=
    hsame ▸ hmention.root_kept (wellFormed_collectStylesheet hd options)
  exact
    { wellFormed := wellFormed_of_passes hd hedited hconv hkept hroot
      characterData := characterData_of_passes hd hedited hconv hkept hroot
      no_style := fun hremove _ hhead _ => not_style_of_below_head hd hremove hhead hedited hR hconv
      sameKind := fun _ => sameKind_of_remains hedited hR hconv
      order := order_of_passes hd hedited hR hconv hkept hroot
      nesting := fun _ _ => below_iff_of_remains hd hedited hconv }

theorem content_kept_nested :
    let d := Document.ofTrees
      [.node (.element ⟨.html, "head", []⟩)
        [.node (.element ⟨.html, "style", []⟩) [.node (.text "p\x7bx:y\x7d") []]],
      .node (.element ⟨.html, "p", [⟨"style", "-tableize:1"⟩]⟩)
        [.node (.comment "one") [],
          .node (.element ⟨.html, "b", [⟨"style", "x:-tableize"⟩]⟩) [.node (.text "two") []],
          .node (.text "three") []]] none true
    let result := (inlineDocumentIn id d {}).state
    d.WellFormed ∧ inlineDocumentIn id d {} = Run.done result ∧
      result.characterData = [(5, .comment "one"), (7, .text "two"), (8, .text "three")] ∧
      let c := (collectStylesheet d {}).1
      ∃ styled tables,
        applyStylesheet id (collectStylesheet d {}).2 true c = Run.done styled ∧
        ByMention styled.forest result.forest c.elements c.root tables ∧
        ContentKept d result {} tables := by
  intro d result
  have hd : d.WellFormed := ⟨Forest.wellFormed_of_forall (by decide), by decide, by decide⟩
  obtain ⟨hfault, hdata⟩ : (inlineDocumentIn id d {}).fault = none ∧ result.characterData =
      [(5, .comment "one"), (7, .text "two"), (8, .text "three")] := by
    decide +kernel
  have hrun : inlineDocumentIn id d {} = Run.done result := Run.eq_done_of_fault hfault
  exact ⟨hd, hrun, hdata, content_kept hd hrun⟩

end Inline

end StyleInliner
