/-
Collecting the stylesheet.

The stylesheet is collected from the `style` elements of the first head, and those
may be taken out of the tree, with all that is in them.  Nothing else is done to the
document (`collectStylesheet_eq`): the contents of all nodes stay, a well-formed
document stays well-formed, and the walk over it meets what it met before, without
the nodes that are gone (`preorder_collectStylesheet`).
-/
import StyleInliner.Inline.Stylesheet
import StyleInliner.Proofs.Dom.Preorder
import StyleInliner.Proofs.Text

namespace StyleInliner.Inline

open StyleInliner.Dom

/-- The `style` elements that the stylesheet is collected from. -/
def headStyles (d : Document) : List NodeId :=
  match d.head? with
  | none => []
  | some head => styleElements d.forest head

/-- The nodes that collecting the stylesheet takes out. -/
def takenOut (d : Document) (options : InlineOptions) : List NodeId :=
  if options.removeStyleElements then headStyles d else []

/-- Collecting the stylesheet takes nodes out and does nothing else to the document. -/
theorem collectStylesheet_eq (d : Document) (options : InlineOptions) :
    (collectStylesheet d options).1 =
      { d with forest := (takenOut d options).foldl Forest.detach d.forest } := by
  have hfold : ∀ (remove : Bool) (nodes : List NodeId) (read : Forest × String),
      (nodes.foldl (readStyleElement remove) read).1 =
        if remove then nodes.foldl Forest.detach read.1 else read.1 := by
    intro remove nodes
    induction nodes with
    | nil => intro read; cases remove <;> rfl
    | cons n nodes ih =>
        intro read
        rw [List.foldl_cons, ih]
        cases remove <;> rfl
  unfold collectStylesheet takenOut headStyles
  cases d.head? with
  | none => cases options.removeStyleElements <;> rfl
  | some head =>
      simp only [hfold]
      cases options.removeStyleElements <;> rfl

/-- Collecting the stylesheet keeps a document well-formed. -/
theorem wellFormed_collectStylesheet {d : Document} (hd : d.WellFormed) (options : InlineOptions) :
    (collectStylesheet d options).1.WellFormed := by
  rw [collectStylesheet_eq]
  refine ⟨Forest.WellFormed.foldl_detach _ hd.forest, ?_, ?_⟩
  · rw [← Option.not_isSome_iff_eq_none, Option.isSome_iff_exists]
    rintro ⟨p, hp⟩
    have hold := ((Forest.childOf_foldl_detach _).1 hp).2
    rw [Forest.ChildOf, hd.parent?_root] at hold
    cases hold
  · show ((takenOut d options).foldl Forest.detach d.forest).content? d.root = _
    rw [Forest.content?_foldl_detach]
    exact hd.content?_root

theorem root_collectStylesheet (d : Document) (options : InlineOptions) :
    (collectStylesheet d options).1.root = d.root := by
  rw [collectStylesheet_eq]

theorem content?_collectStylesheet (d : Document) (options : InlineOptions) (n : NodeId) :
    (collectStylesheet d options).1.forest.content? n = d.forest.content? n := by
  rw [collectStylesheet_eq]
  exact Forest.content?_foldl_detach _ d.forest n

/-- The elements of the document are those it had before. -/
theorem element?_collectStylesheet (d : Document) (options : InlineOptions) (n : NodeId) :
    (collectStylesheet d options).1.forest.element? n = d.forest.element? n := by
  rw [Forest.element?, content?_collectStylesheet]
  rfl

/-- The nodes that are taken out of a document when its stylesheet is collected. -/
def removedNodes (d : Document) (options : InlineOptions) : List NodeId :=
  (takenOut d options).flatMap d.forest.preorder

/-! ### What is taken out -/

theorem tag?_of_head? {d : Document} {head : NodeId} (h : d.head? = some head) :
    d.forest.tag? head = some "head" := by
  have hfound := List.find?_some h
  rw [Forest.hasTag_iff] at hfound
  rw [hfound]
  decide +kernel

theorem lt_size_of_tag? {f : Forest} {n : NodeId} {tag : String} (h : f.tag? n = some tag) :
    n < f.size := by
  obtain ⟨e, he, -⟩ := Option.map_eq_some_iff.1 h
  exact Forest.lt_size_of_element? he

section Collect

variable {d : Document} (hd : d.WellFormed) (options : InlineOptions)
include hd

theorem mem_takenOut_iff {n : NodeId} :
    n ∈ takenOut d options ↔ options.removeStyleElements = true ∧
      ∃ head, d.head? = some head ∧ d.forest.Below n head ∧ d.forest.tag? n = some "style" := by
  unfold takenOut headStyles
  cases options.removeStyleElements with
  | false => simp
  | true =>
      cases hhead : d.head? with
      | none => simp
      | some head =>
          have hlt := lt_size_of_tag? (tag?_of_head? hhead)
          have helement : d.forest.tag? n = some "style" → (d.forest.element? n).isSome := by
            intro htag
            obtain ⟨e, he, -⟩ := Option.map_eq_some_iff.1 htag
            rw [he]
            rfl
          simp only [if_true, styleElements, Forest.elements, List.mem_filter,
            Forest.mem_preorder_iff hd.forest hlt, beq_iff_eq, Option.some.injEq,
            exists_eq_left', true_and]
          tauto

theorem lt_size_of_mem_takenOut {s : NodeId} (hs : s ∈ takenOut d options) :
    s < d.forest.size := by
  obtain ⟨-, -, -, -, htag⟩ := (mem_takenOut_iff hd options).1 hs
  exact lt_size_of_tag? htag

theorem mem_removedNodes_iff {n : NodeId} :
    n ∈ removedNodes d options ↔ ∃ s ∈ takenOut d options, d.forest.Below n s := by
  rw [removedNodes, List.mem_flatMap]
  exact exists_congr fun s => and_congr_right fun hs =>
    Forest.mem_preorder_iff hd.forest (lt_size_of_mem_takenOut hd options hs)

/-- The document node is below none of the nodes that are taken out. -/
theorem root_not_mem_removedNodes : d.root ∉ removedNodes d options := by
  rw [mem_removedNodes_iff hd]
  rintro ⟨s, hs, hbelow⟩
  rcases Relation.ReflTransGen.cases_head hbelow with rfl | ⟨p, hp, -⟩
  · obtain ⟨-, -, -, -, htag⟩ := (mem_takenOut_iff hd options).1 hs
    rw [Forest.tag?, Forest.element?, hd.content?_root] at htag
    cases htag
  · rw [Forest.ChildOf, hd.parent?_root] at hp
    cases hp

theorem preorder_collectStylesheet :
    (collectStylesheet d options).1.forest.preorder d.root =
      (d.forest.preorder d.root).filter (· ∉ removedNodes d options) := by
  rw [collectStylesheet_eq]
  refine Forest.preorder_foldl_detach _ hd.forest
    (fun s hs => lt_size_of_mem_takenOut hd options hs) hd.root_lt_size fun s hs hbelow => ?_
  exact root_not_mem_removedNodes hd options ((mem_removedNodes_iff hd options).2 ⟨s, hs, hbelow⟩)

/-- The elements left are those that are not below a node that is taken out. -/
theorem elements_collectStylesheet :
    (collectStylesheet d options).1.elements =
      d.elements.filter (· ∉ removedNodes d options) := by
  rw [Document.elements, root_collectStylesheet, Forest.elements, preorder_collectStylesheet hd,
    Document.elements, Forest.elements, List.filter_filter, List.filter_filter]
  refine List.filter_congr fun n _ => ?_
  rw [element?_collectStylesheet, Bool.and_comm]

end Collect

end StyleInliner.Inline
