/-
An element that is turned into a table is replaced exactly.

`Replaced` compares the forest before with the forest after, node by node: the
table stands among the children of the parent where the element stood, the cell
holds what the element held, and every other node is as it was.  It is read off
`Installed`, and that no circle comes about off `Converted`.

`CellTable.MadeFor` tells what the table and its cell are.  The style of the cell
is a text that was put together, and what counts is what is read back from it.
-/
import StyleInliner.Proofs.Dom.Mutation
import StyleInliner.Proofs.Inline.ConvertedWalk

namespace StyleInliner.Inline

open StyleInliner.Css StyleInliner.Dom StyleInliner.Text

/-! ### The table and its cell -/

namespace CellTable

/-- An HTML table and an HTML cell for an element; if the element has one style at most, the cell
has what is left of it. -/
structure MadeFor (parts : CellTable) (e : Element) : Prop where
  table_ns : parts.table.ns = .html
  table_name : parts.table.name = "table"
  cell_ns : parts.cell.ns = .html
  cell_name : parts.cell.name = "td"
  no_cell_style : (e.attributes.filter (·.isNamed "style")).length ≤ 1 →
    ∀ ds, e.declarations = .ok ds → cellDeclarations ds = [] →
      parts.cell.attribute? "style" = none
  cell_style : (e.attributes.filter (·.isNamed "style")).length ≤ 1 →
    ∀ ds, e.declarations = .ok ds → cellDeclarations ds ≠ [] →
      ∃ style, parts.cell.attribute? "style" = some style ∧
        parseDeclarations style = .ok (cellDeclarations ds)

/-- With one style at most the cell has the texts of the declarations that are left. -/
theorem attribute?_cell_style {e : Element}
    (hone : (e.attributes.filter (·.isNamed "style")).length ≤ 1) {parts : CellTable}
    (hparts : ofAttributes e.attributes = .ok parts) {ds : List Declaration}
    (hds : e.declarations = .ok ds) :
    parts.cell.attribute? "style" = if cellDeclarations ds = [] then none
      else some (String.join ((cellDeclarations ds).map Declaration.text)) := by
  rcases style_cases hone with hplain | ⟨before, s, behind, hsplit, hbefore, hs, hbehind⟩
  · have hnone := Attributes.get?_eq_none_of_forall hplain
    have hcopied := Attributes.get?_eq_none_of_forall fun a ha => hplain a (List.mem_reverse.1 ha)
    rw [Element.declarations, Element.attribute?, hnone] at hds
    obtain rfl : [] = ds := Except.ok.inj hds
    rw [ofAttributes, foldlM_takeAttribute_of_plain hplain] at hparts
    obtain rfl := Except.ok.inj hparts
    rw [attribute?_copyAll, hcopied]
    rfl
  · have hstyle : e.attribute? "style" = some s.value := by
      rw [Element.attribute?, hsplit, Attributes.get?_append,
        Attributes.get?_eq_none_of_forall hbefore, Attributes.get?_cons,
        if_pos (Attribute.isNamed_iff.1 hs), Option.none_or]
    have hread : parseDeclarations s.value = .ok ds := by
      rw [Element.declarations, hstyle] at hds
      exact hds
    rw [hsplit] at hparts
    rw [attribute?_cell_eq hbefore hs hread hbehind hparts, cellValue_style,
      Attributes.get?_eq_none_of_forall fun a ha => hbehind a (List.mem_reverse.1 ha),
      Attributes.get?_eq_none_of_forall fun a ha => hbefore a (List.mem_reverse.1 ha),
      Option.none_or]

theorem madeFor_ofAttributes {e : Element} {parts : CellTable}
    (hparts : ofAttributes e.attributes = .ok parts) : parts.MadeFor e := by
  have hfit := fit_ofAttributes hparts
  obtain ⟨htable, hcell⟩ := rel_ofAttributes (R := fun e e' => e'.ns = e.ns) (fun _ => rfl)
    (fun h h' => h'.trans h) (fun _ _ _ _ => rfl) (fun _ _ _ => rfl) hparts
  refine ⟨htable, hfit.table_name, hcell, hfit.cell_name, ?_, ?_⟩
  · intro hone ds hds hnone
    rw [attribute?_cell_style hone hparts hds, if_pos hnone]
  · intro hone ds hds hsome
    exact ⟨_, by rw [attribute?_cell_style hone hparts hds, if_neg hsome],
      parseDeclarations_cellDeclarations (readable_of_parseDeclarations hds)⟩

end CellTable

/-! ### The place -/

/-- In the second forest a table stands where the node stood in the first, with the children of
the node in its cell; nothing else is different.  The three nodes of the table are new. -/
structure Replaced (f g : Forest) (n p : NodeId) (parts : CellTable) : Prop
    extends IsTableFor g f.size n parts where
  size_eq : g.size = f.size + 3
  content?_eq : ∀ m < f.size, g.content? m = f.content? m
  parent?_eq : ∀ m < f.size, m ≠ n → m ∉ f.children n → g.parent? m = f.parent? m
  children_eq : ∀ m < f.size, m ≠ n → m ≠ p → g.children m = f.children m
  place : ∃ before after,
    f.children p = before ++ n :: after ∧ g.children p = before ++ f.size :: after
  parent?_table : g.parent? f.size = some p
  children_cell : g.children (f.size + 2) = f.children n
  parent?_moved : ∀ c ∈ f.children n, g.parent? c = some (f.size + 2)
  wellFormed : g.WellFormed

section Install

variable {f : Forest} (hf : f.WellFormed) {n p : Nat} {e : Element} (he : f.element? n = some e)
  (hparent : f.parent? n = some p) {parts : CellTable}
  (hparts : CellTable.ofAttributes e.attributes = .ok parts)
include hf he hparent hparts

theorem replaced_installTable : Replaced f (installTable f n parts) n p parts := by
  have hmem : n ∈ f.children p := hf.mem_children_iff.2 hparent
  have hup : ∀ c ∈ f.children n, f.parent? c = some n := fun c hc => hf.mem_children_iff.1 hc
  have hloop : n ∉ f.children n := fun hc => hf.ne_parent (hup n hc) rfl
  have hn : n < f.size := Forest.lt_size_of_parent? hparent
  have hp : p < f.size := Forest.lt_size_of_mem_children hmem
  have hpn : p ≠ n := hf.ne_parent hparent
  have hi := installed_installTable hparent hmem hloop
    (fun c hc => Forest.lt_size_of_parent? (hup c hc)) parts
  exact
    { hi.isTableFor hn with
      size_eq := hi.size_eq
      content?_eq := fun m hm => hi.content?_of_lt hm
      parent?_eq := fun m hm => hi.parent?_of_lt hm
      children_eq := fun m hm => hi.children_of_lt hm
      place := by
        obtain ⟨before, after, hsplit, hput⟩ := Forest.exists_putInPlace_eq hmem f.size
        refine ⟨before, after, hsplit, ?_⟩
        rw [hi.children_eq, if_neg hpn, if_neg (by omega), if_neg (by omega), if_neg (by omega),
          if_pos rfl, hput]
      parent?_table := by rw [hi.parent?_eq, if_neg (by omega), if_pos rfl]
      children_cell := by
        rw [hi.children_eq, if_neg (by omega), if_neg (by omega), if_neg (by omega), if_pos rfl]
      parent?_moved := by
        intro (c : Nat) hc
        have hcn : c ≠ n := fun heq => hloop (heq ▸ hc)
        have hclt : c < f.size := Forest.lt_size_of_parent? (hup c hc)
        rw [hi.parent?_eq, if_neg hcn, if_neg (by omega), if_neg (by omega), if_neg (by omega),
          if_pos hc]
      wellFormed :=
        ((Converted.refl f).install hf rfl hparent hi he hparts).wellFormed hf }

end Install

/-- An element with a parent and readable styles is turned into a table in its place. -/
theorem exists_replaced {f : Forest} (hf : f.WellFormed) {n p : NodeId} {e : Element}
    (he : f.element? n = some e) (hparent : f.parent? n = some p)
    (hreadable : ∀ a ∈ e.attributes, a.isNamed "style" → ∃ ds, parseDeclarations a.value = .ok ds) :
    ∃ g parts, convertToTable f n = .ok (g, true) ∧ Replaced f g n p parts ∧
      CellTable.ofAttributes e.attributes = .ok parts := by
  obtain ⟨parts, hparts⟩ := CellTable.exists_ofAttributes_iff.2 hreadable
  refine ⟨installTable f n parts, parts, ?_, replaced_installTable hf he hparent hparts, hparts⟩
  rw [convertToTable, he, hparent]
  dsimp only
  rw [hparts]
  rfl

/-- **An element that has a parent is replaced by a table that holds its children, and nothing else
in the tree is changed,** if each of its styles can be read.  The element keeps its attributes.
Without a parent everything stays as it is. -/
theorem convertToTable_replaces {f : Forest} (hf : f.WellFormed) {n : NodeId} {e : Element}
    (he : f.element? n = some e) :
    (∀ p, f.parent? n = some p →
      (∀ a ∈ e.attributes, a.isNamed "style" → ∃ ds, parseDeclarations a.value = .ok ds) →
        ∃ g parts, convertToTable f n = .ok (g, true) ∧ Replaced f g n p parts ∧
          g.element? n = some e ∧ parts.MadeFor e) ∧
      (f.parent? n = none → convertToTable f n = .ok (f, false)) := by
  constructor
  · intro p hparent hreadable
    obtain ⟨g, parts, hrun, hreplaced, hparts⟩ := exists_replaced hf he hparent hreadable
    refine ⟨g, parts, hrun, hreplaced, ?_, CellTable.madeFor_ofAttributes hparts⟩
    rw [Forest.element?, hreplaced.content?_eq n (Forest.lt_size_of_parent? hparent)]
    exact he
  · intro hnone
    rw [convertToTable, he, hnone]

/-- A cell with children, between siblings, and the body above it, which has no parent. -/
theorem convertToTable_replaces_between_siblings :
    let e : Element := ⟨.html, "td", [⟨"id", "a"⟩, ⟨"style", "width:9em;color:red;-tableize:1"⟩]⟩
    let f : Forest := ⟨#[⟨none, [1, 2, 5], .element ⟨.html, "body", []⟩⟩,
      ⟨some 0, [], .text "before"⟩, ⟨some 0, [3, 4], .element e⟩, ⟨some 2, [], .text "x"⟩,
      ⟨some 2, [], .element ⟨.html, "b", []⟩⟩, ⟨some 0, [], .text "after"⟩]⟩
    f.WellFormed ∧ f.element? 2 = some e ∧
      (∃ g parts, convertToTable f 2 = .ok (g, true) ∧ Replaced f g 2 0 parts ∧
        g.element? 2 = some e ∧ parts.MadeFor e ∧ g.children 0 = [1, 6, 5] ∧
        g.children 8 = [3, 4] ∧ ∃ style, parts.cell.attribute? "style" = some style ∧
          parseDeclarations style = .ok [⟨"color", "red"⟩]) ∧
      convertToTable f 0 = .ok (f, false) := by
  intro e f
  have hf : f.WellFormed := Forest.wellFormed_of_forall (by decide)
  have he : f.element? 2 = some e := by decide +kernel
  have hbody : f.element? 0 = some ⟨.html, "body", []⟩ := by decide +kernel
  have hparent : f.parent? 2 = some 0 := by decide +kernel
  let ds : List Declaration := [⟨"width", "9em"⟩, ⟨"color", "red"⟩, ⟨"-tableize", "1"⟩]
  have hds : e.declarations = .ok ds := by decide +kernel
  have hleft : cellDeclarations ds = [⟨"color", "red"⟩] := by decide +kernel
  have hread : ∀ a ∈ e.attributes, a.isNamed "style" → parseDeclarations a.value = .ok ds := by
    decide +kernel
  obtain ⟨g, parts, hrun, hreplaced, hkept, hmade⟩ :=
    (convertToTable_replaces hf he).1 0 hparent
      fun a ha hstyle => ⟨ds, hread a ha hstyle⟩
  refine ⟨hf, he, ⟨g, parts, hrun, hreplaced, hkept, hmade, ?_, hreplaced.children_cell, ?_⟩,
    (convertToTable_replaces hf hbody).2 (by decide +kernel)⟩
  · obtain ⟨before, after, hsplit, hput⟩ := hreplaced.place
    have hsplit : [1, 2, 5] = before ++ 2 :: after := hsplit
    rcases before with - | ⟨a, - | ⟨b, - | ⟨c, before⟩⟩⟩ <;> simp at hsplit
    rw [hput, hsplit.1, hsplit.2]
    rfl
  · rw [← hleft]
    exact hmade.cell_style (by decide +kernel) ds hds (by rw [hleft]; simp)

end StyleInliner.Inline
