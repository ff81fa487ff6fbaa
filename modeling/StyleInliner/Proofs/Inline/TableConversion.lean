/-
The table that an element is turned into, and its place in the tree.

`CellTable.Fit` is what can be said of the parts for any element: they are a table
and a cell, the table has no style, and the style of the cell declares no directive.
The last holds although the style is a text that was put together, since what is read
back from it are the declarations it was put together from.

`Installed` tells what putting the table in place does to each node of the
forest; it is read off the operations one after the other.
-/
import StyleInliner.Inline.TableConversion
import StyleInliner.Proofs.Dom.Forest
import StyleInliner.Proofs.Inline.Distribution

namespace StyleInliner

open StyleInliner.Css StyleInliner.Dom StyleInliner.Text

/-- The style can be read, and declares the property. -/
def Dom.Element.Declares (e : Element) (property : String) : Prop :=
  ∃ ds, e.declarations = .ok ds ∧ ∃ d ∈ ds, d.property = property

namespace Inline

/-! ### The parts -/

namespace CellTable

/-- A table without a style, and a cell whose style declares no directive. -/
structure Fit (parts : CellTable) : Prop where
  table_name : parts.table.name = "table"
  cell_name : parts.cell.name = "td"
  table_style : parts.table.attribute? "style" = none
  cell_style : ¬ parts.cell.Declares tableDirective

theorem not_declares_of_none {e : Element} (h : e.attribute? "style" = none) (property : String) :
    ¬ e.Declares property := by
  rintro ⟨ds, hds, d, hd, -⟩
  rw [Element.declarations, h] at hds
  obtain rfl : [] = ds := Except.ok.inj hds
  cases hd

theorem declares_congr {e e' : Element} (h : e'.attribute? "style" = e.attribute? "style")
    (property : String) : e'.Declares property ↔ e.Declares property := by
  rw [Element.Declares, Element.Declares, Element.declarations_congr h]

/-- Taking over a style leaves the table without one, and the cell without the directive. -/
theorem takeStyle_spec {parts parts' : CellTable} {style : String}
    (h : parts.takeStyle style = .ok parts') :
    parts'.table.attribute? "style" = parts.table.attribute? "style" ∧
      (parts'.cell.Declares tableDirective → parts.cell.Declares tableDirective) := by
  rw [takeStyle_eq] at h
  obtain ⟨ds, hread, rfl⟩ := map_eq_ok_iff.1 h
  refine ⟨attribute?_foldl_dressTable_of_ne (by decide +kernel) (by decide +kernel) ds _, ?_⟩
  rintro ⟨found, hfound, d, hd, hdirective⟩
  rw [declarations_styledCell (readable_of_parseDeclarations hread)] at hfound
  split at hfound
  · exact ⟨found, hfound, d, hd, hdirective⟩
  · obtain rfl := Except.ok.inj hfound
    -- the directive is not among what is left for the cell
    have hleft := (List.mem_filter.1 hd).2
    simp [hdirective, distributedProperties] at hleft

theorem takeAttribute_spec {parts parts' : CellTable} {a : Attribute}
    (h : parts.takeAttribute a = .ok parts') :
    parts'.table.attribute? "style" = parts.table.attribute? "style" ∧
      (parts'.cell.Declares tableDirective → parts.cell.Declares tableDirective) := by
  unfold takeAttribute at h
  split at h
  · exact takeStyle_spec h
  · rename_i hname
    obtain rfl := Except.ok.inj h
    have hstyle := parts.cell.attribute?_setAttribute_of_ne
      (fun he => hname (Attribute.isNamed_iff.2 he)) a.value
    exact ⟨rfl, (declares_congr hstyle _).1⟩

/-- **The parts for an element are a table and a cell, and the cell declares no directive.** -/
theorem fit_ofAttributes {attributes : List Attribute} {parts : CellTable}
    (h : ofAttributes attributes = .ok parts) : parts.Fit := by
  obtain ⟨htable, hcell⟩ := rel_ofAttributes (R := fun e e' => e'.name = e.name) (fun _ => rfl)
    (fun h h' => h'.trans h) (fun _ _ _ _ => rfl) (fun _ _ _ => rfl) h
  obtain ⟨hstyle, hdirective⟩ := rel_of_foldlM (R := fun x y : CellTable =>
    y.table.attribute? "style" = x.table.attribute? "style" ∧
      (y.cell.Declares tableDirective → x.cell.Declares tableDirective))
    (fun _ => ⟨rfl, id⟩) (fun h h' => ⟨h'.1.trans h.1, h.2 ∘ h'.2⟩)
    (fun _ _ _ _ => takeAttribute_spec) h
  exact
    { table_name := htable.trans (by decide +kernel)
      cell_name := hcell.trans (by decide +kernel)
      table_style := hstyle.trans (by decide +kernel)
      cell_style := fun hd =>
        not_declares_of_none (e := bare.cell) (by decide +kernel) _ (hdirective hd) }

/-! ### Attributes that are not made from the style -/

section Other

variable {name : String} (hname : ∀ given ∈ givenNames, lower given ≠ lower name)
include hname

theorem attribute?_takeStyle {parts parts' : CellTable} {style : String}
    (h : parts.takeStyle style = .ok parts') :
    parts'.table.attribute? name = parts.table.attribute? name ∧
      parts'.cell.attribute? name = parts.cell.attribute? name := by
  rw [takeStyle_eq] at h
  obtain ⟨ds, -, rfl⟩ := map_eq_ok_iff.1 h
  constructor
  · exact attribute?_foldl_dressTable_of_ne (hname "width" (by simp [givenNames]))
      (hname "cellpadding" (by simp [givenNames])) ds _
  · exact (attribute?_styledCell ds _ name).trans (cellValue_of_other hname ds _)

/-- **What is not made from the style the cell has from the element, and the table not at all.** -/
theorem attribute?_ofAttributes {attributes : List Attribute} {parts : CellTable}
    (h : ofAttributes attributes = .ok parts) :
    parts.table.attribute? name = none ∧
      (parts.cell.attribute? name = none ∨
        ∃ a ∈ attributes, lower a.name = lower name ∧
          parts.cell.attribute? name = some a.value) := by
  have hbare : bare.table.attribute? name = none := by
    rw [bare, Element.attribute?_setAttribute_of_ne (hname "border" (by simp [givenNames])),
      Element.attribute?_setAttribute_of_ne (hname "cellspacing" (by simp [givenNames]))]
    rfl
  refine And.imp_left (fun htable => htable.trans hbare) (rel_of_foldlM (R := fun x y : CellTable =>
    y.table.attribute? name = x.table.attribute? name ∧
      (y.cell.attribute? name = x.cell.attribute? name ∨
        ∃ a ∈ attributes, lower a.name = lower name ∧ y.cell.attribute? name = some a.value))
    (fun _ => ⟨rfl, Or.inl rfl⟩) ?_ ?_ h)
  · rintro x y z ⟨htable, hcell⟩ ⟨htable', hcell'⟩
    refine ⟨htable'.trans htable, ?_⟩
    rcases hcell' with hsame | hfrom
    · rw [hsame]
      exact hcell
    · exact Or.inr hfrom
  · intro a ha x y htake
    unfold takeAttribute at htake
    split at htake
    · obtain ⟨htable, hcell⟩ := attribute?_takeStyle hname htake
      exact ⟨htable, Or.inl hcell⟩
    · obtain rfl := Except.ok.inj htake
      refine ⟨rfl, ?_⟩
      by_cases hsame : lower a.name = lower name
      · exact Or.inr ⟨a, ha, hsame, by rw [Element.attribute?_setAttribute, if_pos hsame]⟩
      · exact Or.inl (Element.attribute?_setAttribute_of_ne hsame x.cell a.value)

/-- With one attribute for each name, the cell has what the element has. -/
theorem attribute?_cell {e : Element} (he : Attributes.Distinct e.attributes) {parts : CellTable}
    (h : ofAttributes e.attributes = .ok parts) {value : String}
    (hcell : parts.cell.attribute? name = some value) : e.attribute? name = some value := by
  rcases (attribute?_ofAttributes hname h).2 with hnone | ⟨a, ha, hsame, hvalue⟩
  · rw [hnone] at hcell
    cases hcell
  · rw [hvalue] at hcell
    exact (Attributes.get?_eq_some_of_mem he ha hsame).trans hcell

end Other

end CellTable

/-! ### Its place in the tree -/

/-- A forest with a table, a row and a cell added. -/
def withNodes (f : Forest) (parts : CellTable) : Forest :=
  ((f.add (.element parts.table)).add (.element (Element.ofTag "tr"))).add (.element parts.cell)

/-- A forest with a table, its row and its cell added as a tree of their own. -/
def withTable (f : Forest) (parts : CellTable) : Forest :=
  ((withNodes f parts).appendChild f.size (f.size + 1)).appendChild (f.size + 1) (f.size + 2)

section WithTable

variable (f : Forest) (parts : CellTable)

theorem size_withNodes : (withNodes f parts).size = f.size + 3 := by
  simp [withNodes]

theorem size_withTable : (withTable f parts).size = f.size + 3 := by
  simp [withTable, size_withNodes]

theorem parent?_withNodes (m : NodeId) : (withNodes f parts).parent? m = f.parent? m := by
  simp [withNodes]

theorem children_withNodes (m : NodeId) : (withNodes f parts).children m = f.children m := by
  simp [withNodes]

theorem parent?_row : (withNodes f parts).parent? (f.size + 1) = none := by
  rw [parent?_withNodes]
  exact Forest.parent?_eq_none (by omega)

theorem parent?_cell :
    ((withNodes f parts).appendChild f.size (f.size + 1)).parent? (f.size + 2) = none := by
  rw [Forest.parent?_appendChild (parent?_row f parts), if_neg (by simp), parent?_withNodes]
  exact Forest.parent?_eq_none (by omega)

theorem parent?_withTable (m : NodeId) :
    (withTable f parts).parent? m =
      if m = f.size + 1 then some f.size
      else if m = f.size + 2 then some (f.size + 1)
      else f.parent? m := by
  rw [withTable, Forest.parent?_appendChild (parent?_cell f parts),
    Forest.parent?_appendChild (parent?_row f parts), Forest.size_appendChild, size_withNodes,
    parent?_withNodes]
  by_cases hrow : m = f.size + 1
  · subst hrow
    simp
  · by_cases hcell : m = f.size + 2
    · subst hcell
      simp
    · simp [hrow, hcell, Ne.symm hrow, Ne.symm hcell]

theorem children_withTable (m : NodeId) :
    (withTable f parts).children m =
      if m = f.size then [f.size + 1]
      else if m = f.size + 1 then [f.size + 2]
      else f.children m := by
  have hfresh : ∀ m, f.size ≤ m → f.children m = [] := fun m hm => Forest.children_eq_nil hm
  rw [withTable, Forest.children_appendChild (parent?_cell f parts),
    Forest.children_appendChild (parent?_row f parts), Forest.size_appendChild, size_withNodes,
    children_withNodes]
  by_cases htable : m = f.size
  · subst htable
    simp [hfresh]
  · by_cases hrow : m = f.size + 1
    · subst hrow
      simp [hfresh]
    · simp [htable, hrow, Ne.symm htable, Ne.symm hrow]

theorem content?_withTable (m : NodeId) :
    (withTable f parts).content? m =
      if m = f.size then some (.element parts.table)
      else if m = f.size + 1 then some (.element (Element.ofTag "tr"))
      else if m = f.size + 2 then some (.element parts.cell)
      else f.content? m := by
  simp only [withTable, withNodes, Forest.content?_appendChild, Forest.content?_add,
    Forest.size_add]
  by_cases htable : m = f.size
  · subst htable
    simp [show f.size ≠ f.size + 1 + 1 by omega]
  · by_cases hrow : m = f.size + 1
    · subst hrow
      simp
    · simp [htable, hrow]

end WithTable

/-- What putting a table in the place of a node does to every node.  The table, its row and its
cell are the three nodes behind the last one there was. -/
structure Installed (f g : Forest) (n p : Nat) (parts : CellTable) : Prop where
  size_eq : g.size = f.size + 3
  parent?_eq : ∀ m : Nat, g.parent? m =
    if m = n then none
    else if m = f.size then some p
    else if m = f.size + 1 then some f.size
    else if m = f.size + 2 then some (f.size + 1)
    else if m ∈ f.children n then some (f.size + 2)
    else f.parent? m
  children_eq : ∀ m : Nat, g.children m =
    if m = n then []
    else if m = f.size then [f.size + 1]
    else if m = f.size + 1 then [f.size + 2]
    else if m = f.size + 2 then f.children n
    else if m = p then Forest.putInPlace n f.size (f.children p)
    else f.children m
  content?_eq : ∀ m : Nat, g.content? m =
    if m = f.size then some (.element parts.table)
    else if m = f.size + 1 then some (.element (Element.ofTag "tr"))
    else if m = f.size + 2 then some (.element parts.cell)
    else f.content? m

/-- The node is a table with a row and a cell, made for another node that has been taken out. -/
structure IsTableFor (g : Forest) (t n : Nat) (parts : CellTable) : Prop where
  parent?_old : g.parent? n = none
  children_old : g.children n = []
  parent?_row : g.parent? (t + 1) = some t
  parent?_cell : g.parent? (t + 2) = some (t + 1)
  children_table : g.children t = [t + 1]
  children_row : g.children (t + 1) = [t + 2]
  content?_table : g.content? t = some (.element parts.table)
  content?_row : g.content? (t + 1) = some (.element (Element.ofTag "tr"))
  content?_cell : g.content? (t + 2) = some (.element parts.cell)

namespace Installed

variable {f g : Forest} {n p m : Nat} {parts : CellTable} (h : Installed f g n p parts)
include h

theorem isTableFor (hn : n < f.size) : IsTableFor g f.size n parts := by
  have hrow : f.size + 1 ≠ n := by omega
  have hcell : f.size + 2 ≠ n := by omega
  exact
    { parent?_old := by simp [h.parent?_eq]
      children_old := by simp [h.children_eq]
      parent?_row := by simp [h.parent?_eq, hrow]
      parent?_cell := by simp [h.parent?_eq, hcell]
      children_table := by simp [h.children_eq, Nat.ne_of_gt hn]
      children_row := by simp [h.children_eq, hrow]
      content?_table := by simp [h.content?_eq]
      content?_row := by simp [h.content?_eq]
      content?_cell := by simp [h.content?_eq] }

theorem parent?_of_lt (hm : m < f.size) (hmn : m ≠ n) (hmoved : m ∉ f.children n) :
    g.parent? m = f.parent? m := by
  rw [h.parent?_eq, if_neg hmn, if_neg (by omega), if_neg (by omega), if_neg (by omega),
    if_neg hmoved]

theorem children_of_lt (hm : m < f.size) (hmn : m ≠ n) (hmp : m ≠ p) :
    g.children m = f.children m := by
  rw [h.children_eq, if_neg hmn, if_neg (by omega), if_neg (by omega), if_neg (by omega),
    if_neg hmp]

theorem content?_of_lt (hm : m < f.size) : g.content? m = f.content? m := by
  rw [h.content?_eq, if_neg (by omega), if_neg (by omega), if_neg (by omega)]

end Installed

section MoveInto

variable {f : Forest} {n : Nat} (hn : n < f.size) (parts : CellTable)
include hn

theorem children_withTable_of_lt : (withTable f parts).children n = f.children n := by
  have hrow : n ≠ f.size + 1 := by omega
  rw [children_withTable, if_neg (Nat.ne_of_lt hn), if_neg hrow]

theorem parent?_moveChildren_withTable (hchildren : ∀ m : Nat, m ∈ f.children n → m < f.size)
    (m : Nat) :
    ((withTable f parts).moveChildren n (f.size + 2)).parent? m =
      if m = f.size + 1 then some f.size
      else if m = f.size + 2 then some (f.size + 1)
      else if m ∈ f.children n then some (f.size + 2)
      else f.parent? m := by
  rw [Forest.parent?_moveChildren, children_withTable_of_lt hn, size_withTable, parent?_withTable]
  by_cases hm : m ∈ f.children n
  · have hlt := hchildren m hm
    have hrow : m ≠ f.size + 1 := by omega
    have hcell : m ≠ f.size + 2 := by omega
    simp [hm, hrow, hcell, Nat.lt_add_right 3 hlt]
  · simp [hm]

theorem children_moveChildren_withTable (m : Nat) :
    ((withTable f parts).moveChildren n (f.size + 2)).children m =
      if m = n then []
      else if m = f.size then [f.size + 1]
      else if m = f.size + 1 then [f.size + 2]
      else if m = f.size + 2 then f.children n
      else f.children m := by
  have hne : n ≠ f.size + 2 := by omega
  rw [Forest.children_moveChildren _ _ _ hne, children_withTable_of_lt hn, size_withTable,
    children_withTable]
  by_cases hcell : m = f.size + 2
  · subst hcell
    simp [Forest.children_eq_nil]
  · simp [hcell]

end MoveInto

theorem installed_installTable {f : Forest} {n p : Nat} (hparent : f.parent? n = some p)
    (hmem : n ∈ f.children p) (hloop : n ∉ f.children n)
    (hchildren : ∀ m : Nat, m ∈ f.children n → m < f.size) (parts : CellTable) :
    Installed f (installTable f n parts) n p parts := by
  have hn : n < f.size := Forest.lt_size_of_parent? hparent
  have hp : p < f.size := Forest.lt_size_of_mem_children hmem
  have hne : p ≠ n := fun he => hloop (he ▸ hmem)
  have hfresh : f.size ∉ f.children n := fun hc => Nat.lt_irrefl _ (hchildren _ hc)
  have hparentOf := parent?_moveChildren_withTable hn parts hchildren
  have hchildrenOf := children_moveChildren_withTable hn parts
  -- the children of the node are in the cell, and the table is in no tree yet
  have hold : ((withTable f parts).moveChildren n (f.size + 2)).parent? n = some p := by
    have hrow : n ≠ f.size + 1 := by omega
    have hcell : n ≠ f.size + 2 := by omega
    rw [hparentOf, if_neg hrow, if_neg hcell, if_neg hloop, hparent]
  have hplace : n ∈ ((withTable f parts).moveChildren n (f.size + 2)).children p := by
    have hrow : p ≠ f.size + 1 := by omega
    have hcell : p ≠ f.size + 2 := by omega
    rw [hchildrenOf, if_neg hne, if_neg (Nat.ne_of_lt hp), if_neg hrow, if_neg hcell]
    exact hmem
  have hnew : ((withTable f parts).moveChildren n (f.size + 2)).parent? f.size = none := by
    rw [hparentOf, if_neg (by omega), if_neg (by omega), if_neg hfresh]
    exact Forest.parent?_eq_none (Nat.le_refl _)
  rw [show installTable f n parts =
    (((withTable f parts).moveChildren n (f.size + 2)).replace n f.size).1 from rfl]
  constructor
  · rw [Forest.size_replace hold hplace hnew, Forest.size_moveChildren, size_withTable]
  · intro m
    rw [Forest.parent?_replace hold hplace hnew, Forest.size_moveChildren, size_withTable,
      hparentOf]
    by_cases htable : m = f.size
    · subst htable
      simp [eq_comm]
    · simp [htable, Ne.symm htable, eq_comm]
  · intro m
    rw [Forest.children_replace hold hplace hnew, hchildrenOf]
    by_cases hm : m = p
    · subst hm
      have hrow : m ≠ f.size + 1 := by omega
      have hcell : m ≠ f.size + 2 := by omega
      simp [hne, Nat.ne_of_lt hp, hrow, hcell]
    · simp [hm, Ne.symm hm]
  · intro m
    rw [Forest.content?_replace hold hplace hnew, Forest.content?_moveChildren, content?_withTable]

end Inline

end StyleInliner
