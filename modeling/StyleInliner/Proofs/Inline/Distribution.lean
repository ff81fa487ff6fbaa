/-
How the style of an element is distributed over a table and its cell.

The table is given things by the width and the padding only (`dressTable`), whatever
else is on the element; the cell also takes over the attributes of the element, before
the style and behind it.  So the table is told by the declarations of the style, and
what the cell has under a name by three things: what the style gives for that name
(`cellValue`), what stood there before it, and what comes behind it
(`attribute?_cell_eq`).
-/
import StyleInliner.Inline.TableConversion
import StyleInliner.Proofs.Inline.Effect

namespace StyleInliner.Inline

open StyleInliner.Css StyleInliner.Dom StyleInliner.Text

/-! ### Where a declaration goes -/

/-- The attribute that a property is given to the cell as, unless there is one already. -/
def cellAttribute? (property : String) : Option String :=
  if property = "text-align" then some "align"
  else if property = "vertical-align" then some "valign"
  else if property = "background-color" then some "bgcolor"
  else none

/-- The attributes that properties are given to the cell as. -/
def filledNames : List String :=
  ["align", "valign", "bgcolor"]

/-- The properties that do not stay in the style. -/
def distributedProperties : List String :=
  [tableDirective, "width", "padding", "text-align", "vertical-align", "background-color"]

/-- The declarations that are left for the style of the cell. -/
def cellDeclarations (ds : List Declaration) : List Declaration :=
  ds.filter (·.property ∉ distributedProperties)

/-- The attributes that declarations give to the cell unless it has them, with the values. -/
def cellWrites (ds : List Declaration) : List (String × String) :=
  ds.filterMap fun d => (cellAttribute? d.property).map fun name => (name, d.value)

/-- What a declaration gives to the table. -/
def dressTable (table : Element) (d : Declaration) : Element :=
  if d.property = "width" then table.setAttribute "width" d.value
  else if d.property = "padding" then
    table.setAttribute "cellpadding" (String.ofList (d.value.toList.filter Char.isDigit))
  else table

/-- What a declaration gives to the cell as an attribute. -/
def dressCell (cell : Element) (d : Declaration) : Element :=
  if d.property = "width" then cell.setAttribute "width" "100%"
  else
    match cellAttribute? d.property with
    | some name => cell.fillAttribute name d.value
    | none => cell

/-- A cell with the declarations of a style given to it. -/
def styledCell (ds : List Declaration) (cell : Element) : Element :=
  if cellDeclarations ds = [] then ds.foldl dressCell cell
  else (ds.foldl dressCell cell).setAttribute "style"
    (String.join ((cellDeclarations ds).map Declaration.text))

/-- An element with attributes given to it one after the other. -/
def copyAll (e : Element) (attributes : List Attribute) : Element :=
  attributes.foldl (fun e a => e.setAttribute a.name a.value) e

namespace CellTable

theorem distribute_eq (parts : CellTable) (style : String) (d : Declaration) :
    distribute (parts, style) d =
      (⟨dressTable parts.table d, dressCell parts.cell d⟩,
        if d.property ∈ distributedProperties then style else style ++ d.text) := by
  have hdirective : tableDirective = "-tableize" := rfl
  unfold distribute dressTable dressCell cellAttribute? distributedProperties
  rw [hdirective]
  dsimp only
  split_ifs <;> simp_all

theorem foldl_distribute (ds : List Declaration) (parts : CellTable) (style : String) :
    ds.foldl distribute (parts, style) =
      (⟨ds.foldl dressTable parts.table, ds.foldl dressCell parts.cell⟩,
        style ++ String.join ((cellDeclarations ds).map Declaration.text)) := by
  induction ds generalizing parts style with
  | nil => simp [cellDeclarations]
  | cons d ds ih =>
      rw [List.foldl_cons, distribute_eq, ih]
      by_cases hd : d.property ∈ distributedProperties
      · simp [cellDeclarations, hd]
      · simp [cellDeclarations, hd, String.append_assoc]

/-- **The declarations of a style are given to the table and to the cell,** if they can be read. -/
theorem takeStyle_eq (parts : CellTable) (style : String) :
    parts.takeStyle style = (parseDeclarations style).map fun ds =>
      ⟨ds.foldl dressTable parts.table, styledCell ds parts.cell⟩ := by
  unfold takeStyle
  cases parseDeclarations style with
  | error fault => rfl
  | ok ds =>
      have hempty : (String.join ((cellDeclarations ds).map Declaration.text)).isEmpty = true ↔
          cellDeclarations ds = [] := by
        cases cellDeclarations ds with
        | nil => simp
        | cons d rest => simp [Declaration.text]
      show (if _ then _ else _) = _
      simp only [foldl_distribute, String.empty_append, hempty, styledCell, Except.map]
      split <;> rfl

/-! ### What is found under a name -/

/-- What a cell has under a name when the declarations of a style have been given to it, by what it
had there before. -/
def cellValue (ds : List Declaration) (name : String) (old : Option String) : Option String :=
  if lower name = "style" ∧ cellDeclarations ds ≠ [] then
    some (String.join ((cellDeclarations ds).map Declaration.text))
  else if lower name = "width" ∧ ∃ d ∈ ds, d.property = "width" then some "100%"
  else settled old (valuesFor name (cellWrites ds))

theorem cellValue_congr {name other : String} (h : lower name = lower other)
    (ds : List Declaration) (old : Option String) :
    cellValue ds name old = cellValue ds other old := by
  simp only [cellValue, valuesFor, h]

theorem attribute?_foldl_dressCell (ds : List Declaration) (cell : Element) (name : String) :
    (ds.foldl dressCell cell).attribute? name =
      if lower name = "width" ∧ ∃ d ∈ ds, d.property = "width" then some "100%"
      else settled (cell.attribute? name) (valuesFor name (cellWrites ds)) := by
  have hlower : lower "width" = "width" := by decide +kernel
  induction ds generalizing cell with
  | nil => simp [cellWrites, valuesFor]
  | cons d ds ih =>
      rw [List.foldl_cons, ih, dressCell]
      by_cases hwidth : d.property = "width"
      · have hwrites : cellWrites (d :: ds) = cellWrites ds := by
          simp [cellWrites, cellAttribute?, hwidth]
        rw [if_pos hwidth, hwrites, Element.attribute?_setAttribute, hlower]
        by_cases hname : lower name = "width"
        · simp [hname, hwidth, settled]
        · simp [hname, Ne.symm hname]
      · have hdeclares : (∃ x ∈ d :: ds, x.property = "width") ↔ ∃ x ∈ ds, x.property = "width" := by
          simp [hwidth]
        rw [if_neg hwidth]
        simp only [hdeclares]
        cases hwritten : cellAttribute? d.property with
        | none =>
            have hwrites : cellWrites (d :: ds) = cellWrites ds := by
              simp [cellWrites, hwritten]
            rw [hwrites]
        | some written =>
            have hwrites : cellWrites (d :: ds) = (written, d.value) :: cellWrites ds := by
              simp [cellWrites, hwritten]
            dsimp only
            rw [hwrites, valuesFor_cons]
            by_cases hname : lower written = lower name
            · rw [if_pos hname, settled_cons, Element.attribute?_fillAttribute_of_eq hname]
            · rw [if_neg hname, Element.attribute?_fillAttribute_of_ne hname]

theorem attribute?_styledCell (ds : List Declaration) (cell : Element) (name : String) :
    (styledCell ds cell).attribute? name = cellValue ds name (cell.attribute? name) := by
  have hlower : lower "style" = "style" := by decide +kernel
  unfold styledCell cellValue
  by_cases hkept : cellDeclarations ds = []
  · rw [if_pos hkept, if_neg fun h => h.2 hkept, attribute?_foldl_dressCell]
  · rw [if_neg hkept, Element.attribute?_setAttribute, hlower, attribute?_foldl_dressCell]
    by_cases hname : lower name = "style"
    · rw [if_pos hname.symm, if_pos ⟨hname, hkept⟩]
    · rw [if_neg (Ne.symm hname)]
      simp only [hname, false_and, if_false]

/-- Of attributes that are copied the last one of a name counts. -/
theorem attribute?_copyAll (attributes : List Attribute) (e : Element) (name : String) :
    (copyAll e attributes).attribute? name =
      (Attributes.get? attributes.reverse name).or (e.attribute? name) := by
  induction attributes generalizing e with
  | nil => rfl
  | cons a rest ih =>
      rw [copyAll, List.foldl_cons, ← copyAll, ih, Element.attribute?_setAttribute,
        List.reverse_cons, Attributes.get?_append, Attributes.get?_cons]
      by_cases hname : lower a.name = lower name
      · simp [hname]
      · simp [hname]

/-! ### What a style leaves alone -/

/-- The names of the attributes that tables and cells are given. -/
def givenNames : List String :=
  ["cellspacing", "border", "width", "cellpadding", "align", "valign", "bgcolor", "style"]

theorem mem_of_cellAttribute? {property given : String}
    (h : cellAttribute? property = some given) : given ∈ filledNames := by
  unfold cellAttribute? at h
  split_ifs at h <;> obtain rfl := Option.some.inj h <;> simp [filledNames]

theorem filledNames_subset : filledNames ⊆ givenNames := by
  simp [filledNames, givenNames]

theorem mem_valuesFor_cellWrites {name value : String} {ds : List Declaration} :
    value ∈ valuesFor name (cellWrites ds) ↔ ∃ d ∈ ds, d.value = value ∧
      ∃ given, cellAttribute? d.property = some given ∧ lower given = lower name := by
  rw [mem_valuesFor, cellWrites]
  constructor
  · rintro ⟨write, hwrite, hname, rfl⟩
    obtain ⟨d, hd, hgiven⟩ := List.mem_filterMap.1 hwrite
    obtain ⟨given, hfound, rfl⟩ := Option.map_eq_some_iff.1 hgiven
    exact ⟨d, hd, rfl, given, hfound, hname⟩
  · rintro ⟨d, hd, rfl, given, hgiven, hname⟩
    exact ⟨(given, d.value), List.mem_filterMap.2 ⟨d, hd, by rw [hgiven, Option.map_some]⟩,
      hname, rfl⟩

/-- No alignment and no background is written to the other names. -/
theorem valuesFor_cellWrites_eq_nil {name : String}
    (hname : ∀ given ∈ filledNames, lower given ≠ lower name)
    (ds : List Declaration) : valuesFor name (cellWrites ds) = [] := by
  refine List.eq_nil_iff_forall_not_mem.2 fun value hvalue => ?_
  obtain ⟨d, -, -, given, hgiven, hsame⟩ := mem_valuesFor_cellWrites.1 hvalue
  exact hname given (mem_of_cellAttribute? hgiven) hsame

theorem cellValue_style (ds : List Declaration) (old : Option String) :
    cellValue ds "style" old = if cellDeclarations ds = [] then old
      else some (String.join ((cellDeclarations ds).map Declaration.text)) := by
  have hlower : lower "style" = "style" := by decide +kernel
  have hname : ∀ given ∈ filledNames, lower given ≠ lower "style" := by decide +kernel
  unfold cellValue
  rw [hlower, valuesFor_cellWrites_eq_nil hname]
  simp

/-- Under other names the cell keeps what it has. -/
theorem cellValue_of_other {name : String} (hname : ∀ given ∈ givenNames, lower given ≠ lower name)
    (ds : List Declaration) (old : Option String) : cellValue ds name old = old := by
  have hlower : lower "style" = "style" ∧ lower "width" = "width" := by decide +kernel
  have hstyle : lower name ≠ "style" := hlower.1 ▸ Ne.symm (hname "style" (by simp [givenNames]))
  have hwidth : lower name ≠ "width" := hlower.2 ▸ Ne.symm (hname "width" (by simp [givenNames]))
  have hfilled : ∀ given ∈ filledNames, lower given ≠ lower name :=
    fun given hgiven => hname given (by simp [filledNames, givenNames] at hgiven ⊢; tauto)
  rw [cellValue, if_neg fun h => hstyle h.1, if_neg fun h => hwidth h.1,
    valuesFor_cellWrites_eq_nil hfilled, settled_nil]

theorem attribute?_foldl_dressTable_of_ne {name : String} (hwidth : lower "width" ≠ lower name)
    (hpadding : lower "cellpadding" ≠ lower name) (ds : List Declaration) (table : Element) :
    (ds.foldl dressTable table).attribute? name = table.attribute? name := by
  induction ds generalizing table with
  | nil => rfl
  | cons d ds ih =>
      rw [List.foldl_cons, ih, dressTable]
      split_ifs
      · exact table.attribute?_setAttribute_of_ne hwidth _
      · exact table.attribute?_setAttribute_of_ne hpadding _
      · rfl

/-- What is left of a style for the cell reads as the declarations that are left. -/
theorem parseDeclarations_cellDeclarations {ds : List Declaration} (hds : ∀ d ∈ ds, d.Readable) :
    parseDeclarations (String.join ((cellDeclarations ds).map Declaration.text)) =
      .ok (cellDeclarations ds) := by
  have hleft : ∀ d ∈ cellDeclarations ds, d.Readable := fun d hd => hds d (List.mem_filter.1 hd).1
  have hread := parseDeclarations_join hleft
  rwa [String.empty_append] at hread

theorem declarations_styledCell {ds : List Declaration} (hds : ∀ d ∈ ds, d.Readable)
    (cell : Element) :
    (styledCell ds cell).declarations =
      if cellDeclarations ds = [] then cell.declarations else .ok (cellDeclarations ds) := by
  rw [Element.declarations, attribute?_styledCell, cellValue_style]
  split
  · rfl
  · exact parseDeclarations_cellDeclarations hds

/-! ### All attributes of an element -/

/-- Of attributes with one style at most, either none is the style or just one is. -/
theorem style_cases {attributes : List Attribute}
    (h : (attributes.filter (·.isNamed "style")).length ≤ 1) :
    (∀ a ∈ attributes, a.isNamed "style" = false) ∨
      ∃ before s behind, attributes = before ++ s :: behind ∧
        (∀ a ∈ before, a.isNamed "style" = false) ∧ s.isNamed "style" = true ∧
        ∀ a ∈ behind, a.isNamed "style" = false := by
  cases hstyles : attributes.filter (·.isNamed "style") with
  | nil => exact Or.inl fun a ha => by simpa using List.filter_eq_nil_iff.1 hstyles a ha
  | cons s rest =>
      obtain rfl : rest = [] := by
        rw [hstyles, List.length_cons] at h
        exact List.length_eq_zero_iff.1 (by omega)
      obtain ⟨before, behind, hsplit, hbefore, hs, hbehind⟩ := List.filter_eq_cons_iff.1 hstyles
      exact Or.inr ⟨before, s, behind, hsplit, fun a ha => by simpa using hbefore a ha, hs,
        fun a ha => by simpa using List.filter_eq_nil_iff.1 hbehind a ha⟩

theorem takeAttribute_of_style {a : Attribute} (h : a.isNamed "style" = true)
    (parts : CellTable) : parts.takeAttribute a = parts.takeStyle a.value := by
  rw [takeAttribute, if_pos h]

/-- Attributes other than the style are copied to the cell. -/
theorem foldlM_takeAttribute_of_plain {attributes : List Attribute}
    (h : ∀ a ∈ attributes, a.isNamed "style" = false) (parts : CellTable) :
    attributes.foldlM takeAttribute parts =
      .ok { parts with cell := copyAll parts.cell attributes } := by
  induction attributes generalizing parts with
  | nil => rfl
  | cons a rest ih =>
      obtain ⟨ha, hrest⟩ := List.forall_mem_cons.1 h
      rw [List.foldlM_cons, takeAttribute, ha]
      exact ih hrest _

section Frame

variable {R : Element → Element → Prop} (hrefl : ∀ e, R e e)
  (htrans : ∀ {a b c}, R a b → R b c → R a c)
  (hgiven : ∀ (e : Element), ∀ name ∈ givenNames, ∀ value, R e (e.setAttribute name value))
include hrefl htrans hgiven

theorem rel_foldl_dressTable (ds : List Declaration) (table : Element) :
    R table (ds.foldl dressTable table) := by
  induction ds generalizing table with
  | nil => exact hrefl table
  | cons d ds ih =>
      refine htrans ?_ (ih (dressTable table d))
      unfold dressTable
      split_ifs
      · exact hgiven table "width" (by simp [givenNames]) _
      · exact hgiven table "cellpadding" (by simp [givenNames]) _
      · exact hrefl table

theorem rel_styledCell (ds : List Declaration) (cell : Element) : R cell (styledCell ds cell) := by
  have hdressed : R cell (ds.foldl dressCell cell) := by
    induction ds generalizing cell with
    | nil => exact hrefl cell
    | cons d ds ih =>
        refine htrans ?_ (ih (dressCell cell d))
        unfold dressCell
        split_ifs
        · exact hgiven cell "width" (by simp [givenNames]) _
        · cases hname : cellAttribute? d.property with
          | none => exact hrefl cell
          | some name =>
              have hfilled : name ∈ givenNames := filledNames_subset (mem_of_cellAttribute? hname)
              dsimp only
              rcases cell.fillAttribute_cases name d.value with heq | heq <;> rw [heq]
              · exact hrefl cell
              · exact hgiven cell name hfilled _
  unfold styledCell
  split_ifs
  · exact hdressed
  · exact htrans hdressed (hgiven _ "style" (by simp [givenNames]) _)

/-- The parts differ from bare ones by the attributes they were given. -/
theorem rel_ofAttributes {attributes : List Attribute} {parts : CellTable}
    (hcopied : ∀ a ∈ attributes, ∀ e : Element, R e (e.setAttribute a.name a.value))
    (h : ofAttributes attributes = .ok parts) :
    R bare.table parts.table ∧ R bare.cell parts.cell := by
  refine rel_of_foldlM (R := fun x y : CellTable => R x.table y.table ∧ R x.cell y.cell)
    (fun x => ⟨hrefl x.table, hrefl x.cell⟩)
    (fun h h' => ⟨htrans h.1 h'.1, htrans h.2 h'.2⟩) ?_ h
  intro a ha parts parts' htake
  unfold takeAttribute at htake
  split at htake
  · rw [takeStyle_eq] at htake
    obtain ⟨ds, -, rfl⟩ := map_eq_ok_iff.1 htake
    exact ⟨rel_foldl_dressTable hrefl htrans hgiven ds parts.table,
      rel_styledCell hrefl htrans hgiven ds parts.cell⟩
  · obtain rfl := Except.ok.inj htake
    exact ⟨hrefl parts.table, hcopied a ha parts.cell⟩

end Frame

/-- **The parts for an element can be made when each of its styles can be read.** -/
theorem exists_ofAttributes_iff {attributes : List Attribute} :
    (∃ parts, ofAttributes attributes = .ok parts) ↔
      ∀ a ∈ attributes, a.isNamed "style" → ∃ ds, parseDeclarations a.value = .ok ds := by
  suffices h : ∀ start : CellTable, (∃ parts, attributes.foldlM takeAttribute start = .ok parts) ↔
      ∀ a ∈ attributes, a.isNamed "style" → ∃ ds, parseDeclarations a.value = .ok ds from h bare
  induction attributes with
  | nil => exact fun start => ⟨fun _ => by simp, fun _ => ⟨start, rfl⟩⟩
  | cons a rest ih =>
      intro start
      rw [List.forall_mem_cons, List.foldlM_cons]
      by_cases ha : a.isNamed "style" = true
      · rw [takeAttribute_of_style ha, takeStyle_eq]
        cases hread : parseDeclarations a.value with
        | error fault => simp [ha, bind, Except.bind, Except.map]
        | ok ds =>
            refine (ih _).trans (and_iff_right fun _ => ⟨ds, rfl⟩).symm
      · rw [takeAttribute, if_neg ha]
        exact (ih _).trans (and_iff_right fun h => absurd h ha).symm

section OneStyle

variable {before behind : List Attribute} {s : Attribute} {ds : List Declaration}
  (hbefore : ∀ a ∈ before, a.isNamed "style" = false)
  (hs : s.isNamed "style" = true) (hread : parseDeclarations s.value = .ok ds)
  (hbehind : ∀ a ∈ behind, a.isNamed "style" = false)
include hbefore hs hread hbehind

/-- With one style the cell is given the attributes before it, then the style, then the attributes
behind it. -/
theorem ofAttributes_append_cons :
    ofAttributes (before ++ s :: behind) = .ok ⟨ds.foldl dressTable bare.table,
      copyAll (styledCell ds (copyAll bare.cell before)) behind⟩ := by
  rw [ofAttributes, List.foldlM_append, foldlM_takeAttribute_of_plain hbefore]
  show List.foldlM takeAttribute _ (s :: behind) = _
  rw [List.foldlM_cons, takeAttribute_of_style hs, takeStyle_eq, hread]
  exact foldlM_takeAttribute_of_plain hbehind _

variable {parts : CellTable} (hparts : ofAttributes (before ++ s :: behind) = .ok parts)
include hparts

theorem table_eq : parts.table = ds.foldl dressTable bare.table := by
  rw [ofAttributes_append_cons hbefore hs hread hbehind] at hparts
  rw [← Except.ok.inj hparts]

/-- **What the cell has under a name.** -/
theorem attribute?_cell_eq (name : String) :
    parts.cell.attribute? name = (Attributes.get? behind.reverse name).or
      (cellValue ds name (Attributes.get? before.reverse name)) := by
  have hbare : bare.cell.attribute? name = none := rfl
  rw [ofAttributes_append_cons hbefore hs hread hbehind] at hparts
  rw [← Except.ok.inj hparts, attribute?_copyAll, attribute?_styledCell, attribute?_copyAll, hbare,
    Option.or_none]

end OneStyle

end CellTable

end StyleInliner.Inline
