/-
The padding of a cell.

The table gets the digits of the last padding that a style declares, and leaves out
all else (`attribute?_cellpadding`).  So it gets all numbers of that value, one right
behind the other, and not one of them: that is one number just when the value has no
other (`cellpadding_digits`).
-/
import StyleInliner.Proofs.Inline.Replacement
import StyleInliner.Proofs.Text.MaximalRun

namespace StyleInliner.Inline

open StyleInliner.Css StyleInliner.Dom StyleInliner.Text

/-- The values that declarations give the padding. -/
def paddings (ds : List Declaration) : List String :=
  (ds.filter (·.property = "padding")).map Declaration.value

/-- The digits of a text. -/
def digitsOf (s : String) : String :=
  String.ofList (s.toList.filter Char.isDigit)

/-- What the styles of an element declare, one list for each style. -/
def declaredStyles (attributes : List Attribute) : Except CssError (List (List Declaration)) :=
  (attributes.filter (·.isNamed "style")).mapM fun a => parseDeclarations a.value

theorem paddings_append (ds more : List Declaration) :
    paddings (ds ++ more) = paddings ds ++ paddings more := by
  simp [paddings]

/-- The padding that comes last counts. -/
theorem attribute?_foldl_dressTable (ds : List Declaration) (table : Element) :
    (ds.foldl dressTable table).attribute? "cellpadding" =
      ((paddings ds).getLast?.map digitsOf).or (table.attribute? "cellpadding") := by
  have hnames : lower "width" ≠ lower "cellpadding" := by decide +kernel
  induction ds generalizing table with
  | nil => rfl
  | cons d ds ih =>
      rw [List.foldl_cons, ih, dressTable]
      by_cases hpadding : d.property = "padding"
      · have hwidth : d.property ≠ "width" := by simp [hpadding]
        have hfound : paddings (d :: ds) = d.value :: paddings ds := by simp [paddings, hpadding]
        rw [if_neg hwidth, if_pos hpadding, Element.attribute?_setAttribute, if_pos rfl, hfound,
          List.getLast?_cons]
        cases (paddings ds).getLast? <;> rfl
      · have hnone : paddings (d :: ds) = paddings ds := by simp [paddings, hpadding]
        rw [if_neg hpadding, hnone]
        split_ifs
        · rw [Element.attribute?_setAttribute_of_ne hnames]
        · rfl

namespace CellTable

theorem attribute?_foldlM_takeAttribute {attributes : List Attribute} {start parts : CellTable}
    (h : attributes.foldlM takeAttribute start = .ok parts) {styles : List (List Declaration)}
    (hstyles : declaredStyles attributes = .ok styles) :
    parts.table.attribute? "cellpadding" = ((paddings styles.flatten).getLast?.map digitsOf).or
      (start.table.attribute? "cellpadding") := by
  induction attributes generalizing start styles with
  | nil =>
      obtain rfl := Except.ok.inj h
      obtain rfl : [] = styles := Except.ok.inj hstyles
      rfl
  | cons a rest ih =>
      rw [List.foldlM_cons] at h
      obtain ⟨next, htake, hrest⟩ := bind_eq_ok_iff.1 h
      by_cases ha : a.isNamed "style" = true
      · rw [declaredStyles, List.filter_cons, if_pos ha, List.mapM_cons] at hstyles
        obtain ⟨ds, hread, hstyles⟩ := bind_eq_ok_iff.1 hstyles
        obtain ⟨more, hmore, hstyles⟩ := bind_eq_ok_iff.1 hstyles
        obtain rfl : ds :: more = styles := Except.ok.inj hstyles
        rw [takeAttribute_of_style ha, takeStyle_eq, hread] at htake
        obtain rfl := Except.ok.inj htake
        rw [ih hrest hmore, attribute?_foldl_dressTable, List.flatten_cons, paddings_append,
          List.getLast?_append, ← Option.or_assoc]
        cases (paddings more.flatten).getLast? <;> rfl
      · rw [declaredStyles, List.filter_cons, if_neg ha] at hstyles
        rw [takeAttribute, if_neg ha] at htake
        obtain rfl := Except.ok.inj htake
        exact ih hrest hstyles

/-- **The table has the digits of the last padding,** and no padding if none is declared. -/
theorem attribute?_cellpadding {attributes : List Attribute} {parts : CellTable}
    (h : ofAttributes attributes = .ok parts) {styles : List (List Declaration)}
    (hstyles : declaredStyles attributes = .ok styles) :
    parts.table.attribute? "cellpadding" = (paddings styles.flatten).getLast?.map digitsOf := by
  have hbare : bare.table.attribute? "cellpadding" = none := by decide +kernel
  rw [attribute?_foldlM_takeAttribute h hstyles, hbare, Option.or_none]

end CellTable

theorem readable_of_declaredStyles {attributes : List Attribute}
    {styles : List (List Declaration)} (h : declaredStyles attributes = .ok styles) :
    ∀ a ∈ attributes, a.isNamed "style" → ∃ ds, parseDeclarations a.value = .ok ds := by
  intro a ha hstyle
  have hread := mapM_eq_ok_iff.1 h
  obtain ⟨i, hi, hai⟩ := List.getElem_of_mem
    (List.mem_filter (p := fun a => a.isNamed "style").2 ⟨ha, hstyle⟩)
  have hat := hread.get hi (hread.length_eq ▸ hi)
  rw [List.get_eq_getElem, hai] at hat
  exact ⟨_, hat⟩

/-- **The padding of the table is made of all numbers in the last padding that is declared.**  It is
empty just when that value has no digit, and it is one of the numbers just when there is one number
only. -/
theorem cellpadding_digits {f : Forest} (hf : f.WellFormed) {n p : NodeId} {e : Element}
    (he : f.element? n = some e) (hparent : f.parent? n = some p)
    {styles : List (List Declaration)} (hstyles : declaredStyles e.attributes = .ok styles)
    {value : String} (hvalue : (paddings styles.flatten).getLast? = some value) :
    ∃ g parts digits, convertToTable f n = .ok (g, true) ∧ Replaced f g n p parts ∧
      parts.table.attribute? "cellpadding" = some digits ∧
      digits.toList = (numbers value.toList).flatten ∧
      (∀ run, run ∈ numbers value.toList ↔ IsMaximalRun Char.isDigit run value.toList) ∧
      (digits = "" ↔ ∀ c ∈ value.toList, c.isDigit = false) ∧
      (IsMaximalRun Char.isDigit digits.toList value.toList ↔
        (numbers value.toList).length = 1) := by
  obtain ⟨g, parts, hrun, hreplaced, hparts⟩ :=
    exists_replaced hf he hparent (readable_of_declaredStyles hstyles)
  have hdigits : (digitsOf value).toList = (numbers value.toList).flatten := by
    rw [flatten_numbers, digitsOf, String.toList_ofList]
  refine ⟨g, parts, digitsOf value, hrun, hreplaced, ?_, hdigits, fun _ => mem_numbers_iff, ?_, ?_⟩
  · rw [CellTable.attribute?_cellpadding hparts hstyles, hvalue, Option.map_some]
  · rw [← String.toList_eq_nil_iff, hdigits, flatten_numbers, List.filter_eq_nil_iff]
    simp
  · rw [hdigits, ← mem_numbers_iff, flatten_numbers_mem_iff]

/-- Two styles, of which the second declares the padding twice. -/
theorem cellpadding_digits_shorthand :
    let e : Element := ⟨.html, "p", [⟨"style", "padding:7px"⟩, ⟨"id", "a"⟩,
      ⟨"style", "padding:5;PADDING:1.5 2"⟩]⟩
    let f : Forest := ⟨#[⟨none, [1], .element ⟨.html, "body", []⟩⟩, ⟨some 0, [], .element e⟩]⟩
    f.WellFormed ∧ f.element? 1 = some e ∧ f.parent? 1 = some 0 ∧
      (∃ styles, declaredStyles e.attributes = .ok styles ∧
        (paddings styles.flatten).getLast? = some "1.5 2") ∧
      ∃ g parts digits, convertToTable f 1 = .ok (g, true) ∧ Replaced f g 1 0 parts ∧
        parts.table.attribute? "cellpadding" = some digits ∧ digits.toList = "152".toList := by
  intro e f
  have hf : f.WellFormed := Forest.wellFormed_of_forall (by decide)
  have he : f.element? 1 = some e := by decide +kernel
  have hparent : f.parent? 1 = some 0 := by decide +kernel
  let styles : List (List Declaration) :=
    [[⟨"padding", "7px"⟩], [⟨"padding", "5"⟩, ⟨"padding", "1.5 2"⟩]]
  have hstyles : declaredStyles e.attributes = .ok styles := by decide +kernel
  have hvalue : (paddings styles.flatten).getLast? = some "1.5 2" := by decide +kernel
  obtain ⟨g, parts, digits, hrun, hreplaced, hpadding, hdigits, -, -, -⟩ :=
    cellpadding_digits hf he hparent hstyles hvalue
  have hnumbers : (numbers "1.5 2".toList).flatten = "152".toList := by decide +kernel
  exact ⟨hf, he, hparent, ⟨styles, hstyles, hvalue⟩, g, parts, digits, hrun, hreplaced, hpadding,
    hdigits.trans hnumbers⟩

/-- Numbers of a shorthand are joined: of `5px 5px` the table gets 55, which is no number of it. -/
theorem cellpadding_joined :
    let e : Element := ⟨.html, "div", [⟨"style", "-tableize:1;padding:5px 5px"⟩]⟩
    let f : Forest := ⟨#[⟨none, [1], .element ⟨.html, "body", []⟩⟩, ⟨some 0, [], .element e⟩]⟩
    f.WellFormed ∧ f.element? 1 = some e ∧ f.parent? 1 = some 0 ∧
      e.declarations = .ok [⟨"-tableize", "1"⟩, ⟨"padding", "5px 5px"⟩] ∧
      (convertToTable f 1).map (fun r => (r.1.element? 2).map (·.attribute? "cellpadding")) =
        .ok (some (some "55")) ∧
      ¬ IsMaximalRun Char.isDigit "55".toList "5px 5px".toList := by
  refine ⟨Forest.wellFormed_of_forall (by decide), by decide +kernel, by decide +kernel,
    by decide +kernel, by decide +kernel, ?_⟩
  rw [← mem_numbers_iff]
  decide +kernel

end StyleInliner.Inline
