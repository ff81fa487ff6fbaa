/-
Where the order of the attributes tells on a table.

The style stands among the other attributes, and a cell is given them one after the
other.  The table has its own attributes from the style only, so their order makes no
difference to it.  A cell has what is copied before the style seen by the style, and
what is copied behind it laid over what the style gave; the order makes a difference
only for an attribute that the style would not leave as it is (`Contested`).  These are
a width beside a width in the style, and an empty alignment or background beside one in
the style that is not empty.
-/
import StyleInliner.Proofs.Inline.Replacement

namespace StyleInliner.Inline

open StyleInliner.Css StyleInliner.Dom StyleInliner.Text

/-- The attributes behind the style. -/
def behindStyle (attributes : List Attribute) : List Attribute :=
  (attributes.dropWhile fun a => !a.isNamed "style").tail

/-- An attribute that does not stay as it is when the style is given to a cell that has it. -/
def Contested (ds : List Declaration) (a : Attribute) : Prop :=
  (a.isNamed "width" ∧ a.value ≠ "100%" ∧ ∃ d ∈ ds, d.property = "width") ∨
    (a.value = "" ∧ ∃ d ∈ ds, d.value ≠ "" ∧
      ∃ name ∈ cellAttribute? d.property, a.isNamed name)

instance (ds : List Declaration) (a : Attribute) : Decidable (Contested ds a) :=
  inferInstanceAs (Decidable (_ ∨ _))

/-! ### What the style changes -/

/-- Only an empty attribute is filled, and only by a value that is not. -/
theorem settled_eq_self_iff {old : String} {values : List String} :
    settled (some old) values = some old ↔ (old = "" → ∀ value ∈ values, value = "") := by
  unfold settled
  by_cases hold : old = ""
  · subst hold
    cases hfind : values.find? (· ≠ "") with
    | some value =>
        have hne : value ≠ "" := by simpa using List.find?_some hfind
        have hmem := List.mem_of_find?_eq_some hfind
        simpa [hne] using ⟨value, hmem, hne⟩
    | none => simpa using hfind
  · simp [hold]

theorem exists_filling_iff {a : Attribute} {ds : List Declaration} :
    (∃ d ∈ ds, d.value ≠ "" ∧ ∃ given ∈ cellAttribute? d.property, a.isNamed given) ↔
      ∃ value ∈ valuesFor a.name (cellWrites ds), value ≠ "" := by
  constructor
  · rintro ⟨d, hd, hne, given, hgiven, hname⟩
    exact ⟨d.value, CellTable.mem_valuesFor_cellWrites.2
      ⟨d, hd, rfl, given, hgiven, (Attribute.isNamed_iff.1 hname).symm⟩, hne⟩
  · rintro ⟨value, hvalue, hne⟩
    obtain ⟨d, hd, rfl, given, hgiven, hname⟩ :=
      CellTable.mem_valuesFor_cellWrites.1 hvalue
    exact ⟨d, hd, hne, given, hgiven, Attribute.isNamed_iff.2 hname.symm⟩

/-- **The attributes that are contested are those that the style changes.** -/
theorem cellValue_eq_self_iff {a : Attribute} (ha : a.isNamed "style" = false)
    (ds : List Declaration) :
    CellTable.cellValue ds a.name (some a.value) = some a.value ↔ ¬ Contested ds a := by
  have hlower : lower "style" = "style" ∧ lower "width" = "width" := by decide +kernel
  have hstyle : lower a.name ≠ "style" := by
    intro h
    rw [Attribute.isNamed_iff.2 (h.trans hlower.1.symm)] at ha
    cases ha
  have hwidth : a.isNamed "width" ↔ lower a.name = "width" := by
    rw [Attribute.isNamed_iff, hlower.2]
  rw [Contested, exists_filling_iff, hwidth, CellTable.cellValue, if_neg fun h => hstyle h.1]
  by_cases hdeclared : lower a.name = "width" ∧ ∃ d ∈ ds, d.property = "width"
  · -- widths are never filled, so only the value of the attribute counts
    have hnone : valuesFor a.name (cellWrites ds) = [] := by
      refine CellTable.valuesFor_cellWrites_eq_nil ?_ ds
      rw [hdeclared.1]
      decide +kernel
    rw [if_pos hdeclared, hnone, Option.some_inj, eq_comm (a := "100%")]
    simp [hdeclared.1, hdeclared.2]
  · rw [if_neg hdeclared, settled_eq_self_iff]
    have hfirst : ¬ (lower a.name = "width" ∧ a.value ≠ "100%" ∧ ∃ d ∈ ds, d.property = "width") :=
      fun h => hdeclared ⟨h.1, h.2.2⟩
    rw [or_iff_right hfirst]
    simp only [not_and, not_exists, not_not, ne_eq]

/-! ### What the cell has -/

namespace CellTable

theorem mem_of_mem_behindStyle {attributes : List Attribute} {a : Attribute}
    (h : a ∈ behindStyle attributes) : a ∈ attributes :=
  (List.dropWhile_sublist _).subset (List.mem_of_mem_tail h)

theorem behindStyle_append_cons {before behind : List Attribute} {s : Attribute}
    (hbefore : ∀ a ∈ before, a.isNamed "style" = false) (hs : s.isNamed "style" = true) :
    behindStyle (before ++ s :: behind) = behind := by
  have hskip : ∀ a ∈ before, (!a.isNamed "style") = true := fun a ha => by simp [hbefore a ha]
  rw [behindStyle, List.dropWhile_append_of_pos hskip, List.dropWhile_cons_of_neg (by simp [hs]),
    List.tail_cons]

section Distinct

variable {attributes : List Attribute} (hdistinct : Attributes.Distinct attributes) {s : Attribute}
  (hs : s ∈ attributes) (hstyle : s.isNamed "style" = true)
include hdistinct hs hstyle

/-- Where names are distinct, the other attributes stand before or behind the style. -/
theorem exists_eq_append_cons :
    ∃ before behind, attributes = before ++ s :: behind ∧
      (∀ a ∈ before, a.isNamed "style" = false) ∧ ∀ a ∈ behind, a.isNamed "style" = false := by
  rcases style_cases (hdistinct.length_filter_le_one "style") with
    hplain | ⟨before, s', behind, rfl, hbefore, hs', hbehind⟩
  · rw [hplain s hs] at hstyle
    cases hstyle
  · obtain rfl : s = s' := hdistinct.eq_of_isNamed hs (by simp) hstyle hs'
    exact ⟨before, behind, rfl, hbefore, hbehind⟩

theorem plain_of_mem_behindStyle {a : Attribute} (ha : a ∈ behindStyle attributes) :
    a.isNamed "style" = false := by
  obtain ⟨before, behind, rfl, hbefore, hbehind⟩ := exists_eq_append_cons hdistinct hs hstyle
  rw [behindStyle_append_cons hbefore hstyle] at ha
  exact hbehind a ha

variable {ds : List Declaration} (hread : parseDeclarations s.value = .ok ds) {parts : CellTable}
  (hparts : ofAttributes attributes = .ok parts)
include hread hparts

/-- The table is told by the style. -/
theorem table_of_distinct : parts.table = ds.foldl dressTable bare.table := by
  obtain ⟨before, behind, rfl, hbefore, hbehind⟩ := exists_eq_append_cons hdistinct hs hstyle
  exact table_eq hbefore hstyle hread hbehind hparts

/-- **An attribute behind the style stays as it is; one before it, as the style leaves it.** -/
theorem attribute?_cell_of_mem {a : Attribute} (ha : a ∈ attributes) {name : String}
    (hname : a.isNamed name) (hplain : a.isNamed "style" = false) :
    parts.cell.attribute? name = if a ∈ behindStyle attributes then some a.value
      else cellValue ds name (some a.value) := by
  have hsame := Attribute.isNamed_iff.1 hname
  obtain ⟨before, behind, rfl, hbefore, hbehind⟩ := exists_eq_append_cons hdistinct hs hstyle
  have hbeforeDistinct : Attributes.Distinct before.reverse :=
    (hdistinct.sublist (List.sublist_append_left _ _)).perm (List.reverse_perm _).symm
  have hbehindDistinct : Attributes.Distinct behind.reverse :=
    (hdistinct.sublist ((List.sublist_cons_self s behind).trans
      (List.sublist_append_right _ _))).perm (List.reverse_perm _).symm
  rw [behindStyle_append_cons hbefore hstyle, attribute?_cell_eq hbefore hstyle hread hbehind hparts]
  by_cases hmem : a ∈ behind
  · rw [if_pos hmem, Attributes.get?_eq_some_of_mem hbehindDistinct (List.mem_reverse.2 hmem)
      hsame, Option.some_or]
  · have hfirst : a ∈ before := by
      rcases List.mem_append.1 ha with h | h
      · exact h
      · rcases List.mem_cons.1 h with rfl | h
        · rw [hstyle] at hplain
          cases hplain
        · exact absurd h hmem
    have hnone : Attributes.get? behind.reverse name = none := by
      refine Attributes.get?_eq_none_of_forall fun b hb => ?_
      by_contra hnamed
      have hb := List.mem_reverse.1 hb
      have hba : b = a := hdistinct.eq_of_isNamed (by simp [hb]) ha (by simpa using hnamed) hname
      exact hmem (hba ▸ hb)
    rw [if_neg hmem, hnone, Option.none_or,
      Attributes.get?_eq_some_of_mem hbeforeDistinct (List.mem_reverse.2 hfirst) hsame]

/-- Under the other names the cell has what the style gives. -/
theorem attribute?_cell_of_absent {name : String}
    (h : ¬ ∃ a ∈ attributes, a.isNamed name ∧ a.isNamed "style" = false) :
    parts.cell.attribute? name = cellValue ds name none := by
  obtain ⟨before, behind, rfl, hbefore, hbehind⟩ := exists_eq_append_cons hdistinct hs hstyle
  have hnone : ∀ l : List Attribute, l ⊆ before ++ s :: behind →
      (∀ a ∈ l, a.isNamed "style" = false) → Attributes.get? l.reverse name = none := by
    intro l hl hplain
    refine Attributes.get?_eq_none_of_forall fun a ha => ?_
    have ha := List.mem_reverse.1 ha
    by_contra hnamed
    exact h ⟨a, hl ha, by simpa using hnamed, hplain a ha⟩
  rw [attribute?_cell_eq hbefore hstyle hread hbehind hparts, hnone before (by simp) hbefore,
    hnone behind (by simp) hbehind, Option.none_or]

/-- Where the attributes make no difference to the style, what the style gives is kept unless
another value is copied over it. -/
theorem attribute?_cell_eq_cellValue_iff (name : String)
    (h : ∀ a ∈ attributes, a.isNamed name → a.isNamed "style" = false →
      cellValue ds name (some a.value) = cellValue ds name none) :
    parts.cell.attribute? name = cellValue ds name none ↔
      ∀ a ∈ behindStyle attributes, a.isNamed name → some a.value = cellValue ds name none := by
  by_cases hnamed : ∃ a ∈ attributes, a.isNamed name ∧ a.isNamed "style" = false
  · obtain ⟨a, ha, hname, hplain⟩ := hnamed
    have hunique : ∀ b ∈ behindStyle attributes, b.isNamed name → b = a := fun b hb hbname =>
      hdistinct.eq_of_isNamed (mem_of_mem_behindStyle hb) ha hbname hname
    rw [attribute?_cell_of_mem hdistinct hs hstyle hread hparts ha hname hplain, h a ha hname hplain]
    by_cases hbehind : a ∈ behindStyle attributes
    · rw [if_pos hbehind]
      exact ⟨fun hkept b hb hbname => hunique b hb hbname ▸ hkept, fun hall => hall a hbehind hname⟩
    · rw [if_neg hbehind]
      exact iff_of_true rfl fun b hb hbname => absurd (hunique b hb hbname ▸ hb) hbehind
  · refine iff_of_true (attribute?_cell_of_absent hdistinct hs hstyle hread hparts hnamed) ?_
    intro a ha hname
    exact absurd ⟨a, mem_of_mem_behindStyle ha, hname,
      plain_of_mem_behindStyle hdistinct hs hstyle ha⟩ hnamed

/-- **With a width in the style the cell fills the table unless another width stands behind.** -/
theorem attribute?_cell_width (hwidth : ∃ d ∈ ds, d.property = "width") :
    parts.cell.attribute? "width" = some "100%" ↔
      ∀ a ∈ behindStyle attributes, a.isNamed "width" → a.value = "100%" := by
  have hvalue : ∀ old, cellValue ds "width" old = some "100%" := by
    intro old
    have hne : lower "width" ≠ "style" := by decide +kernel
    rw [cellValue, if_neg fun h => hne h.1, if_pos ⟨by decide +kernel, hwidth⟩]
  have hkept := attribute?_cell_eq_cellValue_iff hdistinct hs hstyle hread hparts "width"
    fun a _ _ _ => (hvalue (some a.value)).trans (hvalue none).symm
  simpa only [hvalue, Option.some_inj] using hkept

/-- **An alignment or a background of the style is kept, on an element without one, unless an empty
one stands behind.** -/
theorem attribute?_cell_filled {name value : String} (hname : name ∈ filledNames)
    (hfirst : (valuesFor name (cellWrites ds)).find? (· ≠ "") = some value)
    (hempty : ∀ a ∈ attributes, a.isNamed name → a.value = "") :
    parts.cell.attribute? name = some value ↔
      ∀ a ∈ behindStyle attributes, ¬ a.isNamed name := by
  have hvalue : ∀ old : Option String, old.getD "" = "" → cellValue ds name old = some value := by
    intro old hold
    have hne : ∀ name ∈ filledNames,
        lower name ≠ "style" ∧ lower name ≠ "width" := by decide +kernel
    rw [cellValue, if_neg fun h => (hne name hname).1 h.1,
      if_neg fun h => (hne name hname).2 h.1, settled, if_neg (not_not_intro hold), hfirst]
  have hne : "" ≠ value := by
    have hfound := List.find?_some hfirst
    simp at hfound
    exact Ne.symm hfound
  have hkept := attribute?_cell_eq_cellValue_iff hdistinct hs hstyle hread hparts name
    fun a ha haname _ => (hvalue (some a.value) (hempty a ha haname)).trans (hvalue none rfl).symm
  rw [hvalue none rfl] at hkept
  rw [hkept]
  refine forall₂_congr fun a ha => ?_
  constructor
  · intro h haname
    have hav := Option.some.inj (h haname)
    rw [hempty a (mem_of_mem_behindStyle ha) haname] at hav
    exact hne hav
  · exact fun h haname => absurd haname h

end Distinct

/-- **Two orders of the attributes make the same of a name just when they agree on which contested
attributes of that name stand behind the style.** -/
theorem attribute?_cell_eq_iff {attributes₁ attributes₂ : List Attribute}
    (hdistinct : Attributes.Distinct attributes₁) (hperm : attributes₁.Perm attributes₂)
    {s : Attribute} (hs : s ∈ attributes₁) (hstyle : s.isNamed "style" = true)
    {ds : List Declaration} (hread : parseDeclarations s.value = .ok ds) {parts₁ parts₂ : CellTable}
    (hparts₁ : ofAttributes attributes₁ = .ok parts₁)
    (hparts₂ : ofAttributes attributes₂ = .ok parts₂) (name : String) :
    parts₁.cell.attribute? name = parts₂.cell.attribute? name ↔
      ∀ a ∈ attributes₁, a.isNamed name → Contested ds a →
        (a ∈ behindStyle attributes₁ ↔ a ∈ behindStyle attributes₂) := by
  have hdistinct₂ := hdistinct.perm hperm
  have hs₂ := hperm.subset hs
  by_cases hnamed : ∃ a ∈ attributes₁, a.isNamed name ∧ a.isNamed "style" = false
  · obtain ⟨a, ha, hname, hplain⟩ := hnamed
    have hsame := Attribute.isNamed_iff.1 hname
    have hunique : ∀ b ∈ attributes₁, b.isNamed name → b = a := fun b hb hbname =>
      hdistinct.eq_of_isNamed hb ha hbname hname
    rw [attribute?_cell_of_mem hdistinct hs hstyle hread hparts₁ ha hname hplain,
      attribute?_cell_of_mem hdistinct₂ hs₂ hstyle hread hparts₂ (hperm.subset ha) hname hplain]
    have hself := cellValue_eq_self_iff hplain ds
    rw [cellValue_congr hsame] at hself
    have hone : (∀ b ∈ attributes₁, b.isNamed name → Contested ds b →
        (b ∈ behindStyle attributes₁ ↔ b ∈ behindStyle attributes₂)) ↔
          (Contested ds a → (a ∈ behindStyle attributes₁ ↔ a ∈ behindStyle attributes₂)) :=
      ⟨fun h => h a ha hname, fun h b hb hbname => hunique b hb hbname ▸ h⟩
    rw [hone]
    -- on the two sides of the style the value differs just when it is contested
    by_cases h₁ : a ∈ behindStyle attributes₁ <;> by_cases h₂ : a ∈ behindStyle attributes₂
    · simp [h₁, h₂]
    · rw [if_pos h₁, if_neg h₂, eq_comm, hself]
      simp [h₁, h₂]
    · rw [if_neg h₁, if_pos h₂, hself]
      simp [h₁, h₂]
    · simp [h₁, h₂]
  · have hnamed₂ : ¬ ∃ a ∈ attributes₂, a.isNamed name ∧ a.isNamed "style" = false :=
      fun ⟨a, ha, hplain⟩ => hnamed ⟨a, hperm.symm.subset ha, hplain⟩
    rw [attribute?_cell_of_absent hdistinct hs hstyle hread hparts₁ hnamed,
      attribute?_cell_of_absent hdistinct₂ hs₂ hstyle hread hparts₂ hnamed₂]
    refine iff_of_true rfl fun a ha hname _ => iff_of_false ?_ ?_
    · exact fun h => hnamed ⟨a, ha, hname, plain_of_mem_behindStyle hdistinct hs hstyle h⟩
    · exact fun h => hnamed ⟨a, ha, hname, plain_of_mem_behindStyle hdistinct₂ hs₂ hstyle h⟩

end CellTable

/-! ### Elements in a tree -/

/-- **Of two elements that have the same attributes in another order, the tables are the same, and
so are the cells but for contested attributes that stand on another side of the style.**  What the
style gives to a cell it keeps unless something else stands behind the style: a width that is not
the whole of the table, or an empty alignment or background. -/
theorem convertToTable_order {f₁ f₂ : Forest} (hf₁ : f₁.WellFormed) (hf₂ : f₂.WellFormed)
    {n₁ n₂ p₁ p₂ : NodeId} {e₁ e₂ : Element} (he₁ : f₁.element? n₁ = some e₁)
    (he₂ : f₂.element? n₂ = some e₂) (hparent₁ : f₁.parent? n₁ = some p₁)
    (hparent₂ : f₂.parent? n₂ = some p₂) (hdistinct : Attributes.Distinct e₁.attributes)
    (hperm : e₁.attributes.Perm e₂.attributes) {s : Attribute} (hs : s ∈ e₁.attributes)
    (hstyle : s.isNamed "style" = true) {ds : List Declaration}
    (hread : parseDeclarations s.value = .ok ds) :
    ∃ g₁ g₂ parts₁ parts₂, convertToTable f₁ n₁ = .ok (g₁, true) ∧
      convertToTable f₂ n₂ = .ok (g₂, true) ∧ Replaced f₁ g₁ n₁ p₁ parts₁ ∧
      Replaced f₂ g₂ n₂ p₂ parts₂ ∧ parts₁.table = parts₂.table ∧
      (∀ name, parts₁.cell.attribute? name = parts₂.cell.attribute? name ↔
        ∀ a ∈ e₁.attributes, a.isNamed name → Contested ds a →
          (a ∈ behindStyle e₁.attributes ↔ a ∈ behindStyle e₂.attributes)) ∧
      ((∃ d ∈ ds, d.property = "width") →
        (parts₁.cell.attribute? "width" = some "100%" ↔
          ∀ a ∈ behindStyle e₁.attributes, a.isNamed "width" → a.value = "100%")) ∧
      ∀ name ∈ filledNames, ∀ value,
        (valuesFor name (cellWrites ds)).find? (· ≠ "") = some value →
        (∀ a ∈ e₁.attributes, a.isNamed name → a.value = "") →
          (parts₁.cell.attribute? name = some value ↔
            ∀ a ∈ behindStyle e₁.attributes, ¬ a.isNamed name) := by
  have hdistinct₂ := hdistinct.perm hperm
  have hs₂ := hperm.subset hs
  have hreadable : ∀ a ∈ e₁.attributes, a.isNamed "style" →
      ∃ ds, parseDeclarations a.value = .ok ds := by
    intro a ha hnamed
    have hsame : a = s := hdistinct.eq_of_isNamed ha hs hnamed hstyle
    exact ⟨ds, hsame ▸ hread⟩
  obtain ⟨g₁, parts₁, hrun₁, hreplaced₁, hparts₁⟩ := exists_replaced hf₁ he₁ hparent₁ hreadable
  obtain ⟨g₂, parts₂, hrun₂, hreplaced₂, hparts₂⟩ := exists_replaced hf₂ he₂ hparent₂
    fun a ha => hreadable a (hperm.symm.subset ha)
  have htable₁ := CellTable.table_of_distinct hdistinct hs hstyle hread hparts₁
  have htable₂ := CellTable.table_of_distinct hdistinct₂ hs₂ hstyle hread hparts₂
  exact ⟨g₁, g₂, parts₁, parts₂, hrun₁, hrun₂, hreplaced₁, hreplaced₂, htable₁.trans htable₂.symm,
    CellTable.attribute?_cell_eq_iff hdistinct hperm hs hstyle hread hparts₁ hparts₂,
    CellTable.attribute?_cell_width hdistinct hs hstyle hread hparts₁,
    fun name hname value => CellTable.attribute?_cell_filled hdistinct hs hstyle hread hparts₁ hname⟩

/-- A name that the style does not give may stand on either side of it. -/
theorem convertToTable_order_id_moved :
    let e₁ : Element := ⟨.html, "div", [⟨"id", "a"⟩, ⟨"style", "width:9em;text-align:center"⟩,
      ⟨"width", "50"⟩]⟩
    let e₂ : Element := ⟨.html, "div", [⟨"style", "width:9em;text-align:center"⟩, ⟨"width", "50"⟩,
      ⟨"id", "a"⟩]⟩
    let f₁ : Forest := ⟨#[⟨none, [1], .document⟩, ⟨some 0, [2], .element e₁⟩,
      ⟨some 1, [], .text "x"⟩]⟩
    let f₂ : Forest := ⟨#[⟨none, [1], .document⟩, ⟨some 0, [2], .element e₂⟩,
      ⟨some 1, [], .text "x"⟩]⟩
    f₁.WellFormed ∧ f₂.WellFormed ∧ f₁.element? 1 = some e₁ ∧ f₂.element? 1 = some e₂ ∧
      ∃ g₁ g₂ parts₁ parts₂, convertToTable f₁ 1 = .ok (g₁, true) ∧
        convertToTable f₂ 1 = .ok (g₂, true) ∧ Replaced f₁ g₁ 1 0 parts₁ ∧
        Replaced f₂ g₂ 1 0 parts₂ ∧ parts₁.table = parts₂.table ∧
        (∀ name, parts₁.cell.attribute? name = parts₂.cell.attribute? name) ∧
        parts₁.cell.attribute? "width" ≠ some "100%" ∧
        parts₁.cell.attribute? "align" = some "center" := by
  intro e₁ e₂ f₁ f₂
  let ds : List Declaration := [⟨"width", "9em"⟩, ⟨"text-align", "center"⟩]
  have hf₁ : f₁.WellFormed := Forest.wellFormed_of_forall (by decide)
  have hf₂ : f₂.WellFormed := Forest.wellFormed_of_forall (by decide)
  have he₁ : f₁.element? 1 = some e₁ := by decide +kernel
  have he₂ : f₂.element? 1 = some e₂ := by decide +kernel
  have hparent₁ : f₁.parent? 1 = some 0 := by decide +kernel
  have hparent₂ : f₂.parent? 1 = some 0 := by decide +kernel
  have hread : parseDeclarations "width:9em;text-align:center" = .ok ds := by decide +kernel
  have hside : ∀ a ∈ e₁.attributes, Contested ds a →
      (a ∈ behindStyle e₁.attributes ↔ a ∈ behindStyle e₂.attributes) := by decide +kernel
  obtain ⟨g₁, g₂, parts₁, parts₂, hrun₁, hrun₂, hreplaced₁, hreplaced₂, htable, hcell, hwidth,
    hfilled⟩ := convertToTable_order hf₁ hf₂ he₁ he₂ hparent₁ hparent₂ (by decide +kernel)
      (by decide +kernel)
      (s := ⟨"style", "width:9em;text-align:center"⟩) (by decide +kernel) (by decide +kernel) hread
  refine ⟨hf₁, hf₂, he₁, he₂, g₁, g₂, parts₁, parts₂, hrun₁, hrun₂, hreplaced₁, hreplaced₂, htable,
    fun name => (hcell name).2 fun a ha _ => hside a ha, ?_, ?_⟩
  · rw [ne_eq, hwidth (by decide +kernel)]
    decide +kernel
  · exact (hfilled "align" (by decide) "center" (by decide +kernel) (by decide +kernel)).2
      (by decide +kernel)

/-- A width and an empty alignment behind the style take the place of what the style gave. -/
theorem convertToTable_order_style_first :
    let e₁ : Element := ⟨.html, "div", [⟨"style", "width:9em;text-align:center"⟩, ⟨"width", "50"⟩,
      ⟨"align", ""⟩]⟩
    let e₂ : Element := ⟨.html, "div", [⟨"width", "50"⟩, ⟨"align", ""⟩,
      ⟨"style", "width:9em;text-align:center"⟩]⟩
    let f₁ : Forest := ⟨#[⟨none, [1], .document⟩, ⟨some 0, [2], .element e₁⟩,
      ⟨some 1, [], .text "x"⟩]⟩
    let f₂ : Forest := ⟨#[⟨none, [1], .document⟩, ⟨some 0, [2], .element e₂⟩,
      ⟨some 1, [], .text "x"⟩]⟩
    f₁.WellFormed ∧ f₂.WellFormed ∧ f₁.element? 1 = some e₁ ∧ f₂.element? 1 = some e₂ ∧
      f₁.parent? 1 = some 0 ∧ f₂.parent? 1 = some 0 ∧ Attributes.Distinct e₁.attributes ∧
      e₁.attributes.Perm e₂.attributes ∧
      e₁.declarations = .ok [⟨"width", "9em"⟩, ⟨"text-align", "center"⟩] ∧
      (convertToTable f₁ 1).map (fun r => (r.2, (r.1.element? 5).map Element.attributes)) =
        .ok (true, some [⟨"width", "50"⟩, ⟨"align", ""⟩]) ∧
      (convertToTable f₂ 1).map (fun r => (r.2, (r.1.element? 5).map Element.attributes)) =
        .ok (true, some [⟨"width", "100%"⟩, ⟨"align", "center"⟩]) := by
  intro e₁ e₂ f₁ f₂
  exact ⟨Forest.wellFormed_of_forall (by decide), Forest.wellFormed_of_forall (by decide),
    by decide +kernel, by decide +kernel, by decide +kernel, by decide +kernel, by decide +kernel,
    by decide +kernel, by decide +kernel, by decide +kernel, by decide +kernel⟩

end StyleInliner.Inline
