/-
What is found under the names of an element's attributes.

Names that differ in letter case only answer to one another, so what is set under
one of them shows up under all of them and under no other (`get?_set`).  Attributes
of one name never disturb those of another.
-/
import Mathlib.Data.List.Nodup
import Mathlib.Tactic.Common
import StyleInliner.Dom.Element
import StyleInliner.Proofs.Text

namespace StyleInliner.Dom

open StyleInliner.Text

theorem Attribute.isNamed_iff {a : Attribute} {name : String} :
    a.isNamed name = true ↔ lower a.name = lower name := by
  simp [isNamed, sameIgnoringCase]

namespace Attributes

@[simp] theorem get?_nil (name : String) : get? [] name = none := rfl

theorem get?_cons (a : Attribute) (rest : List Attribute) (name : String) :
    get? (a :: rest) name = if lower a.name = lower name then some a.value else get? rest name := by
  rw [get?, List.find?_cons]
  by_cases h : lower a.name = lower name
  · rw [if_pos h, Attribute.isNamed_iff.2 h]
    rfl
  · rw [if_neg h, Bool.eq_false_iff.2 fun hn => h (Attribute.isNamed_iff.1 hn)]
    rfl

theorem get?_set (attributes : List Attribute) (name value other : String) :
    get? (set name value attributes) other =
      if lower name = lower other then some value else get? attributes other := by
  induction attributes with
  | nil => rw [set, get?_cons, lower_lower]
  | cons a rest ih =>
      rw [set]
      by_cases hname : lower a.name = lower name
      · rw [if_pos (Attribute.isNamed_iff.2 hname), get?_cons, get?_cons]
        simp only [hname]
        split <;> rfl
      · rw [if_neg fun h => hname (Attribute.isNamed_iff.1 h), get?_cons, get?_cons, ih]
        by_cases hother : lower a.name = lower other
        · rw [if_pos hother, if_neg fun h => hname (hother.trans h.symm), if_pos hother]
        · rw [if_neg hother, if_neg hother]

/-- Giving an attribute the value it has changes nothing. -/
theorem set_self {attributes : List Attribute} {name value : String}
    (h : get? attributes name = some value) : set name value attributes = attributes := by
  induction attributes with
  | nil => cases h
  | cons a rest ih =>
      rw [get?_cons] at h
      rw [set]
      by_cases hname : lower a.name = lower name
      · rw [if_pos hname, Option.some.injEq] at h
        rw [if_pos (Attribute.isNamed_iff.2 hname), ← h]
      · rw [if_neg hname] at h
        rw [if_neg fun hn => hname (Attribute.isNamed_iff.1 hn), ih h]

theorem getThenRemove_cons_snd (name : String) (a : Attribute) (rest : List Attribute) :
    (getThenRemove name (a :: rest)).2 =
      if a.isNamed name then rest else a :: (getThenRemove name rest).2 := by
  rw [getThenRemove]
  split <;> rfl

theorem get?_getThenRemove {name other : String} (h : lower name ≠ lower other)
    (attributes : List Attribute) :
    get? (getThenRemove name attributes).2 other = get? attributes other := by
  induction attributes with
  | nil => rfl
  | cons a rest ih =>
      rw [getThenRemove_cons_snd]
      by_cases hname : lower a.name = lower name
      · rw [if_pos (Attribute.isNamed_iff.2 hname), get?_cons,
          if_neg fun he => h (hname.symm.trans he)]
      · rw [if_neg fun he => hname (Attribute.isNamed_iff.1 he), get?_cons, get?_cons, ih]

/-! ### Lists with one attribute for each name -/

/-- The names that the attributes answer to. -/
def lowerNames (attributes : List Attribute) : List String :=
  attributes.map fun a => lower a.name

/-- No two attributes answer to one name. -/
def Distinct (attributes : List Attribute) : Prop :=
  (lowerNames attributes).Nodup

instance (attributes : List Attribute) : Decidable (Distinct attributes) :=
  inferInstanceAs (Decidable (List.Nodup _))

theorem get?_eq_none_iff {attributes : List Attribute} {name : String} :
    get? attributes name = none ↔ lower name ∉ lowerNames attributes := by
  induction attributes with
  | nil => simp [lowerNames]
  | cons a rest ih =>
      rw [get?_cons, lowerNames, List.map_cons, List.mem_cons, not_or]
      by_cases h : lower a.name = lower name
      · simp [h]
      · rw [if_neg h, ih]
        exact (and_iff_right (Ne.symm h)).symm

theorem has_eq_any (attributes : List Attribute) (name : String) :
    has attributes name = attributes.any fun a => lower a.name = lower name := by
  rw [has, get?, Option.isSome_map, List.isSome_find?]
  congr 1

/-- Setting an attribute keeps the names as they are spelled, or adds one behind them. -/
theorem names_set (name value : String) (attributes : List Attribute) :
    (set name value attributes).map Attribute.name =
      if lower name ∈ lowerNames attributes then attributes.map Attribute.name
      else attributes.map Attribute.name ++ [lower name] := by
  induction attributes with
  | nil => simp [set, lowerNames]
  | cons a rest ih =>
      rw [set]
      by_cases h : lower a.name = lower name
      · rw [if_pos (Attribute.isNamed_iff.2 h), if_pos]
        · rfl
        · exact List.mem_cons.2 (Or.inl h.symm)
      · have hmem : lower name ∈ lowerNames (a :: rest) ↔ lower name ∈ lowerNames rest := by
          rw [lowerNames, List.map_cons, List.mem_cons]
          exact or_iff_right (Ne.symm h)
        rw [if_neg fun hn => h (Attribute.isNamed_iff.1 hn), List.map_cons, ih]
        simp only [hmem]
        split <;> rfl

theorem lowerNames_set (name value : String) (attributes : List Attribute) :
    lowerNames (set name value attributes) =
      if lower name ∈ lowerNames attributes then lowerNames attributes
      else lowerNames attributes ++ [lower name] := by
  have hlower : ∀ l : List Attribute, lowerNames l = (l.map Attribute.name).map lower := by
    simp [lowerNames]
  rw [hlower, names_set]
  split
  · rw [hlower]
  · rw [hlower, List.map_append, List.map_singleton, lower_lower]

theorem Distinct.set {attributes : List Attribute} (h : Distinct attributes)
    (name value : String) : Distinct (set name value attributes) := by
  rw [Distinct, lowerNames_set]
  split
  · exact h
  · rename_i hnew
    rw [List.nodup_append]
    refine ⟨h, by simp, ?_⟩
    rintro a ha b hb rfl
    exact hnew (List.mem_singleton.1 hb ▸ ha)

theorem sublist_getThenRemove (name : String) (attributes : List Attribute) :
    (getThenRemove name attributes).2.Sublist attributes := by
  induction attributes with
  | nil => exact List.Sublist.slnil
  | cons a rest ih =>
      rw [getThenRemove_cons_snd]
      split
      · exact List.sublist_cons_self a rest
      · exact ih.cons_cons a

/-- What is taken out of a list with distinct names is not there any more. -/
theorem get?_getThenRemove_self {attributes : List Attribute} (h : Distinct attributes)
    (name : String) : get? (getThenRemove name attributes).2 name = none := by
  induction attributes with
  | nil => rfl
  | cons a rest ih =>
      obtain ⟨ha, hrest⟩ := List.nodup_cons.1 h
      rw [getThenRemove_cons_snd]
      split
      · rename_i hname
        rw [get?_eq_none_iff, ← Attribute.isNamed_iff.1 hname]
        exact ha
      · rename_i hname
        rw [get?_cons, if_neg fun he => hname (Attribute.isNamed_iff.2 he), ih hrest]

theorem Distinct.sublist {attributes fewer : List Attribute} (h : Distinct attributes)
    (hfewer : fewer.Sublist attributes) : Distinct fewer :=
  List.Nodup.sublist (hfewer.map _) h

theorem Distinct.perm {attributes attributes' : List Attribute} (h : Distinct attributes)
    (hperm : attributes.Perm attributes') : Distinct attributes' :=
  (hperm.map _).nodup_iff.1 h

theorem Distinct.getThenRemove {attributes : List Attribute} (h : Distinct attributes)
    (name : String) : Distinct (getThenRemove name attributes).2 :=
  h.sublist (sublist_getThenRemove name attributes)

/-- In a list with distinct names a name tells the attribute. -/
theorem Distinct.eq_of_isNamed {attributes : List Attribute} (h : Distinct attributes)
    {a b : Attribute} (ha : a ∈ attributes) (hb : b ∈ attributes) {name : String}
    (haname : a.isNamed name) (hbname : b.isNamed name) : a = b :=
  List.inj_on_of_nodup_map h ha hb
    ((Attribute.isNamed_iff.1 haname).trans (Attribute.isNamed_iff.1 hbname).symm)

/-- In a list with distinct names no two attributes answer to a name. -/
theorem Distinct.length_filter_le_one {attributes : List Attribute} (h : Distinct attributes)
    (name : String) : (attributes.filter (·.isNamed name)).length ≤ 1 := by
  have hcopies : lowerNames (attributes.filter (·.isNamed name)) =
      List.replicate (attributes.filter (·.isNamed name)).length (lower name) := by
    refine List.eq_replicate_iff.2 ⟨List.length_map _, fun x hx => ?_⟩
    obtain ⟨a, ha, rfl⟩ := List.mem_map.1 hx
    exact Attribute.isNamed_iff.1 (List.mem_filter.1 ha).2
  rw [← List.nodup_replicate (a := lower name), ← hcopies]
  exact h.sublist List.filter_sublist

/-- In a list with distinct names every attribute is the one found under its name. -/
theorem get?_eq_some_of_mem {attributes : List Attribute} (h : Distinct attributes)
    {a : Attribute} (ha : a ∈ attributes) {name : String} (hname : lower a.name = lower name) :
    get? attributes name = some a.value := by
  induction attributes with
  | nil => cases ha
  | cons b rest ih =>
      obtain ⟨hb, hrest⟩ := List.nodup_cons.1 h
      rw [get?_cons]
      rcases List.mem_cons.1 ha with rfl | ha
      · rw [if_pos hname]
      · rw [if_neg, ih hrest ha]
        intro he
        refine hb (List.mem_map.2 ⟨a, ha, ?_⟩)
        exact hname.trans he.symm

theorem get?_eq_none_of_forall {attributes : List Attribute} {name : String}
    (h : ∀ a ∈ attributes, a.isNamed name = false) : get? attributes name = none := by
  rw [get?, List.find?_eq_none.2 fun a ha => by simp [h a ha], Option.map_none]

theorem get?_append (attributes more : List Attribute) (name : String) :
    get? (attributes ++ more) name = (get? attributes name).or (get? more name) := by
  induction attributes with
  | nil => rfl
  | cons a rest ih =>
      rw [List.cons_append, get?_cons, get?_cons, ih]
      split <;> rfl

end Attributes

namespace Element

theorem attribute?_setAttribute (e : Element) (name value other : String) :
    (e.setAttribute name value).attribute? other =
      if lower name = lower other then some value else e.attribute? other :=
  Attributes.get?_set e.attributes name value other

theorem attribute?_setAttribute_of_ne {name other : String} (h : lower name ≠ lower other)
    (e : Element) (value : String) :
    (e.setAttribute name value).attribute? other = e.attribute? other := by
  rw [attribute?_setAttribute, if_neg h]

theorem setAttribute_self {e : Element} {name value : String}
    (h : e.attribute? name = some value) : e.setAttribute name value = e := by
  rw [setAttribute, Attributes.set_self h]

theorem attribute?_removeAttribute {name other : String} (h : lower name ≠ lower other)
    (e : Element) : (e.removeAttribute name).attribute? other = e.attribute? other :=
  Attributes.get?_getThenRemove h e.attributes

theorem fillAttribute_cases (e : Element) (name value : String) :
    e.fillAttribute name value = e ∨ e.fillAttribute name value = e.setAttribute name value := by
  unfold fillAttribute
  split
  · exact Or.inr rfl
  · split
    · exact Or.inr rfl
    · exact Or.inl rfl

theorem attribute?_fillAttribute_of_ne {name other : String} (h : lower name ≠ lower other)
    (e : Element) (value : String) :
    (e.fillAttribute name value).attribute? other = e.attribute? other := by
  rcases fillAttribute_cases e name value with heq | heq <;> rw [heq]
  exact attribute?_setAttribute_of_ne h e value

theorem name_fillAttribute (e : Element) (name value : String) :
    (e.fillAttribute name value).name = e.name := by
  rcases fillAttribute_cases e name value with heq | heq <;> rw [heq]
  rfl

theorem attribute?_congr {name other : String} (h : lower name = lower other) (e : Element) :
    e.attribute? name = e.attribute? other := by
  simp only [attribute?, Attributes.get?, Attribute.isNamed, sameIgnoringCase, h]

/-- Filling an attribute writes the value if nothing is there yet. -/
theorem attribute?_fillAttribute_of_eq {name other : String} (h : lower name = lower other)
    (e : Element) (value : String) :
    (e.fillAttribute name value).attribute? other =
      if (e.attribute? other).getD "" = "" then some value else e.attribute? other := by
  unfold fillAttribute
  rw [attribute?_congr h]
  split
  · rename_i hnone
    rw [attribute?_setAttribute, if_pos h, hnone]
    rfl
  · rename_i old hold
    rw [hold, Option.getD_some]
    split
    · rename_i hempty
      rw [attribute?_setAttribute, if_pos h, if_pos (String.isEmpty_iff.1 hempty)]
    · rename_i hempty
      rw [if_neg fun h => hempty (String.isEmpty_iff.2 h), hold]

/-- Filling an attribute touches none of another name, and none that holds something. -/
theorem attribute?_fillAttribute (e : Element) (name value other : String) :
    (e.fillAttribute name value).attribute? other = e.attribute? other ∨
      (e.attribute? other).getD "" = "" ∧
        (e.fillAttribute name value).attribute? other = some value := by
  by_cases hname : lower name = lower other
  · rw [attribute?_fillAttribute_of_eq hname]
    split
    · rename_i hempty
      exact Or.inr ⟨hempty, rfl⟩
    · exact Or.inl rfl
  · exact Or.inl (attribute?_fillAttribute_of_ne hname e value)

/-! ### Names in their order -/

/-- The names of the attributes, in their order and as they are spelled. -/
def attributeNames (e : Element) : List String :=
  e.attributes.map Attribute.name

/-- The names that are new to an element when some are written to one after the other: lower-cased,
and each where it is written to first. -/
def newNames (e : Element) (written : List String) : List String :=
  ((written.map lower).filter (· ∉ Attributes.lowerNames e.attributes)).eraseDups

/-- The names of the first element are kept, and behind them come those that are new to it. -/
def NamesAdded (written : List String) (e e' : Element) : Prop :=
  e'.attributeNames = e.attributeNames ++ e.newNames written

theorem NamesAdded.nil (e : Element) : NamesAdded [] e e := by
  simp [NamesAdded, newNames]

theorem lowerNames_eq (e : Element) :
    Attributes.lowerNames e.attributes = e.attributeNames.map lower := by
  simp [Attributes.lowerNames, attributeNames]

theorem NamesAdded.trans {written more : List String} {e e' e'' : Element}
    (h : NamesAdded written e e') (h' : NamesAdded more e' e'') :
    NamesAdded (written ++ more) e e'' := by
  have hlower : (e.newNames written).map lower = e.newNames written := by
    refine (List.map_congr_left fun name hname => ?_).trans (List.map_id _)
    obtain ⟨written, -, rfl⟩ := List.mem_map.1 (List.mem_filter.1 (List.mem_eraseDups.1 hname)).1
    exact lower_lower written
  have hnew : (more.map lower).filter (· ∉ Attributes.lowerNames e'.attributes) =
      ((more.map lower).filter (· ∉ Attributes.lowerNames e.attributes)).removeAll
        ((written.map lower).filter (· ∉ Attributes.lowerNames e.attributes)) := by
    rw [List.removeAll, List.filter_filter, lowerNames_eq e', h, List.map_append, ← lowerNames_eq,
      hlower]
    refine List.filter_congr fun name _ => ?_
    rw [Bool.eq_iff_iff]
    simp only [newNames, List.mem_append, List.mem_eraseDups, not_or, decide_eq_true_eq,
      List.elem_eq_mem, Bool.and_eq_true, Bool.not_eq_true', decide_eq_false_iff_not]
    tauto
  rw [NamesAdded, h', h, List.append_assoc, newNames, newNames, newNames, hnew, List.map_append,
    List.filter_append, List.eraseDups_append]

theorem namesAdded_setAttribute (e : Element) (name value : String) :
    NamesAdded [name] e (e.setAttribute name value) := by
  rw [NamesAdded, attributeNames, setAttribute, Attributes.names_set, newNames, attributeNames]
  by_cases h : lower name ∈ Attributes.lowerNames e.attributes
  · simp [h]
  · simp [h, List.eraseDups_cons]

theorem namesAdded_fillAttribute (e : Element) (name value : String) :
    NamesAdded [name] e (e.fillAttribute name value) := by
  unfold fillAttribute
  split
  · exact namesAdded_setAttribute e name value
  · rename_i old hold
    split
    · exact namesAdded_setAttribute e name value
    · -- there is an attribute of that name
      have hmem : lower name ∈ Attributes.lowerNames e.attributes := by
        by_contra hnew
        rw [attribute?, Attributes.get?_eq_none_iff.2 hnew] at hold
        cases hold
      simp [NamesAdded, newNames, hmem]

/-! ### What holds of all names -/

/-- Something holds of the names of all attributes, as they are spelled. -/
def AllNames (P : String → Prop) (e : Element) : Prop :=
  ∀ a ∈ e.attributes, P a.name

instance (P : String → Prop) [DecidablePred P] (e : Element) : Decidable (e.AllNames P) :=
  inferInstanceAs (Decidable (∀ a ∈ e.attributes, P a.name))

namespace AllNames

variable {P : String → Prop} {e : Element} (h : e.AllNames P)
include h

theorem setAttribute {name : String} (hname : P (lower name)) (value : String) :
    (e.setAttribute name value).AllNames P := by
  intro a ha
  have hmem : a.name ∈ (Attributes.set name value e.attributes).map Attribute.name :=
    List.mem_map_of_mem ha
  rw [Attributes.names_set] at hmem
  split at hmem
  · obtain ⟨b, hb, hsame⟩ := List.mem_map.1 hmem
    exact hsame ▸ h b hb
  · rcases List.mem_append.1 hmem with hmem | hmem
    · obtain ⟨b, hb, hsame⟩ := List.mem_map.1 hmem
      exact hsame ▸ h b hb
    · rwa [List.mem_singleton.1 hmem]

theorem fillAttribute {name : String} (hname : P (lower name)) (value : String) :
    (e.fillAttribute name value).AllNames P := by
  rcases fillAttribute_cases e name value with heq | heq <;> rw [heq]
  · exact h
  · exact h.setAttribute hname value

theorem removeAttribute (name : String) : (e.removeAttribute name).AllNames P := fun a ha =>
  h a ((Attributes.sublist_getThenRemove name e.attributes).subset ha)

end AllNames

end Element

end StyleInliner.Dom
