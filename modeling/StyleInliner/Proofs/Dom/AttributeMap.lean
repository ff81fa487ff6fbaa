/-
The attributes of an element are an ordered map.

Its keys are names in any letter case.  What makes it a map is that no two attributes
answer to one name (`Attributes.Distinct`): only the first attribute of a name is ever
found or taken out, so a second one would show up when that one is gone.  No edit of an
element breaks this (`AttributeEdit.distinct_apply`), so it holds after any run of edits
that begins without attributes.

Each edit is told twice, as a change of the map and as a change of the list
(`AttributeSet`, `AttributeTaken`, `AttributesCompleted`).  The list says what the map
cannot: attributes that stay keep their spelling and their order, and new ones come last.
-/
import StyleInliner.Proofs.Dom.Element

namespace StyleInliner.Dom

open StyleInliner.Text

/-! ### Lists -/

namespace Attributes

variable {attributes : List Attribute} {name : String}

theorem has_cons (a : Attribute) (rest : List Attribute) (name : String) :
    has (a :: rest) name = (a.isNamed name || has rest name) := by
  rw [has_eq_any, List.any_cons, has_eq_any]
  rfl

theorem has_append (attributes more : List Attribute) (name : String) :
    has (attributes ++ more) name = (has attributes name || has more name) := by
  simp [has_eq_any]

theorem has_congr {other : String} (h : lower name = lower other) :
    has attributes name = has attributes other := by
  rw [has_eq_any, has_eq_any, h]

/-- Behind an attribute of a name there is no other one of it. -/
theorem Distinct.isNamed_eq_false {a b : Attribute} {rest : List Attribute}
    (h : Distinct (a :: rest)) (ha : a.isNamed name = true) (hb : b ∈ rest) :
    b.isNamed name = false := by
  rw [Bool.eq_false_iff, Ne, Attribute.isNamed_iff, ← Attribute.isNamed_iff.1 ha]
  exact fun hname => (List.nodup_cons.1 h).1 (List.mem_map.2 ⟨b, hb, hname⟩)

theorem Distinct.tail {a : Attribute} {rest : List Attribute} (h : Distinct (a :: rest)) :
    Distinct rest :=
  (List.nodup_cons.1 h).2

/-- In a list with distinct names setting changes the one attribute of the name, or adds one. -/
theorem set_eq (h : Distinct attributes) (name value : String) :
    set name value attributes =
      if has attributes name then
        attributes.map fun a => if a.isNamed name then { a with value } else a
      else attributes ++ [⟨lower name, value⟩] := by
  induction attributes with
  | nil => rfl
  | cons a rest ih =>
      rw [set, has_cons, List.map_cons]
      by_cases hname : a.isNamed name = true
      · have hrest : (rest.map fun b => if b.isNamed name then { b with value } else b) = rest := by
          refine (List.map_congr_left fun b hb => ?_).trans (List.map_id rest)
          rw [h.isNamed_eq_false hname hb]
          rfl
        rw [if_pos hname, hname, Bool.true_or, if_pos rfl, if_pos rfl, hrest]
      · rw [if_neg hname, ih h.tail, Bool.eq_false_iff.2 hname, Bool.false_or]
        simp only [Bool.false_eq_true, if_false]
        split <;> rfl

/-- In a list with distinct names taking out leaves all attributes of other names. -/
theorem getThenRemove_snd (h : Distinct attributes) (name : String) :
    (getThenRemove name attributes).2 = attributes.filter fun a => !a.isNamed name := by
  induction attributes with
  | nil => rfl
  | cons a rest ih =>
      rw [getThenRemove_cons_snd]
      by_cases hname : a.isNamed name = true
      · have hrest : (rest.filter fun b => !b.isNamed name) = rest :=
          List.filter_eq_self.2 fun b hb => by rw [h.isNamed_eq_false hname hb]; rfl
        rw [if_pos hname, List.filter_cons_of_neg (by simp [hname]), hrest]
      · rw [if_neg hname, List.filter_cons_of_pos (by simp [hname]), ih h.tail]

theorem getThenRemove_fst (name : String) (attributes : List Attribute) :
    (getThenRemove name attributes).1 = get? attributes name := by
  induction attributes with
  | nil => rfl
  | cons a rest ih =>
      rw [getThenRemove, get?_cons, ← ih]
      simp only [← Attribute.isNamed_iff]
      split <;> rfl

/-! ### Adding what is missing -/

theorem addMissing_cons (attributes : List Attribute) (a : Attribute) (added : List Attribute) :
    addMissing attributes (a :: added) =
      addMissing (if has attributes a.name then attributes else attributes ++ [a]) added :=
  rfl

/-- The attributes of a list that no attribute before them shares its name with. -/
def firsts : List Attribute → List Attribute
  | [] => []
  | a :: rest => a :: (firsts rest).filter fun b => !b.isNamed a.name

/-- What is missing is added behind the list, in the order in which it is given. -/
theorem addMissing_eq (attributes added : List Attribute) :
    addMissing attributes added =
      attributes ++ (firsts added).filter fun a => !has attributes a.name := by
  induction added generalizing attributes with
  | nil => simp [addMissing, firsts]
  | cons a added ih =>
      rw [addMissing_cons, ih, firsts]
      by_cases ha : has attributes a.name = true
      · -- nothing of that name is missing, so leaving out what follows of it does not matter
        rw [if_pos ha, List.filter_cons_of_neg (by simp [ha]), List.filter_filter]
        congr 1
        refine List.filter_congr fun b _ => ?_
        by_cases hb : b.isNamed a.name = true
        · rw [has_congr (Attribute.isNamed_iff.1 hb), ha]
          rfl
        · simp [hb]
      · rw [if_neg ha, List.filter_cons_of_pos (by simp [ha]), List.filter_filter,
          List.append_assoc, List.singleton_append]
        congr 2
        refine List.filter_congr fun b _ => ?_
        rw [has_append, has_cons, Attribute.isNamed, sameIgnoringCase_comm]
        simp [Attribute.isNamed, has]

/-- What is there already keeps its value, and of what is missing the first value counts. -/
theorem get?_addMissing (attributes added : List Attribute) (name : String) :
    get? (addMissing attributes added) name = (get? attributes name).or (get? added name) := by
  induction added generalizing attributes with
  | nil => simp [addMissing]
  | cons a added ih =>
      rw [addMissing_cons, ih, get?_cons a added]
      by_cases ha : has attributes a.name = true
      · rw [if_pos ha]
        split
        · rename_i hname
          rw [has_congr hname] at ha
          obtain ⟨value, hvalue⟩ := Option.isSome_iff_exists.1 ha
          rw [hvalue, Option.some_or, Option.some_or]
        · rfl
      · rw [if_neg ha, get?_append, Option.or_assoc, get?_cons, get?_nil]
        split <;> rfl

theorem Distinct.concat {a : Attribute} (h : Distinct attributes)
    (hnew : has attributes a.name = false) : Distinct (attributes ++ [a]) := by
  rw [has, Option.isSome_eq_false_iff, Option.isNone_iff_eq_none, get?_eq_none_iff] at hnew
  rw [Distinct, lowerNames, List.map_append, List.map_singleton, ← List.concat_eq_append]
  exact List.Nodup.concat hnew h

theorem Distinct.addMissing (h : Distinct attributes) (added : List Attribute) :
    Distinct (addMissing attributes added) := by
  induction added generalizing attributes with
  | nil => exact h
  | cons a added ih =>
      rw [addMissing_cons]
      refine ih ?_
      split
      · exact h
      · rename_i hnew
        exact h.concat (Bool.eq_false_iff.2 hnew)

end Attributes

/-! ### Edits -/

/-- A change of the attributes of an element. -/
inductive AttributeEdit where
  | set (name value : String)
  | remove (name : String)
  | addMissing (added : List Attribute)
  deriving DecidableEq, Repr

namespace AttributeEdit

/-- The element after an edit. -/
def apply (e : Element) : AttributeEdit → Element
  | set name value => e.setAttribute name value
  | remove name => (e.getThenRemoveAttribute name).2
  | addMissing added => e.addMissingAttributes added

/-- **No edit gives an element two attributes of one name.** -/
theorem distinct_apply {e : Element} (h : Attributes.Distinct e.attributes)
    (edit : AttributeEdit) : Attributes.Distinct (edit.apply e).attributes := by
  cases edit with
  | set name value => exact h.set name value
  | remove name => exact h.getThenRemove name
  | addMissing added => exact h.addMissing added

theorem distinct_foldl_apply {e : Element} (h : Attributes.Distinct e.attributes)
    (edits : List AttributeEdit) : Attributes.Distinct (edits.foldl apply e).attributes := by
  induction edits generalizing e with
  | nil => exact h
  | cons edit edits ih => exact ih (distinct_apply h edit)

end AttributeEdit

/-- An attribute was given a value.  It keeps its place and the spelling of its name, or it comes
last and its name is lower-cased. -/
structure AttributeSet (e e' : Element) (name value : String) : Prop where
  attribute?_eq : ∀ other, e'.attribute? other =
    if lower other = lower name then some value else e.attribute? other
  element_eq : e' =
    { e with
      attributes :=
        if e.hasAttribute name then
          e.attributes.map fun a => if a.isNamed name then { a with value } else a
        else e.attributes ++ [⟨lower name, value⟩] }

/-- An attribute was taken out and its value given; the others are left as they were. -/
structure AttributeTaken (e : Element) (value : Option String) (e' : Element) (name : String) :
    Prop where
  value_eq : value = e.attribute? name
  attribute?_eq : ∀ other, e'.attribute? other =
    if lower other = lower name then none else e.attribute? other
  element_eq : e' =
    { e with
      attributes := e.attributes.filter fun a => !a.isNamed name }

/-- The attributes that were missing were added.  They come last, as they are spelled, each where
its name is given first. -/
structure AttributesCompleted (e e' : Element) (added : List Attribute) : Prop where
  attribute?_eq : ∀ other, e'.attribute? other =
    (e.attribute? other).or (Attributes.get? added other)
  element_eq : e' =
    { e with
      attributes :=
        e.attributes ++ (Attributes.firsts added).filter fun a => !e.hasAttribute a.name }

theorem attributesCompleted_addMissingAttributes (e : Element) (added : List Attribute) :
    AttributesCompleted e (e.addMissingAttributes added) added where
  attribute?_eq := Attributes.get?_addMissing e.attributes added
  element_eq := by
    rw [Element.addMissingAttributes, Attributes.addMissing_eq]
    rfl

section Edits

variable {e : Element} (h : Attributes.Distinct e.attributes)
include h

theorem attributeSet_setAttribute (name value : String) :
    AttributeSet e (e.setAttribute name value) name value where
  attribute?_eq other := by
    rw [Element.attribute?_setAttribute]
    exact if_congr eq_comm rfl rfl
  element_eq := by
    rw [Element.setAttribute, Attributes.set_eq h]
    rfl

theorem attributeTaken_getThenRemoveAttribute (name : String) :
    AttributeTaken e (e.getThenRemoveAttribute name).1 (e.getThenRemoveAttribute name).2 name := by
  have htaken : (e.getThenRemoveAttribute name).2 =
      { e with attributes := (Attributes.getThenRemove name e.attributes).2 } := rfl
  refine ⟨Attributes.getThenRemove_fst name e.attributes, fun other => ?_,
    by rw [htaken, Attributes.getThenRemove_snd h]⟩
  split
  · rename_i hname
    rw [Element.attribute?_congr hname]
    exact Attributes.get?_getThenRemove_self h name
  · rename_i hname
    exact Element.attribute?_removeAttribute (Ne.symm hname) e

end Edits

/-- **The attributes of an element are an ordered map.**  However it was edited since it had none,
no two of them answer to one name, and the next edit does to the map and to the list what it is
called for. -/
theorem attributes_ordered_map (ns : Namespace) (tag : String) (edits : List AttributeEdit) :
    let e := edits.foldl AttributeEdit.apply ⟨ns, tag, []⟩
    Attributes.Distinct e.attributes ∧
      (∀ name value, AttributeSet e (e.setAttribute name value) name value) ∧
      (∀ name, AttributeTaken e (e.getThenRemoveAttribute name).1
        (e.getThenRemoveAttribute name).2 name) ∧
      ∀ added, AttributesCompleted e (e.addMissingAttributes added) added := by
  intro e
  have hnone : Attributes.Distinct (⟨ns, tag, []⟩ : Element).attributes := List.nodup_nil
  have h : Attributes.Distinct e.attributes := AttributeEdit.distinct_foldl_apply hnone edits
  exact ⟨h, attributeSet_setAttribute h, attributeTaken_getThenRemoveAttribute h,
    attributesCompleted_addMissingAttributes e⟩

example :
    [AttributeEdit.set "Align" "left", .addMissing [⟨"colSpan", "2"⟩], .set "ALIGN" "right",
        .remove "colspan"].foldl AttributeEdit.apply (.ofTag "TD") =
      ⟨.html, "td", [⟨"align", "right"⟩]⟩ := by
  cbv

end StyleInliner.Dom
