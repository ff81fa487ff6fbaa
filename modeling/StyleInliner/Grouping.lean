/-
Values grouped by a name.

Groups stand in the order in which their names first came, the values of a group
in the order in which they came, and no value is ever dropped as a duplicate.
No two groups have the same name; the type says so, and `Grouping.add` keeps it.
-/

namespace StyleInliner

/-- Adds values to the group of a name, or at the end as a group of its own. -/
def extendGroup {α : Type} (name : String) (added : List α) :
    List (String × List α) → List (String × List α)
  | [] => [(name, added)]
  | (other, values) :: groups =>
    if other = name then (other, values ++ added) :: groups
    else (other, values) :: extendGroup name added groups

theorem names_extendGroup {α : Type} (name : String) (added : List α)
    (groups : List (String × List α)) :
    (extendGroup name added groups).map Prod.fst =
      if name ∈ groups.map Prod.fst then groups.map Prod.fst
      else groups.map Prod.fst ++ [name] := by
  induction groups with
  | nil => simp [extendGroup]
  | cons group groups ih =>
    obtain ⟨other, values⟩ := group
    unfold extendGroup
    by_cases h : other = name
    · simp [h]
    · have h' : name ≠ other := fun e => h e.symm
      simp only [h, if_false, List.map_cons, ih, List.mem_cons, h', false_or]
      split <;> simp

/-- Values by name, in the order in which the names were first used. -/
structure Grouping (α : Type) where
  groups : List (String × List α)
  nodup_names : (groups.map Prod.fst).Nodup
  deriving Repr

namespace Grouping

variable {α : Type}

/-- The grouping of nothing. -/
def empty : Grouping α :=
  ⟨[], by simp⟩

instance : Inhabited (Grouping α) :=
  ⟨empty⟩

/-- The names that have a group. -/
def names (g : Grouping α) : List String :=
  g.groups.map Prod.fst

/-- How many groups there are. -/
def size (g : Grouping α) : Nat :=
  g.groups.length

/-- Whether there is no group. -/
def isEmpty (g : Grouping α) : Bool :=
  g.groups.isEmpty

/-- The values under a name. -/
def get? (g : Grouping α) (name : String) : Option (List α) :=
  (g.groups.find? (·.1 == name)).map Prod.snd

/-- Adds values under a name. -/
def add (g : Grouping α) (name : String) (values : List α) : Grouping α where
  groups := extendGroup name values g.groups
  nodup_names := by
    rw [names_extendGroup]
    split
    · exact g.nodup_names
    · rename_i h
      refine List.nodup_append.2 ⟨g.nodup_names, by simp, ?_⟩
      rintro a ha b hb rfl
      exact h (List.mem_singleton.1 hb ▸ ha)

end Grouping

end StyleInliner
