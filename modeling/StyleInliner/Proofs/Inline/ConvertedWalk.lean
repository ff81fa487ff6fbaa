/-
The walk over a converted tree.

Where the walk over the tree before the pass meets an element that was replaced,
the walk after it meets the table, its row and its cell, and then goes on with
what was in the element (`Converted.preorder_place`).  So nothing that is left
where it was changes its place in the walk, and nothing comes twice.

The converted tree is well-formed again.  A way up in it goes up in the old tree,
or it stays in one table and goes from the cell towards the table, so it cannot
lead back to where it started.
-/
import Mathlib.Data.List.Nodup
import StyleInliner.Proofs.Dom.Preorder
import StyleInliner.Proofs.Inline.Conversion

namespace StyleInliner.Inline

open StyleInliner.Dom

namespace Tables

variable {tables : Tables} {m n : Nat}

/-- The nodes that stand for a node, from the top. -/
def nodesFor (tables : Tables) (n : Nat) : List Nat :=
  match tables n with
  | none => [n]
  | some t => [t, t + 1, t + 2]

theorem mem_nodesFor : m ∈ tables.nodesFor n ↔ tables.StandsFor m n := by
  unfold nodesFor StandsFor PartFor
  cases tables n <;> simp

end Tables

namespace Converted

variable {f g : Forest} {tables : Tables} (h : Converted f g tables) (hf : f.WellFormed)
include h

/-! ### The converted tree is well-formed -/

/-- Every node that has children has those of an old node, or is the table or the row of a table. -/
theorem children_cases {p c : Nat} (hc : c ∈ g.children p) :
    (∃ k, k < f.size ∧ p = tables.holder k) ∨
      ∃ k t, tables k = some t ∧ (p = t ∨ p = t + 1) := by
  have hp := Forest.lt_size_of_mem_children hc
  by_cases hold : p < f.size
  · cases ht : tables p with
    | none => exact Or.inl ⟨p, hold, (Tables.holder_of_none ht).symm⟩
    | some t =>
        obtain ⟨e, parts, -, -, htable⟩ := h.table ht
        rw [htable.children_old] at hc
        cases hc
  · obtain ⟨k, t, ht, hpart⟩ := h.covered (Nat.le_of_not_lt hold) hp
    rcases hpart with rfl | rfl | rfl
    · exact Or.inr ⟨k, p, ht, Or.inl rfl⟩
    · exact Or.inr ⟨k, t, ht, Or.inr rfl⟩
    · exact Or.inl ⟨k, (h.bounds ht).1, (Tables.holder_of_some ht).symm⟩

/-- Going up from a node is going up in the old tree, or towards the top of a table. -/
theorem parent?_cases {m q : Nat} (hq : g.parent? m = some q) :
    (∃ k p, f.parent? k = some p ∧ m = tables.place k ∧ q = tables.holder p) ∨
      ∃ k t, tables k = some t ∧ (m = t + 1 ∧ q = t ∨ m = t + 2 ∧ q = t + 1) := by
  have hplace : ∀ {k : Nat}, k < f.size → m = tables.place k →
      ∃ k p, f.parent? k = some p ∧ m = tables.place k ∧ q = tables.holder p := by
    rintro k hk rfl
    rw [h.parent?_place hk] at hq
    obtain ⟨p, hp, rfl⟩ := Option.map_eq_some_iff.1 hq
    exact ⟨k, p, hp, rfl, rfl⟩
  by_cases hold : m < f.size
  · cases ht : tables m with
    | none => exact Or.inl (hplace hold (Tables.place_of_none ht).symm)
    | some t =>
        obtain ⟨e, parts, -, -, htable⟩ := h.table ht
        rw [htable.parent?_old] at hq
        cases hq
  · obtain ⟨k, t, ht, hpart⟩ := h.covered (Nat.le_of_not_lt hold) (Forest.lt_size_of_parent? hq)
    obtain ⟨e, parts, -, -, htable⟩ := h.table ht
    rcases hpart with rfl | rfl | rfl
    · exact Or.inl (hplace (h.bounds ht).1 (Tables.place_of_some ht).symm)
    · exact Or.inr ⟨k, t, ht, Or.inl ⟨rfl, Option.some.inj (hq.symm.trans htable.parent?_row)⟩⟩
    · exact Or.inr ⟨k, t, ht, Or.inr ⟨rfl, Option.some.inj (hq.symm.trans htable.parent?_cell)⟩⟩

include hf

/-- A way up leads up in the old tree, or it stays in a table and leads to a smaller number. -/
theorem exists_of_transGen {m q k : Nat} (hmq : Relation.TransGen g.ChildOf m q)
    (hk : k < f.size) (hm : tables.StandsFor m k) :
    ∃ n, n < f.size ∧ tables.StandsFor q n ∧
      (Relation.TransGen f.ChildOf k n ∨ k = n ∧ q < m) := by
  have hstep : ∀ {x y n : Nat}, g.ChildOf x y → n < f.size → tables.StandsFor x n →
      ∃ n', n' < f.size ∧ tables.StandsFor y n' ∧ (f.ChildOf n n' ∨ n = n' ∧ y < x) := by
    intro x y n hxy hn hx
    rcases h.parent?_cases hxy with ⟨a, p, hp, rfl, rfl⟩ | ⟨a, t, ht, hpart⟩
    · obtain rfl := h.standsFor_unique (standsFor_place tables a) hx
        (Forest.lt_size_of_parent? hp) hn
      exact ⟨p, Forest.lt_size_of_mem_children (hf.mem_children_iff.2 hp),
        standsFor_holder tables p, Or.inl hp⟩
    · have hxa : tables.StandsFor x a := Or.inr ⟨t, ht, by omega⟩
      obtain rfl := h.standsFor_unique hxa hx (h.bounds ht).1 hn
      exact ⟨a, hn, Or.inr ⟨t, ht, by omega⟩, Or.inr ⟨rfl, by omega⟩⟩
  induction hmq with
  | single hup =>
      obtain ⟨n, hn, hq, hway⟩ := hstep hup hk hm
      exact ⟨n, hn, hq, hway.imp_left Relation.TransGen.single⟩
  | tail _ hup ih =>
      obtain ⟨x, hx, hstands, hway⟩ := ih
      obtain ⟨n, hn, hq, hway'⟩ := hstep hup hx hstands
      refine ⟨n, hn, hq, ?_⟩
      rcases hway with hway | ⟨rfl, hlt⟩ <;> rcases hway' with hway' | ⟨rfl, hlt'⟩
      · exact Or.inl (hway.tail hway')
      · exact Or.inl hway
      · exact Or.inl (Relation.TransGen.single hway')
      · exact Or.inr ⟨rfl, Nat.lt_trans hlt' hlt⟩

/-- **The converted tree is well-formed.** -/
theorem wellFormed : g.WellFormed := by
  constructor
  · intro p c
    constructor
    · intro hc
      rcases h.children_cases hc with ⟨k, hk, rfl⟩ | ⟨k, t, ht, hp⟩
      · rw [h.children_holder hk] at hc
        obtain ⟨a, ha, rfl⟩ := List.mem_map.1 hc
        rw [h.parent?_place (hf.lt_size_of_child ha), hf.mem_children_iff.1 ha, Option.map_some]
      · obtain ⟨e, parts, -, -, htable⟩ := h.table ht
        rcases hp with rfl | rfl
        · rw [htable.children_table, List.mem_singleton] at hc
          rw [hc, htable.parent?_row]
        · rw [htable.children_row, List.mem_singleton] at hc
          rw [hc, htable.parent?_cell]
    · intro hp
      rcases h.parent?_cases hp with ⟨k, q, hq, rfl, rfl⟩ | ⟨k, t, ht, hpart⟩
      · have hmem := hf.mem_children_iff.2 hq
        rw [h.children_holder (Forest.lt_size_of_mem_children hmem)]
        exact List.mem_map.2 ⟨k, hmem, rfl⟩
      · obtain ⟨e, parts, -, -, htable⟩ := h.table ht
        rcases hpart with ⟨rfl, rfl⟩ | ⟨rfl, rfl⟩
        · simp [htable.children_table]
        · simp [htable.children_row]
  · intro p
    by_contra hnodup
    obtain ⟨c, hc⟩ : ∃ c, c ∈ g.children p := by
      refine List.exists_mem_of_ne_nil _ fun hnil => hnodup ?_
      rw [hnil]
      exact List.nodup_nil
    refine hnodup ?_
    rcases h.children_cases hc with ⟨k, hk, rfl⟩ | ⟨k, t, ht, hp⟩
    · rw [h.children_holder hk]
      refine List.Nodup.map_on (fun a ha b hb heq => ?_) (hf.nodup_children k)
      exact h.place_injective (hf.lt_size_of_child ha) (hf.lt_size_of_child hb) heq
    · obtain ⟨e, parts, -, -, htable⟩ := h.table ht
      rcases hp with rfl | rfl
      · simp [htable.children_table]
      · simp [htable.children_row]
  · intro m hm
    obtain ⟨q, hq, -⟩ := Relation.TransGen.head'_iff.1 hm
    obtain ⟨k, hk, hstands⟩ : ∃ k, k < f.size ∧ tables.StandsFor m k := by
      rcases h.parent?_cases hq with ⟨k, p, hp, rfl, -⟩ | ⟨k, t, ht, hpart⟩
      · exact ⟨k, Forest.lt_size_of_parent? hp, standsFor_place tables k⟩
      · exact ⟨k, (h.bounds ht).1, Or.inr ⟨t, ht, by omega⟩⟩
    obtain ⟨n, hn, hstands', hway⟩ := h.exists_of_transGen hf hm hk hstands
    obtain rfl := h.standsFor_unique hstands hstands' hk hn
    rcases hway with hway | ⟨-, hlt⟩
    · exact hf.acyclic k hway
    · exact Nat.lt_irrefl m hlt

/-! ### What the walk meets -/

/-- **The walk meets the parts of a table where it met what the table was made for.** -/
theorem preorder_place {n : Nat} (hn : n < f.size) :
    g.preorder (tables.place n) = (f.preorder n).flatMap tables.nodesFor := by
  have hg := h.wellFormed hf
  refine Forest.induction_children (P := fun n =>
    g.preorder (tables.place n) = (f.preorder n).flatMap tables.nodesFor) hf ?_ hn
  intro n hn ih
  have hbelow : (g.children (tables.holder n)).flatMap g.preorder =
      ((f.children n).flatMap f.preorder).flatMap tables.nodesFor := by
    rw [h.children_holder hn, List.flatMap_map, List.flatMap_assoc]
    exact List.flatMap_congr ih
  rw [Forest.preorder_eq hf hn, List.flatMap_cons, ← hbelow]
  cases ht : tables n with
  | none =>
      rw [Tables.place_of_none ht, Tables.holder_of_none ht,
        Forest.preorder_eq hg (Nat.lt_of_lt_of_le hn h.size_le), Tables.nodesFor, ht]
      rfl
  | some t =>
      obtain ⟨e, parts, -, -, htable⟩ := h.table ht
      have hcell : t + 2 < g.size := (h.bounds ht).2.2
      have hrow : t + 1 < g.size := Nat.lt_of_succ_lt hcell
      rw [Tables.place_of_some ht, Tables.holder_of_some ht, Tables.nodesFor, ht,
        Forest.preorder_eq hg (Nat.lt_of_succ_lt hrow), htable.children_table,
        List.flatMap_singleton, Forest.preorder_eq hg hrow, htable.children_row,
        List.flatMap_singleton, Forest.preorder_eq hg hcell]
      rfl

omit h hf in
/-- What is picked from the nodes for each node can be picked from the nodes themselves, if tables
and what they are made for have nothing to pick. -/
theorem filterMap_flatMap_nodesFor {β : Type} {after before : Nat → Option β} {l : List Nat}
    (hkept : ∀ n ∈ l, tables n = none → after n = before n)
    (htable : ∀ n ∈ l, ∀ t, tables n = some t → before n = none ∧
      ∀ m ∈ tables.nodesFor n, after m = none) :
    (l.flatMap tables.nodesFor).filterMap after = l.filterMap before := by
  induction l with
  | nil => rfl
  | cons n l ih =>
      have hrest := ih (fun m hm => hkept m (List.mem_cons_of_mem n hm))
        fun m hm => htable m (List.mem_cons_of_mem n hm)
      rw [List.flatMap_cons, List.filterMap_append, hrest]
      cases ht : tables n with
      | none =>
          rw [Tables.nodesFor, ht, List.filterMap_cons, List.filterMap_nil, List.filterMap_cons,
            hkept n (by simp) ht]
          cases before n <;> rfl
      | some t =>
          obtain ⟨hbefore, hafter⟩ := htable n (by simp) t ht
          rw [List.filterMap_eq_nil_iff.2 hafter, List.filterMap_cons, hbefore]
          rfl

/-- The nodes that are left where they were come in the same order. -/
theorem filter_preorder_place {p : Nat → Bool} (hp : ∀ n, p n = true → n < f.size ∧ tables n = none)
    {n : Nat} (hn : n < f.size) :
    (g.preorder (tables.place n)).filter p = (f.preorder n).filter p := by
  rw [h.preorder_place hf hn, ← List.filterMap_eq_filter]
  refine filterMap_flatMap_nodesFor (fun _ _ _ => rfl) fun m _ t ht => ?_
  have hout : ∀ k, (f.size ≤ k ∨ tables k ≠ none) → Option.guard p k = none := by
    intro k hk
    rw [Option.guard_eq_none_iff, Bool.eq_false_iff]
    intro hpk
    obtain ⟨hlt, hnone⟩ := hp k hpk
    rcases hk with hk | hk
    · omega
    · exact hk hnone
  refine ⟨hout m (Or.inr (by simp [ht])), fun k hk => hout k (Or.inl ?_)⟩
  have hfresh := (h.bounds ht).2.1
  rw [Tables.nodesFor, ht] at hk
  simp only [List.mem_cons, List.not_mem_nil, or_false] at hk
  omega

/-! ### What is below what -/

omit hf in
/-- What was below a node is below what stands in its place. -/
theorem below_place {a b : Nat} (hab : f.Below a b) :
    g.Below (tables.place a) (tables.place b) := by
  -- the cell that has what was in a node is below the table in the place of the node
  have hholder : ∀ p, g.Below (tables.holder p) (tables.place p) := by
    intro p
    cases ht : tables p with
    | none =>
        rw [Tables.holder_of_none ht, Tables.place_of_none ht]
        exact Relation.ReflTransGen.refl
    | some t =>
        obtain ⟨e, parts, -, -, htable⟩ := h.table ht
        rw [Tables.holder_of_some ht, Tables.place_of_some ht]
        exact Relation.ReflTransGen.head htable.parent?_cell
          (Relation.ReflTransGen.single htable.parent?_row)
  induction hab using Relation.ReflTransGen.head_induction_on with
  | refl => exact Relation.ReflTransGen.refl
  | @head a p hp _ ih =>
      have hup : g.ChildOf (tables.place a) (tables.holder p) := by
        rw [Forest.ChildOf, h.parent?_place (Forest.lt_size_of_parent? hp), hp, Option.map_some]
      exact ((hholder p).trans ih).head hup

/-- **Of two nodes that were left where they were, one is below the other just when it was.** -/
theorem below_iff {a b : Nat} (ha : a < f.size) (hb : b < f.size) (hna : tables a = none)
    (hnb : tables b = none) : g.Below a b ↔ f.Below a b := by
  constructor
  · intro hab
    obtain ⟨n, hn, hstands, hbelow⟩ := h.exists_standsFor_of_below hf hab hb hnb
    obtain rfl := h.standsFor_unique (Or.inl ⟨hna, rfl⟩) hstands ha hn
    exact hbelow
  · intro hab
    have hplaced := h.below_place hab
    rwa [(h.place_eq_iff ha).2 ⟨hna, rfl⟩, (h.place_eq_iff hb).2 ⟨hnb, rfl⟩] at hplaced

end Converted

end StyleInliner.Inline
