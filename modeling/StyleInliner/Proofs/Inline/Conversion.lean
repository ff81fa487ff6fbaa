/-
What the third pass makes of a tree.

`Converted` tells how the tree before the pass and a tree within it go together:
where a replaced element was there is now its table, and what it had in it is in
the cell of that table.  One step keeps this up (`Converted.install`), as long as
it replaces a node that was not replaced before; the pass meets no element twice.

A node of the later tree stands for one of the earlier tree, the parts of a table
for the element that was replaced.  Going up in the later tree is then going up,
or staying, in the earlier one, so nothing comes into reach that was out of it
(`exists_standsFor_of_below`).
-/
import StyleInliner.Inline.Document
import StyleInliner.Proofs.Inline.TableConversion
import StyleInliner.Proofs.Run

namespace StyleInliner.Inline

open StyleInliner.Dom

/-- The table that took the place of a node, for every node that was replaced. -/
abbrev Tables := Nat → Option Nat

namespace Tables

/-- The node that is now where a node was. -/
def place (tables : Tables) (n : Nat) : Nat :=
  (tables n).getD n

/-- The node that now has the children of a node. -/
def holder (tables : Tables) (n : Nat) : Nat :=
  ((tables n).map (· + 2)).getD n

section Lookup

variable {tables : Tables} {n t : Nat}

theorem place_of_none (hn : tables n = none) : tables.place n = n := by
  simp [place, hn]

theorem place_of_some (ht : tables n = some t) : tables.place n = t := by
  simp [place, ht]

theorem holder_of_none (hn : tables n = none) : tables.holder n = n := by
  simp [holder, hn]

theorem holder_of_some (ht : tables n = some t) : tables.holder n = t + 2 := by
  simp [holder, ht]

end Lookup

/-- The tables with one more, for a node. -/
def insert (tables : Tables) (n t : Nat) : Tables := fun m =>
  if m = n then some t else tables m

theorem place_insert (tables : Tables) (n t m : Nat) :
    (tables.insert n t).place m = if m = n then t else tables.place m := by
  unfold place insert
  split <;> rfl

theorem holder_insert (tables : Tables) (n t m : Nat) :
    (tables.insert n t).holder m = if m = n then t + 2 else tables.holder m := by
  unfold holder insert
  split <;> rfl

theorem insert_eq_some_iff {tables : Tables} {n t m u : Nat} :
    tables.insert n t m = some u ↔ m = n ∧ u = t ∨ m ≠ n ∧ tables m = some u := by
  unfold insert
  split <;> rename_i hm <;> simp [hm, eq_comm]

/-- The node is a part of the table that took the place of a node. -/
def PartFor (tables : Tables) (m n : Nat) : Prop :=
  ∃ t, tables n = some t ∧ (m = t ∨ m = t + 1 ∨ m = t + 2)

/-- The node is what a node was before, or a part of the table that took its place. -/
def StandsFor (tables : Tables) (m n : Nat) : Prop :=
  (tables n = none ∧ m = n) ∨ tables.PartFor m n

end Tables

/-- The second forest is the first one with some elements replaced by tables. -/
structure Converted (f g : Forest) (tables : Tables) : Prop where
  size_le : f.size ≤ g.size
  /-- What was replaced is an old node, and its table is made of new ones. -/
  bounds : ∀ {n t : Nat}, tables n = some t → n < f.size ∧ f.size ≤ t ∧ t + 2 < g.size
  /-- No two tables share a node. -/
  apart : ∀ {n n' t t' : Nat}, tables n = some t → tables n' = some t' → n ≠ n' →
    t + 3 ≤ t' ∨ t' + 3 ≤ t
  /-- Every new node is in a table. -/
  covered : ∀ {m : Nat}, f.size ≤ m → m < g.size → ∃ n, tables.PartFor m n
  /-- What stands where a node was is below what has what was in its parent. -/
  parent?_place : ∀ {n : Nat}, n < f.size →
    g.parent? (tables.place n) = (f.parent? n).map tables.holder
  /-- What has what was in a node has it in the same order. -/
  children_holder : ∀ {n : Nat}, n < f.size →
    g.children (tables.holder n) = (f.children n).map tables.place
  content?_eq : ∀ {n : Nat}, n < f.size → g.content? n = f.content? n
  /-- The tables are made from the attributes of what they replace. -/
  table : ∀ {n t : Nat}, tables n = some t → ∃ e parts, f.element? n = some e ∧
    CellTable.ofAttributes e.attributes = .ok parts ∧ IsTableFor g t n parts

namespace Converted

variable {f g : Forest} {tables : Tables}

theorem refl (f : Forest) : Converted f f fun _ => none where
  size_le := Nat.le_refl _
  bounds h := nomatch h
  apart h := nomatch h
  covered hle hlt := absurd hlt (Nat.not_lt_of_le hle)
  parent?_place _ := Option.map_id'.symm
  children_holder _ := (List.map_id' _).symm
  content?_eq _ := rfl
  table h := nomatch h

/-! ### Old and new nodes -/

section Places

variable (h : Converted f g tables) {n m : Nat}
include h

/-- A node of the first forest has its own place unless it was replaced. -/
theorem place_eq_iff (hm : m < f.size) : tables.place n = m ↔ tables n = none ∧ n = m := by
  cases ht : tables n with
  | none => simp [Tables.place, ht]
  | some t =>
      have hfresh := (h.bounds ht).2.1
      have hne : t ≠ m := by omega
      simp [Tables.place, ht, hne]

theorem holder_eq_iff (hm : m < f.size) : tables.holder n = m ↔ tables n = none ∧ n = m := by
  cases ht : tables n with
  | none => simp [Tables.holder, ht]
  | some t =>
      have hfresh := (h.bounds ht).2.1
      have hne : t + 2 ≠ m := by omega
      simp [Tables.holder, ht, hne]

theorem place_lt (hn : n < f.size) : tables.place n < g.size := by
  cases ht : tables n with
  | none => simpa [Tables.place, ht] using Nat.lt_of_lt_of_le hn h.size_le
  | some t =>
      have hlt := (h.bounds ht).2.2
      simp only [Tables.place, ht, Option.getD_some]
      omega

theorem holder_lt (hn : n < f.size) : tables.holder n < g.size := by
  cases ht : tables n with
  | none => simpa [Tables.holder, ht] using Nat.lt_of_lt_of_le hn h.size_le
  | some t => simpa [Tables.holder, ht] using (h.bounds ht).2.2

/-- What a node stands for is one node only. -/
theorem standsFor_unique {a b : Nat} (ha : tables.StandsFor m a) (hb : tables.StandsFor m b)
    (hlta : a < f.size) (hltb : b < f.size) : a = b := by
  rcases ha with ⟨-, rfl⟩ | ⟨t, ht, hm⟩
  · rcases hb with ⟨-, rfl⟩ | ⟨t, ht, hm⟩
    · rfl
    · have hfresh := (h.bounds ht).2.1
      omega
  · rcases hb with ⟨-, rfl⟩ | ⟨t', ht', hm'⟩
    · have hfresh := (h.bounds ht).2.1
      omega
    · by_contra hne
      have hapart := h.apart ht ht' hne
      omega

end Places

theorem standsFor_place (tables : Tables) (n : Nat) : tables.StandsFor (tables.place n) n := by
  cases ht : tables n with
  | none => exact Or.inl ⟨ht, by simp [Tables.place, ht]⟩
  | some t => exact Or.inr ⟨t, ht, by simp [Tables.place, ht]⟩

theorem standsFor_holder (tables : Tables) (n : Nat) : tables.StandsFor (tables.holder n) n := by
  cases ht : tables n with
  | none => exact Or.inl ⟨ht, by simp [Tables.holder, ht]⟩
  | some t => exact Or.inr ⟨t, ht, by simp [Tables.holder, ht]⟩

theorem place_injective (h : Converted f g tables) {a b : Nat} (ha : a < f.size)
    (hb : b < f.size) (heq : tables.place a = tables.place b) : a = b :=
  h.standsFor_unique (standsFor_place tables a) (heq ▸ standsFor_place tables b) ha hb

theorem holder_injective (h : Converted f g tables) {a b : Nat} (ha : a < f.size)
    (hb : b < f.size) (heq : tables.holder a = tables.holder b) : a = b :=
  h.standsFor_unique (standsFor_holder tables a) (heq ▸ standsFor_holder tables b) ha hb

/-! ### Replacing one more node -/

section Kept

variable (h : Converted f g tables) {n p : Nat} (hn : tables n = none)
  (hparent : f.parent? n = some p)
include h hn hparent

/-- A node that was not replaced is below what has what was in its parent. -/
theorem parent?_of_none : g.parent? n = some (tables.holder p) := by
  have hlt : n < f.size := Forest.lt_size_of_parent? hparent
  rw [← (h.place_eq_iff hlt).2 ⟨hn, rfl⟩, h.parent?_place hlt, hparent]
  rfl

theorem children_of_none : g.children n = (f.children n).map tables.place := by
  have hlt : n < f.size := Forest.lt_size_of_parent? hparent
  rw [← h.children_holder hlt, (h.holder_eq_iff hlt).2 ⟨hn, rfl⟩]

variable (hf : f.WellFormed)
include hf

theorem mem_children_holder : n ∈ g.children (tables.holder p) := by
  have hlt : n < f.size := Forest.lt_size_of_parent? hparent
  have hmem := hf.mem_children_iff.2 hparent
  rw [h.children_holder (Forest.lt_size_of_mem_children hmem)]
  exact List.mem_map.2 ⟨n, hmem, (h.place_eq_iff hlt).2 ⟨hn, rfl⟩⟩

theorem mem_children_of_none {m : Nat} :
    m ∈ g.children n ↔ ∃ c, c < f.size ∧ f.parent? c = some n ∧ tables.place c = m := by
  rw [h.children_of_none hn hparent, List.mem_map]
  constructor
  · rintro ⟨c, hc, rfl⟩
    have hc := hf.mem_children_iff.1 hc
    exact ⟨c, Forest.lt_size_of_parent? hc, hc, rfl⟩
  · rintro ⟨c, -, hc, rfl⟩
    exact ⟨c, hf.mem_children_iff.2 hc, rfl⟩

theorem not_mem_own_children : n ∉ g.children n := by
  intro hc
  obtain ⟨c, -, hc, hplaced⟩ := (h.mem_children_of_none hn hparent hf).1 hc
  obtain ⟨-, rfl⟩ := (h.place_eq_iff (Forest.lt_size_of_parent? hparent)).1 hplaced
  exact hf.ne_parent hc rfl

/-- What was replaced is below no other node, and has nothing in it any more. -/
theorem replaced_not_mem {k t : Nat} (hk : tables k = some t) :
    k ∉ g.children n ∧ k ≠ tables.holder p := by
  have hklt := (h.bounds hk).1
  constructor
  · intro hc
    obtain ⟨c, -, -, hplaced⟩ := (h.mem_children_of_none hn hparent hf).1 hc
    obtain ⟨hnone, rfl⟩ := (h.place_eq_iff hklt).1 hplaced
    rw [hk] at hnone
    cases hnone
  · intro heq
    obtain ⟨hnone, rfl⟩ := (h.holder_eq_iff hklt).1 heq.symm
    rw [hk] at hnone
    cases hnone

/-- Of a table only the topmost node is below another node. -/
theorem part_not_mem {k t m : Nat} (hk : tables k = some t) (hm : m = t ∨ m = t + 1 ∨ m = t + 2)
    (hmt : m ≠ t) : m ∉ g.children n := by
  intro hc
  obtain ⟨c, hclt, -, rfl⟩ := (h.mem_children_of_none hn hparent hf).1 hc
  obtain rfl := h.standsFor_unique (Or.inr ⟨t, hk, hm⟩) (standsFor_place tables c)
    (h.bounds hk).1 hclt
  exact hmt (by simp [Tables.place, hk])

end Kept

/-- Of a table only the cell has in it what was in a node. -/
theorem part_ne_holder (h : Converted f g tables) {k t p m : Nat} (hk : tables k = some t)
    (hp : p < f.size) (hm : m = t ∨ m = t + 1 ∨ m = t + 2) (hmt : m ≠ t + 2) :
    m ≠ tables.holder p := by
  rintro rfl
  obtain rfl := h.standsFor_unique (Or.inr ⟨t, hk, hm⟩) (standsFor_holder tables p)
    (h.bounds hk).1 hp
  exact hmt (by simp [Tables.holder, hk])

/-- Putting a node in the place of another changes just that one in the list. -/
theorem putInPlace_map {place : Nat → Nat} {n t : Nat} {l : List Nat} (hl : l.Nodup)
    (hplace : ∀ c ∈ l, place c = n ↔ c = n) :
    Forest.putInPlace n t (l.map place) = l.map fun c => if c = n then t else place c := by
  induction l with
  | nil => rfl
  | cons c l ih =>
      obtain ⟨hc, hl⟩ := List.nodup_cons.1 hl
      rw [List.map_cons, List.map_cons, Forest.putInPlace]
      by_cases hcn : c = n
      · subst hcn
        rw [if_pos ((hplace c (by simp)).2 rfl), if_pos rfl]
        congr 1
        refine List.map_congr_left fun a ha => ?_
        rw [if_neg]
        rintro rfl
        exact hc ha
      · rw [if_neg fun he => hcn ((hplace c (by simp)).1 he), if_neg hcn,
          ih hl fun a ha => hplace a (by simp [ha])]

section Install

variable {g' : Forest} {n p : Nat} {parts : CellTable} (h : Converted f g tables)
  (hf : f.WellFormed) (hn : tables n = none) (hparent : f.parent? n = some p)
  (hi : Installed g g' n (tables.holder p) parts)
include h hf hn hparent hi

theorem parent?_place_insert {m : Nat} (hm : m < f.size) :
    g'.parent? ((tables.insert n g.size).place m) =
      (f.parent? m).map (tables.insert n g.size).holder := by
  have hlt : n < f.size := Forest.lt_size_of_parent? hparent
  rw [Tables.place_insert]
  by_cases hmn : m = n
  · subst hmn
    have hne : g.size ≠ m := by
      have hle := h.size_le
      omega
    rw [if_pos rfl, hi.parent?_eq, if_neg hne, if_pos rfl, hparent, Option.map_some,
      Tables.holder_insert, if_neg (hf.ne_parent hparent)]
  · have hplace : tables.place m ≠ n := fun he => hmn ((h.place_eq_iff hlt).1 he).2
    have hold := h.place_lt hm
    have hrow : tables.place m ≠ g.size + 1 := by omega
    have hcell : tables.place m ≠ g.size + 2 := by omega
    have hmem := h.mem_children_of_none hn hparent hf (m := tables.place m)
    rw [if_neg hmn, hi.parent?_eq, if_neg hplace, if_neg (Nat.ne_of_lt hold), if_neg hrow,
      if_neg hcell]
    by_cases hchild : f.parent? m = some n
    · rw [if_pos (hmem.2 ⟨m, hm, hchild, rfl⟩), hchild, Option.map_some, Tables.holder_insert,
        if_pos rfl]
    · have hmoved : tables.place m ∉ g.children n := by
        intro hc
        obtain ⟨c, hclt, hc, heq⟩ := hmem.1 hc
        exact hchild (h.place_injective hclt hm heq ▸ hc)
      rw [if_neg hmoved, h.parent?_place hm]
      refine Option.map_congr fun q hq => ?_
      have hqn : q ≠ n := by
        rintro rfl
        exact hchild hq
      rw [Tables.holder_insert, if_neg hqn]

theorem children_holder_insert {m : Nat} (hm : m < f.size) :
    g'.children ((tables.insert n g.size).holder m) =
      (f.children m).map (tables.insert n g.size).place := by
  have hlt : n < f.size := Forest.lt_size_of_parent? hparent
  have hplt : p < f.size := Forest.lt_size_of_mem_children (hf.mem_children_iff.2 hparent)
  have hsame : ∀ l : List Nat, n ∉ l →
      l.map tables.place = l.map (tables.insert n g.size).place := by
    intro l hl
    refine List.map_congr_left fun c hc => ?_
    have hcn : c ≠ n := fun he => hl (he ▸ hc)
    rw [Tables.place_insert, if_neg hcn]
  rw [Tables.holder_insert]
  by_cases hmn : m = n
  · subst hmn
    have hne : g.size + 2 ≠ m := by
      have hle := h.size_le
      omega
    have hnot : m ∉ f.children m := fun hc => hf.ne_parent (hf.mem_children_iff.1 hc) rfl
    rw [if_pos rfl, hi.children_eq, if_neg hne, if_neg (by omega), if_neg (by omega), if_pos rfl,
      h.children_of_none hn hparent, hsame _ hnot]
  · have hholder : tables.holder m ≠ n := fun he => hmn ((h.holder_eq_iff hlt).1 he).2
    have hold := h.holder_lt hm
    have hrow : tables.holder m ≠ g.size + 1 := by omega
    have hcell : tables.holder m ≠ g.size + 2 := by omega
    rw [if_neg hmn, hi.children_eq, if_neg hholder, if_neg (Nat.ne_of_lt hold), if_neg hrow,
      if_neg hcell]
    by_cases hmp : m = p
    · subst hmp
      rw [if_pos rfl, h.children_holder hm, putInPlace_map (hf.nodup_children m)
        fun c hc => ?_]
      · exact List.map_congr_left fun c _ => (Tables.place_insert tables n g.size c).symm
      · exact (h.place_eq_iff hlt).trans ⟨fun hc => hc.2, fun hc => ⟨hc ▸ hn, hc⟩⟩
    · have hnot : n ∉ f.children m := fun hc =>
        hmp (Option.some.inj ((hf.mem_children_iff.1 hc).symm.trans hparent))
      rw [if_neg fun he => hmp (h.holder_injective hm hplt he), h.children_holder hm,
        hsame _ hnot]

/-- The tables there were are left as they are. -/
theorem isTableFor_keeps {k t : Nat} (hk : tables k = some t) {parts' : CellTable}
    (ht : IsTableFor g t k parts') : IsTableFor g' t k parts' := by
  obtain ⟨hklt, hfresh, hold⟩ := h.bounds hk
  have hlt : n < f.size := Forest.lt_size_of_parent? hparent
  have hplt : p < f.size := Forest.lt_size_of_mem_children (hf.mem_children_iff.2 hparent)
  have hkn : k ≠ n := by
    rintro rfl
    rw [hn] at hk
    cases hk
  have hkold : k < g.size := Nat.lt_of_lt_of_le hklt h.size_le
  obtain ⟨hkout, hkholder⟩ := h.replaced_not_mem hn hparent hf hk
  have hrow := h.part_not_mem hn hparent hf hk (m := t + 1) (by omega) (by omega)
  have hcell := h.part_not_mem hn hparent hf hk (m := t + 2) (by omega) (by omega)
  have htable : t ≠ tables.holder p := h.part_ne_holder hk hplt (by omega) (by omega)
  have hrow' : t + 1 ≠ tables.holder p := h.part_ne_holder hk hplt (by omega) (by omega)
  exact
    { parent?_old := by rw [hi.parent?_of_lt hkold hkn hkout, ht.parent?_old]
      children_old := by rw [hi.children_of_lt hkold hkn hkholder, ht.children_old]
      parent?_row := by rw [hi.parent?_of_lt (by omega) (by omega) hrow, ht.parent?_row]
      parent?_cell := by rw [hi.parent?_of_lt (by omega) (by omega) hcell, ht.parent?_cell]
      children_table := by
        rw [hi.children_of_lt (by omega) (by omega) htable, ht.children_table]
      children_row := by rw [hi.children_of_lt (by omega) (by omega) hrow', ht.children_row]
      content?_table := by rw [hi.content?_of_lt (by omega), ht.content?_table]
      content?_row := by rw [hi.content?_of_lt (by omega), ht.content?_row]
      content?_cell := by rw [hi.content?_of_lt (by omega), ht.content?_cell] }

/-- **Replacing one more node keeps the two trees together.** -/
theorem install {e : Element} (he : f.element? n = some e)
    (hparts : CellTable.ofAttributes e.attributes = .ok parts) :
    Converted f g' (tables.insert n g.size) := by
  have hlt : n < f.size := Forest.lt_size_of_parent? hparent
  have hle := h.size_le
  have hsize := hi.size_eq
  refine ⟨by omega, ?_, ?_, ?_, parent?_place_insert h hf hn hparent hi,
    children_holder_insert h hf hn hparent hi, ?_, ?_⟩
  · intro k t ht
    rcases Tables.insert_eq_some_iff.1 ht with ⟨rfl, rfl⟩ | ⟨-, hold⟩
    · omega
    · have hbounds := h.bounds hold
      omega
  · intro k k' t t' ht ht' hne
    rcases Tables.insert_eq_some_iff.1 ht with ⟨rfl, rfl⟩ | ⟨-, hold⟩
    · rcases Tables.insert_eq_some_iff.1 ht' with ⟨rfl, -⟩ | ⟨-, hold'⟩
      · exact absurd rfl hne
      · have hbounds := h.bounds hold'
        omega
    · rcases Tables.insert_eq_some_iff.1 ht' with ⟨rfl, rfl⟩ | ⟨-, hold'⟩
      · have hbounds := h.bounds hold
        omega
      · exact h.apart hold hold' hne
  · intro m hfresh hm
    by_cases hmold : m < g.size
    · obtain ⟨k, t, ht, hpart⟩ := h.covered hfresh hmold
      have hkn : k ≠ n := by
        rintro rfl
        rw [hn] at ht
        cases ht
      exact ⟨k, t, Tables.insert_eq_some_iff.2 (Or.inr ⟨hkn, ht⟩), hpart⟩
    · exact ⟨n, g.size, Tables.insert_eq_some_iff.2 (Or.inl ⟨rfl, rfl⟩), by omega⟩
  · intro m hm
    rw [hi.content?_of_lt (Nat.lt_of_lt_of_le hm hle), h.content?_eq hm]
  · intro k t ht
    rcases Tables.insert_eq_some_iff.1 ht with ⟨rfl, rfl⟩ | ⟨-, hold⟩
    · exact ⟨e, parts, he, hparts, hi.isTableFor (Nat.lt_of_lt_of_le hlt hle)⟩
    · obtain ⟨e', parts', he', hparts', htable⟩ := h.table hold
      exact ⟨e', parts', he', hparts', isTableFor_keeps h hf hn hparent hi hold htable⟩

end Install

theorem element?_eq (h : Converted f g tables) {n : Nat} (hn : n < f.size) :
    g.element? n = f.element? n := by
  rw [Forest.element?, h.content?_eq hn, Forest.element?]

theorem map_convertToTable_eq_ok_iff {n p : Nat} {e : Element} (he : g.element? n = some e)
    (hparent : g.parent? n = some p) {g' : Forest} :
    (convertToTable g n).map Prod.fst = .ok g' ↔
      ∃ parts, CellTable.ofAttributes e.attributes = .ok parts ∧ installTable g n parts = g' := by
  rw [convertToTable, he, hparent]
  cases hparts : CellTable.ofAttributes e.attributes with
  | error err => simp [Except.map, hparts]
  | ok parts => simp [Except.map, hparts]

/-- A step replaces the node if its style has the text of the directive in it. -/
theorem convertMarked_cases (h : Converted f g tables) (hf : f.WellFormed) {n p : Nat}
    (hn : tables n = none) (hparent : f.parent? n = some p) {e : Element}
    (he : f.element? n = some e) {g' : Forest} (hstep : (convertMarked g n).toExcept = .ok g') :
    (isMarked e = true ∧ Converted f g' (tables.insert n g.size)) ∨
      (isMarked e = false ∧ g' = g) := by
  have hparent' := h.parent?_of_none hn hparent
  have hbound : ∀ m : Nat, m ∈ g.children n → m < g.size := by
    intro m hm
    obtain ⟨c, hclt, -, rfl⟩ := (h.mem_children_of_none hn hparent hf).1 hm
    exact h.place_lt hclt
  have he' : g.element? n = some e := by
    rw [h.element?_eq (Forest.lt_size_of_parent? hparent), he]
  unfold convertMarked at hstep
  rw [he', Option.any_some] at hstep
  cases hmarked : isMarked e with
  | true =>
      rw [if_pos hmarked, Run.toExcept_step] at hstep
      obtain ⟨parts, hparts, rfl⟩ := (map_convertToTable_eq_ok_iff he' hparent').1 hstep
      exact Or.inl ⟨rfl, h.install hf hn hparent
        (installed_installTable hparent' (h.mem_children_holder hn hparent hf)
          (h.not_mem_own_children hn hparent hf) hbound parts) he hparts⟩
  | false =>
      rw [hmarked] at hstep
      exact Or.inr ⟨rfl, (Except.ok.inj hstep).symm⟩

/-- **Of the nodes that are gone through, those that are marked are replaced, and no others.** -/
theorem exists_of_foldlM (h : Converted f g tables) (hf : f.WellFormed) {nodes : List Nat}
    (hnodes : nodes.Nodup) (hfresh : ∀ n ∈ nodes, tables n = none)
    (hplaced : ∀ n ∈ nodes, ∃ e p, f.element? n = some e ∧ f.parent? n = some p) {g' : Forest}
    (hrun : nodes.foldlM (fun g n => (convertMarked g n).toExcept) g = .ok g') :
    ∃ tables' : Tables, Converted f g' tables' ∧ ∀ n, (tables' n).isSome ↔
      (tables n).isSome ∨ n ∈ nodes ∧ (f.element? n).any isMarked := by
  induction nodes generalizing g tables with
  | nil =>
      obtain rfl := Except.ok.inj hrun
      exact ⟨tables, h, by simp⟩
  | cons n nodes ih =>
      obtain ⟨hn, hnodes⟩ := List.nodup_cons.1 hnodes
      obtain ⟨e, p, he, hparent⟩ := hplaced n (by simp)
      rw [List.foldlM_cons] at hrun
      obtain ⟨mid, hstep, htail⟩ := bind_eq_ok_iff.1 hrun
      have hrest : ∀ m ∈ nodes, ∃ e p, f.element? m = some e ∧ f.parent? m = some p :=
        fun m hm => hplaced m (by simp [hm])
      rcases h.convertMarked_cases hf (hfresh n (by simp)) hparent he hstep with
        ⟨hmarked, hmid⟩ | ⟨hmarked, hmid⟩
      · have hfresh' : ∀ m ∈ nodes, tables.insert n g.size m = none := by
          intro m hm
          rw [Tables.insert, if_neg]
          · exact hfresh m (by simp [hm])
          · rintro rfl
            exact hn hm
        obtain ⟨tables', hconv, hiff⟩ := ih hmid hnodes hfresh' hrest htail
        refine ⟨tables', hconv, fun m => (hiff m).trans ?_⟩
        by_cases hm : m = n
        · subst hm
          simp [Tables.insert, he, hmarked]
        · simp [Tables.insert, hm]
      · subst hmid
        obtain ⟨tables', hconv, hiff⟩ :=
          ih h hnodes (fun m hm => hfresh m (by simp [hm])) hrest htail
        refine ⟨tables', hconv, fun m => (hiff m).trans ?_⟩
        by_cases hm : m = n
        · subst hm
          simp [he, hmarked, hn]
        · simp [hm]

/-! ### What can be reached -/

/-- The parent of a part of the second tree stands for what that part stood below, or for the
same node. -/
theorem exists_standsFor_of_parent? (h : Converted f g tables) (hf : f.WellFormed) {m q n : Nat}
    (hq : g.parent? m = some q) (hn : tables.StandsFor q n) (hlt : n < f.size) :
    ∃ k, k < f.size ∧ tables.StandsFor m k ∧ f.Below k n := by
  have hplace : ∀ {k : Nat}, k < f.size → m = tables.place k →
      ∃ k, k < f.size ∧ tables.StandsFor m k ∧ f.Below k n := by
    rintro k hk rfl
    rw [h.parent?_place hk] at hq
    obtain ⟨p, hp, rfl⟩ := Option.map_eq_some_iff.1 hq
    have hplt := Forest.lt_size_of_mem_children (hf.mem_children_iff.2 hp)
    obtain rfl := h.standsFor_unique (standsFor_holder tables p) hn hplt hlt
    exact ⟨k, hk, standsFor_place tables k, Relation.ReflTransGen.single hp⟩
  by_cases hm : m < f.size
  · cases ht : tables m with
    | none => exact hplace hm (by simp [Tables.place, ht])
    | some t =>
        obtain ⟨e, parts, -, -, htable⟩ := h.table ht
        rw [htable.parent?_old] at hq
        cases hq
  · have hmg : m < g.size := Forest.lt_size_of_parent? hq
    obtain ⟨k, t, ht, hpart⟩ := h.covered (Nat.le_of_not_lt hm) hmg
    obtain ⟨hk, -, -⟩ := h.bounds ht
    obtain ⟨e, parts, -, -, htable⟩ := h.table ht
    have hinside : tables.StandsFor q k →
        ∃ k, k < f.size ∧ tables.StandsFor m k ∧ f.Below k n := by
      intro hqk
      obtain rfl := h.standsFor_unique hqk hn hk hlt
      exact ⟨k, hk, Or.inr ⟨t, ht, hpart⟩, Relation.ReflTransGen.refl⟩
    rcases hpart with rfl | rfl | rfl
    · exact hplace hk (by simp [Tables.place, ht])
    · obtain rfl := Option.some.inj (htable.parent?_row.symm.trans hq)
      exact hinside (Or.inr ⟨t, ht, by simp⟩)
    · obtain rfl := Option.some.inj (htable.parent?_cell.symm.trans hq)
      exact hinside (Or.inr ⟨t, ht, by simp⟩)

/-- **What is below a node in the second tree stands for something that was below it.** -/
theorem exists_standsFor_of_below (h : Converted f g tables) (hf : f.WellFormed) {m root : Nat}
    (hm : g.Below m root) (hroot : root < f.size) (hkept : tables root = none) :
    ∃ n, n < f.size ∧ tables.StandsFor m n ∧ f.Below n root := by
  induction hm using Relation.ReflTransGen.head_induction_on with
  | refl => exact ⟨root, hroot, Or.inl ⟨hkept, rfl⟩, Relation.ReflTransGen.refl⟩
  | head hq _ ih =>
      obtain ⟨n, hlt, hn, hbelow⟩ := ih
      obtain ⟨k, hk, hstands, hkn⟩ := h.exists_standsFor_of_parent? hf hq hn hlt
      exact ⟨k, hk, hstands, hkn.trans hbelow⟩

end Converted

end StyleInliner.Inline
