/-
Moving nodes keeps a forest well-formed.

Of the three parts of well-formedness only the last one can be lost: a node that
is put below itself goes round in a circle.  `acyclic_of_moved` says that nothing
else can go wrong there: if every new edge leads up to one node, and no moved node
is above that one, a way up that takes a new edge never meets a moved node again.

Each operation is then looked at as what it makes of the parents and the children.
Putting one node in a place is `wellFormed_of_attach`, whatever the place is; the
node is taken from its old place first, so nothing is said about where it was.
-/
import StyleInliner.Dom.Insertion
import StyleInliner.Proofs.Dom.Forest

namespace StyleInliner.Dom

namespace Forest

variable {f g : Forest} {n m p c : NodeId}

/-! ### Ways up -/

/-- Moving nodes to a place that is not below any of them makes no circle. -/
theorem acyclic_of_moved (moved : NodeId → Prop) (hf : f.WellFormed)
    (hedge : ∀ m q, g.ChildOf m q → f.ChildOf m q ∨ moved m ∧ q = p)
    (hsafe : ∀ m, moved m → ¬ f.Below p m) (n : NodeId) : ¬ Relation.TransGen g.ChildOf n n := by
  -- a way up is an old one, or it has an old part up to a moved node and one from the new place on
  have hway : ∀ {a b}, Relation.TransGen g.ChildOf a b →
      Relation.TransGen f.ChildOf a b ∨ ∃ m, moved m ∧ f.Below a m ∧ f.Below p b := by
    intro a b hab
    induction hab with
    | single h =>
        rcases hedge _ _ h with hold | ⟨hmoved, rfl⟩
        · exact Or.inl (Relation.TransGen.single hold)
        · exact Or.inr ⟨a, hmoved, Relation.ReflTransGen.refl, Relation.ReflTransGen.refl⟩
    | @tail x y hax h ih =>
        rcases hedge _ _ h with hold | ⟨hmoved, rfl⟩
        · rcases ih with hax | ⟨m, hm, ham, hpx⟩
          · exact Or.inl (hax.tail hold)
          · exact Or.inr ⟨m, hm, ham, hpx.tail hold⟩
        · rcases ih with hax | ⟨m, hm, ham, hpx⟩
          · exact Or.inr ⟨x, hmoved, hax.to_reflTransGen, Relation.ReflTransGen.refl⟩
          · exact absurd hpx (hsafe x hmoved)
  intro hn
  rcases hway hn with hold | ⟨m, hm, hnm, hpn⟩
  · exact hf.acyclic n hold
  · exact hsafe m hm (hpn.trans hnm)

theorem childOf_detach (h : (f.detach c).ChildOf m n) : f.ChildOf m n := by
  rw [ChildOf, parent?_detach] at h
  split at h
  · cases h
  · exact h

theorem below_of_below_detach (h : (f.detach c).Below m n) : f.Below m n :=
  Relation.ReflTransGen.mono (fun _ _ => childOf_detach) m n h

/-! ### Putting one node in a place -/

/-- A node that was in no tree comes to stand somewhere below another one. -/
theorem wellFormed_of_attach (hf : f.WellFormed) (hc : f.parent? c = none)
    (hsafe : ¬ f.Below p c) (hparent : ∀ m, g.parent? m = if m = c then some p else f.parent? m)
    (hother : ∀ m, m ≠ p → g.children m = f.children m)
    (hmem : ∀ m, m ∈ g.children p ↔ m = c ∨ m ∈ f.children p)
    (hnodup : (g.children p).Nodup) : g.WellFormed := by
  constructor
  · intro q m
    rw [hparent]
    by_cases hq : q = p
    · subst hq
      rw [hmem, hf.mem_children_iff]
      by_cases hm : m = c <;> simp [hm]
    · rw [hother q hq, hf.mem_children_iff]
      by_cases hm : m = c
      · subst hm
        simp [hc, Ne.symm hq]
      · rw [if_neg hm]
  · intro q
    by_cases hq : q = p
    · exact hq ▸ hnodup
    · rw [hother q hq]
      exact hf.nodup_children q
  · refine acyclic_of_moved (fun m => m = c) hf ?_ fun m hm => hm ▸ hsafe
    intro m q h
    rw [ChildOf, hparent] at h
    split at h
    · rename_i hm
      exact Or.inr ⟨hm, (Option.some.inj h).symm⟩
    · exact Or.inl h

section Place

variable (f p c) (change : List NodeId → List NodeId)

/-- A node taken from where it is and put among the children of another one. -/
def place : Forest :=
  ((f.detach c).setParent c (some p)).modifyChildren p change

@[simp] theorem size_place : (f.place p c change).size = f.size := by
  simp [place, size_detach]

@[simp] theorem content?_place (m : NodeId) : (f.place p c change).content? m = f.content? m := by
  simp [place, content?_detach]

theorem parent?_place (hc : c < f.size) (m : NodeId) :
    (f.place p c change).parent? m = if m = c then some p else f.parent? m := by
  rw [place, parent?_modifyChildren, parent?_setParent, size_detach, parent?_detach]
  by_cases hm : m = c
  · subst hm
    simp [hc]
  · simp [hm, Ne.symm hm]

theorem children_place (hf : f.WellFormed) (hp : p < f.size) (m : NodeId) :
    (f.place p c change).children m =
      if p = m then change ((f.children m).filter (· != c))
      else (f.children m).filter (· != c) := by
  rw [place, children_modifyChildren, children_setParent, size_setParent, size_detach,
    children_detach hf]
  by_cases hm : p = m
  · subst hm
    simp [hp]
  · simp [hm]

end Place

/-- **Putting a node in a place that is not below it keeps a forest well-formed.** -/
theorem WellFormed.place (hf : f.WellFormed) (hc : c < f.size) (hp : p < f.size)
    (hsafe : ¬ f.Below p c) {change : List NodeId → List NodeId}
    (hmem : ∀ l m, m ∈ change l ↔ m = c ∨ m ∈ l)
    (hnodup : ∀ l, c ∉ l → l.Nodup → (change l).Nodup) : (f.place p c change).WellFormed := by
  have hout : (f.detach c).parent? c = none := by rw [parent?_detach, if_pos rfl]
  refine wellFormed_of_attach (hf.detach c) hout (fun h => hsafe (below_of_below_detach h)) ?_ ?_
    ?_ ?_
  · intro m
    rw [parent?_place f p c change hc, parent?_detach]
    by_cases hm : m = c
    · simp [hm]
    · simp [hm, Ne.symm hm]
  · intro m hm
    rw [children_place f p c change hf hp, if_neg (Ne.symm hm), children_detach hf]
  · intro m
    rw [children_place f p c change hf hp, if_pos rfl, hmem, children_detach hf]
  · rw [children_place f p c change hf hp, if_pos rfl]
    exact hnodup _ (by simp) ((hf.nodup_children p).filter _)

/-- **Making a node the last child of one that is not below it keeps a forest well-formed.** -/
theorem WellFormed.appendChild (hf : f.WellFormed) (hp : p < f.size) (hc : c < f.size)
    (hsafe : ¬ f.Below p c) : (f.appendChild p c).WellFormed := by
  refine hf.place hc hp hsafe (fun l m => ?_) fun l hl hnodup => ?_
  · simp [or_comm]
  · rw [List.nodup_append]
    refine ⟨hnodup, by simp, ?_⟩
    rintro a ha b hb rfl
    exact hl (List.mem_singleton.1 hb ▸ ha)

theorem mem_putBefore (sibling child : NodeId) (l : List NodeId) (m : NodeId) :
    m ∈ putBefore sibling child l ↔ m = child ∨ m ∈ l := by
  induction l with
  | nil => simp [putBefore]
  | cons a l ih =>
      rw [putBefore]
      split
      · simp
      · rw [List.mem_cons, ih, List.mem_cons]
        tauto

theorem nodup_putBefore {sibling child : NodeId} {l : List NodeId} (hchild : child ∉ l)
    (hl : l.Nodup) : (putBefore sibling child l).Nodup := by
  induction l with
  | nil => simp [putBefore]
  | cons a l ih =>
      obtain ⟨ha, hl'⟩ := List.nodup_cons.1 hl
      rw [List.mem_cons, not_or] at hchild
      rw [putBefore]
      split
      · rw [List.nodup_cons, List.mem_cons, not_or]
        exact ⟨hchild, hl⟩
      · rw [List.nodup_cons, mem_putBefore, not_or]
        exact ⟨⟨Ne.symm hchild.1, ha⟩, ih hchild.2 hl'⟩

/-- **Putting a node in front of one whose parent is not below it keeps a forest well-formed,** also
in front of itself. -/
theorem WellFormed.insertBefore (hf : f.WellFormed) {s : NodeId} (hc : c < f.size)
    (hsafe : ∀ p, f.parent? s = some p → ¬ f.Below p c) : (f.insertBefore s c).WellFormed := by
  unfold Forest.insertBefore
  split
  · exact hf
  · rename_i p hp
    have hlt : p < f.size := lt_size_of_mem_children (hf.mem_children_iff.2 hp)
    exact hf.place hc hlt (hsafe p hp) (mem_putBefore s c) fun l => nodup_putBefore

/-! ### Putting a node in the place of another -/

theorem mem_putInPlace {old new : NodeId} {l : List NodeId} (hold : old ∈ l) (hl : l.Nodup) :
    m ∈ putInPlace old new l ↔ m = new ∨ m ∈ l ∧ m ≠ old := by
  induction l with
  | nil => simp at hold
  | cons a l ih =>
      obtain ⟨ha, hl⟩ := List.nodup_cons.1 hl
      rw [putInPlace]
      by_cases hao : a = old
      · subst hao
        have hrest : m ∈ l → m ≠ a := fun hm he => ha (he ▸ hm)
        rw [if_pos rfl, List.mem_cons, List.mem_cons]
        tauto
      · have hmem : old ∈ l := (List.mem_cons.1 hold).resolve_left (Ne.symm hao)
        have hne : m = a → m ≠ old := fun he => he ▸ hao
        rw [if_neg hao, List.mem_cons, ih hmem hl, List.mem_cons]
        tauto

theorem nodup_putInPlace {old new : NodeId} {l : List NodeId} (hold : old ∈ l) (hnew : new ∉ l)
    (hl : l.Nodup) : (putInPlace old new l).Nodup := by
  induction l with
  | nil => simp at hold
  | cons a l ih =>
      obtain ⟨ha, hl⟩ := List.nodup_cons.1 hl
      rw [List.mem_cons, not_or] at hnew
      rw [putInPlace]
      split
      · exact List.nodup_cons.2 ⟨hnew.2, hl⟩
      · rename_i hao
        have hmem : old ∈ l := (List.mem_cons.1 hold).resolve_left (Ne.symm hao)
        rw [List.nodup_cons, mem_putInPlace hmem hl, not_or]
        exact ⟨⟨Ne.symm hnew.1, fun h => ha h.1⟩, ih hmem hnew.2 hl⟩

/-- What is put in place of an item stands where the item stood. -/
theorem exists_putInPlace_eq {old : NodeId} {l : List NodeId} (hold : old ∈ l) (new : NodeId) :
    ∃ before after, l = before ++ old :: after ∧
      putInPlace old new l = before ++ new :: after := by
  induction l with
  | nil => simp at hold
  | cons a l ih =>
      rw [putInPlace]
      by_cases ha : a = old
      · subst ha
        exact ⟨[], l, rfl, if_pos rfl⟩
      · obtain ⟨before, after, hsplit, hput⟩ := ih ((List.mem_cons.1 hold).resolve_left (Ne.symm ha))
        exact ⟨a :: before, after, by rw [hsplit, List.cons_append],
          by rw [if_neg ha, hput, List.cons_append]⟩

section TakenOut

variable {old new : NodeId} (hne : new ≠ old) (hp : f.parent? old = some p)
include hne hp

theorem parent?_takenOut : (f.detach new).parent? old = some p := by
  rw [parent?_detach, if_neg hne, hp]

/-- The node that is put somewhere may be taken out before. -/
theorem replace_takenOut : f.replace old new = (f.detach new).replace old new := by
  have hout : (f.detach new).parent? new = none := by rw [parent?_detach, if_pos rfl]
  rw [replace, replace, hp, parent?_takenOut hne hp, detach_eq_self hout]

end TakenOut

/-- **Putting a node in the place of one whose parent is not below it keeps a forest well-formed,**
whether or not there is such a place. -/
theorem WellFormed.replace (hf : f.WellFormed) {old new : NodeId} (hnew : new < f.size)
    (hsafe : ∀ p, f.parent? old = some p → ¬ f.Below p new) :
    (f.replace old new).1.WellFormed := by
  unfold Forest.replace
  split
  · exact hf
  · rename_i p hp
    have hg := hf.detach new
    have hout : (f.detach new).parent? new = none := by rw [parent?_detach, if_pos rfl]
    dsimp only
    split
    · rename_i hmem
      have hold : (f.detach new).parent? old = some p := hg.mem_children_iff.1 hmem
      have hne : new ≠ old := by
        rintro rfl
        rw [hout] at hold
        cases hold
      have hnot : new ∉ (f.detach new).children p := by
        rw [hg.mem_children_iff, hout]
        simp
      -- the old node is taken out, and then the new one is put among the children that are left
      have hparent := parent?_replace hold hmem hout
      have hchildren := children_replace hold hmem hout
      rw [replace_eq hold hmem hout] at hparent hchildren
      refine wellFormed_of_attach (c := new) (p := p) (hg.detach old) ?_ ?_ ?_ ?_ ?_ ?_
      · rw [parent?_detach, hout, ite_self]
      · exact fun h => hsafe p hp (below_of_below_detach (below_of_below_detach h))
      · intro m
        rw [hparent, parent?_detach _ old, size_detach]
        by_cases hm : m = new
        · subst hm
          simp [Ne.symm hne, hnew]
        · simp [hm, Ne.symm hm]
      · intro m hm
        rw [hchildren, if_neg (Ne.symm hm), children_detach hg, eq_comm, List.filter_eq_self]
        intro c hc
        rw [bne_iff_ne]
        rintro rfl
        exact hm (Option.some.inj ((hg.mem_children_iff.1 hc).symm.trans hold))
      · intro m
        rw [hchildren, if_pos rfl, mem_putInPlace hmem (hg.nodup_children p), children_detach hg,
          List.mem_filter, bne_iff_ne]
      · rw [hchildren, if_pos rfl]
        exact nodup_putInPlace hmem hnot (hg.nodup_children p)
    · exact hg

/-! ### Moving all children of a node -/

/-- A node that takes over its own children has them as before. -/
theorem moveChildren_self (hf : f.WellFormed) (n : NodeId) : f.moveChildren n n = f := by
  obtain ⟨hsize, hchildren, hcontent, hparent⟩ :=
    foldl_setParent (f.children n) n (f.modifyChildren n fun _ => [])
  refine ext_of (size_moveChildren f n n) ?_ ?_ (content?_moveChildren f n n)
  · intro m
    rw [parent?_moveChildren]
    split
    · rename_i hm
      exact (hf.mem_children_iff.1 hm.1).symm
    · rfl
  · intro m
    rw [moveChildren, children_modifyChildren, hchildren, hsize, size_modifyChildren,
      children_modifyChildren]
    by_cases hm : n = m ∧ m < f.size
    · rw [if_pos hm, if_pos hm, hm.1, List.nil_append]
    · rw [if_neg hm, if_neg hm]

/-- **Moving all children of a node to one that is not below any of them keeps a forest
well-formed.** -/
theorem WellFormed.moveChildren (hf : f.WellFormed) {source target : NodeId}
    (ht : target < f.size) (hsafe : ∀ c ∈ f.children source, ¬ f.Below target c) :
    (f.moveChildren source target).WellFormed := by
  by_cases hne : source = target
  · subst hne
    rwa [moveChildren_self hf]
  have hparent : ∀ m, (f.moveChildren source target).parent? m =
      if m ∈ f.children source then some target else f.parent? m := by
    intro m
    rw [parent?_moveChildren]
    by_cases hm : m ∈ f.children source
    · simp [hm, lt_size_of_parent? (hf.mem_children_iff.1 hm)]
    · simp [hm]
  have hchildren := children_moveChildren f source target hne
  constructor
  · intro q m
    rw [hchildren, hparent]
    by_cases hq : q = source
    · subst hq
      by_cases hm : m ∈ f.children q
      · simp [hm, Ne.symm hne]
      · simpa [hm] using fun h => hm (hf.mem_children_iff.2 h)
    · rw [if_neg hq]
      by_cases hm : m ∈ f.children source
      · have hother : m ∉ f.children q := fun hc => hq (Option.some.inj
          ((hf.mem_children_iff.1 hc).symm.trans (hf.mem_children_iff.1 hm)))
        by_cases hqt : q = target
        · simp [hqt, hm, ht]
        · simp [hqt, hm, hother, Ne.symm hqt]
      · rw [if_neg hm, ← hf.mem_children_iff]
        split <;> simp [hm]
  · intro q
    rw [hchildren]
    split
    · exact List.nodup_nil
    · split
      · rename_i hq hqt
        rw [List.nodup_append]
        refine ⟨hf.nodup_children q, hf.nodup_children source, ?_⟩
        rintro a ha b hb rfl
        exact hq (Option.some.inj
          ((hf.mem_children_iff.1 ha).symm.trans (hf.mem_children_iff.1 hb)))
      · exact hf.nodup_children q
  · refine acyclic_of_moved (fun m => m ∈ f.children source) hf ?_ hsafe
    intro m q h
    rw [ChildOf, hparent] at h
    split at h
    · rename_i hm
      exact Or.inr ⟨hm, (Option.some.inj h).symm⟩
    · exact Or.inl h

/-! ### Inserting -/

/-- A new node makes no difference to the others. -/
theorem WellFormed.add (hf : f.WellFormed) (c : Content) : (f.add c).WellFormed :=
  hf.of_eq (parent?_add f c) (children_add f c)

theorem WellFormed.setContent (hf : f.WellFormed) (n : NodeId) (c : Content) :
    (f.setContent n c).WellFormed :=
  hf.of_eq (parent?_setContent f n c) (children_setContent f n c)

/-- Nothing that was there before is below a new node. -/
theorem not_below_size (hf : f.WellFormed) {n : NodeId} (hn : n < f.size) (c : Content) :
    ¬ (f.add c).Below n f.size := by
  rw [below_congr (parent?_add f c)]
  intro h
  rcases Relation.ReflTransGen.cases_tail h with heq | ⟨m, -, hm⟩
  · exact Nat.ne_of_gt hn heq
  · exact absurd (lt_size_of_mem_children (hf.mem_children_iff.2 hm)) (Nat.lt_irrefl _)

theorem WellFormed.extendText? (hf : f.WellFormed) {n : Option NodeId} {added : String}
    (h : f.extendText? n added = some g) : g.WellFormed := by
  obtain ⟨m, -, h⟩ := Option.bind_eq_some_iff.1 h
  obtain ⟨text, -, rfl⟩ := Option.map_eq_some_iff.1 h
  exact hf.setContent m _

/-- **Inserting text behind the last child of a node keeps a forest well-formed.** -/
theorem WellFormed.insertLast_text (hf : f.WellFormed) (hp : p < f.size) (added : String) :
    (f.insertLast p (.text added)).WellFormed := by
  unfold insertLast
  dsimp only
  split
  · rename_i h
    exact hf.extendText? h
  · have hlt : p < (f.add (.text added)).size := by
      rw [size_add]
      exact Nat.lt_succ_of_lt hp
    exact (hf.add _).appendChild hlt (by simp) (not_below_size hf hp _)

/-- **Inserting text in front of a node keeps a forest well-formed.** -/
theorem WellFormed.insertAhead_text (hf : f.WellFormed) (s : NodeId) (added : String) :
    (f.insertAhead s (.text added)).WellFormed := by
  unfold insertAhead
  dsimp only
  split
  · exact hf
  · split
    · rename_i h
      exact hf.extendText? h
    · refine (hf.add _).insertBefore (by simp) fun p hp => ?_
      rw [parent?_add] at hp
      exact not_below_size hf (lt_size_of_mem_children (hf.mem_children_iff.2 hp)) _

end Forest

end StyleInliner.Dom
