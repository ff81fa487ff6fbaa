/-
Putting a node in front of another, or in its place, edits lists of children.

The node that is put somewhere is taken out of the list it was in, and comes to stand
where the other one is.  `InsertedBefore` and `ReplacedBy` say so for the two
operations; what they have in common, that all other nodes stay under the same parents
and in the same order, is `OthersKept`.

The place is looked up when the node has been taken out already.  That makes no
difference unless the two nodes are one, for then there is no place any more: a node
put in front of itself comes to stand behind its siblings, and a node put in its own
place is left without one.
-/
import StyleInliner.Proofs.Dom.Operation

namespace StyleInliner.Dom

namespace Forest

variable {f g : Forest} {p : NodeId}

/-! ### The lists -/

theorem exists_putBefore_eq {sibling : NodeId} {l : List NodeId} (h : sibling ∈ l)
    (child : NodeId) : ∃ before after, l = before ++ sibling :: after ∧
      putBefore sibling child l = before ++ child :: sibling :: after := by
  induction l with
  | nil => simp at h
  | cons a l ih =>
      rw [putBefore]
      by_cases ha : a = sibling
      · subst ha
        exact ⟨[], l, rfl, if_pos rfl⟩
      · obtain ⟨before, after, hsplit, hput⟩ := ih ((List.mem_cons.1 h).resolve_left (Ne.symm ha))
        exact ⟨a :: before, after, by rw [hsplit, List.cons_append],
          by rw [if_neg ha, hput, List.cons_append]⟩

theorem putBefore_of_notMem {sibling : NodeId} {l : List NodeId} (h : sibling ∉ l)
    (child : NodeId) : putBefore sibling child l = l ++ [child] := by
  induction l with
  | nil => rfl
  | cons a l ih =>
      rw [List.mem_cons, not_or] at h
      rw [putBefore, if_neg (Ne.symm h.1), ih h.2, List.cons_append]

/-- Putting an item in front of another leaves the others in their order. -/
theorem filter_putBefore (sibling child : NodeId) (l : List NodeId) :
    (putBefore sibling child l).filter (· ∉ [child]) = l.filter (· ∉ [child]) := by
  induction l with
  | nil => simp [putBefore]
  | cons a l ih =>
      rw [putBefore]
      split
      · rw [List.filter_cons, if_neg (by simp)]
      · rw [List.filter_cons, List.filter_cons, ih]

/-- Putting an item in the place of another leaves the rest in their order. -/
theorem filter_putInPlace (old new : NodeId) (l : List NodeId) :
    (putInPlace old new l).filter (· ∉ [old, new]) = l.filter (· ∉ [old, new]) := by
  induction l with
  | nil => rfl
  | cons a l ih =>
      rw [putInPlace]
      split
      · rename_i ha
        rw [List.filter_cons, if_neg (by simp), List.filter_cons, if_neg (by simp [ha])]
      · rw [List.filter_cons, List.filter_cons, ih]

/-! ### What becomes of the nodes -/

/-- Some nodes were moved about, and put nowhere but below the given parent: the others have the
same parents and come in the same order. -/
structure OthersKept (f g : Forest) (moved : List NodeId) (p : NodeId) : Prop where
  size_eq : g.size = f.size
  content?_eq : ∀ m, g.content? m = f.content? m
  parent?_eq : ∀ m, m ∉ moved → g.parent? m = f.parent? m
  children_eq : ∀ q, q ≠ p → g.children q = (f.children q).filter (· ∉ moved)
  order_eq : (g.children p).filter (· ∉ moved) = (f.children p).filter (· ∉ moved)
  wellFormed : g.WellFormed

/-- A node was taken out of where it was and put right before a child of the given parent. -/
structure InsertedBefore (f g : Forest) (sibling child p : NodeId) : Prop
    extends OthersKept f g [child] p where
  parent?_child : g.parent? child = some p
  place : ∃ before after, (f.children p).filter (· ∉ [child]) = before ++ sibling :: after ∧
    g.children p = before ++ child :: sibling :: after

/-- A node was taken out of where it was and put behind all other children of the given parent. -/
structure MovedLast (f g : Forest) (child p : NodeId) : Prop
    extends OthersKept f g [child] p where
  parent?_child : g.parent? child = some p
  place : g.children p = (f.children p).filter (· ∉ [child]) ++ [child]

/-- A node was taken out of where it was and put where a child of the given parent stood; that one
has no parent now. -/
structure ReplacedBy (f g : Forest) (old new p : NodeId) : Prop
    extends OthersKept f g [old, new] p where
  parent?_old : g.parent? old = none
  parent?_new : g.parent? new = some p
  place : ∃ before after, (f.children p).filter (· ∉ [new]) = before ++ old :: after ∧
    g.children p = before ++ new :: after

/-- A child of the given parent was taken out, and nothing put in its place. -/
structure TakenOut (f g : Forest) (n p : NodeId) : Prop extends OthersKept f g [n] p where
  parent?_node : g.parent? n = none
  place : g.children p = (f.children p).filter (· ∉ [n])

theorem filter_bne_eq (n : NodeId) (l : List NodeId) :
    l.filter (· != n) = l.filter (· ∉ [n]) :=
  List.filter_congr fun m _ => by simp [bne, Bool.beq_eq_decide_eq]

/-! ### In front of a node -/

section InsertBefore

variable {s c : NodeId} (hf : f.WellFormed) (hc : c < f.size) (hp : f.parent? s = some p)
include hp

theorem insertBefore_eq_place (c : NodeId) :
    f.insertBefore s c = f.place p c (Forest.putBefore s c) := by
  rw [insertBefore, hp, place]

include hf hc

/-- A node put in front of another, be it itself, leaves the others where they are. -/
theorem othersKept_insertBefore (hwell : (f.insertBefore s c).WellFormed) :
    OthersKept f (f.insertBefore s c) [c] p := by
  have hlt : p < f.size := lt_size_of_mem_children (hf.mem_children_iff.2 hp)
  have hchildren := children_place f p c (putBefore s c) hf hlt
  rw [insertBefore_eq_place hp] at hwell ⊢
  refine ⟨size_place f p c _, content?_place f p c _, ?_, ?_, ?_, hwell⟩
  · intro m hm
    rw [parent?_place f p c _ hc, if_neg (by simpa using hm)]
  · intro q hq
    rw [hchildren, if_neg (Ne.symm hq), filter_bne_eq]
  · rw [hchildren, if_pos rfl, filter_putBefore, filter_bne_eq, List.filter_filter]
    simp

theorem insertedBefore_insertBefore (hne : c ≠ s) (hwell : (f.insertBefore s c).WellFormed) :
    InsertedBefore f (f.insertBefore s c) s c p := by
  have hmem : s ∈ f.children p := hf.mem_children_iff.2 hp
  refine ⟨othersKept_insertBefore hf hc hp hwell, ?_, ?_⟩
  · rw [insertBefore_eq_place hp, parent?_place f p c _ hc, if_pos rfl]
  · rw [insertBefore_eq_place hp, children_place f p c _ hf (lt_size_of_mem_children hmem),
      if_pos rfl, filter_bne_eq]
    exact exists_putBefore_eq (List.mem_filter.2 ⟨hmem, by simp [Ne.symm hne]⟩) c

end InsertBefore

/-- A node put in front of itself comes last. -/
theorem movedLast_insertBefore {s : NodeId} (hf : f.WellFormed) (hp : f.parent? s = some p)
    (hwell : (f.insertBefore s s).WellFormed) : MovedLast f (f.insertBefore s s) s p := by
  have hs := lt_size_of_parent? hp
  have hlt : p < f.size := lt_size_of_mem_children (hf.mem_children_iff.2 hp)
  refine ⟨othersKept_insertBefore hf hs hp hwell, ?_, ?_⟩
  · rw [insertBefore_eq_place hp, parent?_place f p s _ hs, if_pos rfl]
  · rw [insertBefore_eq_place hp, children_place f p s _ hf hlt, if_pos rfl, filter_bne_eq,
      putBefore_of_notMem (by simp)]

/-! ### In the place of a node -/

section Replace

variable {old new : NodeId} (hf : f.WellFormed) (hp : f.parent? old = some p)
include hf hp

theorem replacedBy_replace (hne : new ≠ old) (hnew : new < f.size)
    (hwell : (f.replace old new).1.WellFormed) :
    ReplacedBy f (f.replace old new).1 old new p := by
  have hplace := parent?_takenOut hne hp
  have hmem := (hf.detach new).mem_children_iff.2 hplace
  have hout : (f.detach new).parent? new = none := by rw [parent?_detach, if_pos rfl]
  have hchildren := children_replace hplace hmem hout
  have hparent := parent?_replace hplace hmem hout
  simp only [children_detach hf, filter_bne_eq] at hchildren hmem
  rw [replace_takenOut hne hp] at hwell ⊢
  refine ⟨⟨?_, ?_, ?_, ?_, ?_, hwell⟩, ?_, ?_, ?_⟩
  · rw [size_replace hplace ((hf.detach new).mem_children_iff.2 hplace) hout, size_detach]
  · intro m
    rw [content?_replace hplace ((hf.detach new).mem_children_iff.2 hplace) hout, content?_detach]
  · intro m hm
    rw [List.mem_cons, List.mem_singleton, not_or] at hm
    rw [hparent, if_neg (Ne.symm hm.1), if_neg fun h => hm.2 h.1.symm, parent?_detach,
      if_neg (Ne.symm hm.2)]
  · intro q hq
    have hold : ∀ m ∈ f.children q, m ≠ old := by
      rintro m hm rfl
      exact hq (Option.some.inj ((hf.mem_children_iff.1 hm).symm.trans hp))
    rw [hchildren, if_neg (Ne.symm hq)]
    refine List.filter_congr fun m hm => ?_
    simp [hold m hm]
  · rw [hchildren, if_pos rfl, filter_putInPlace, List.filter_filter]
    refine List.filter_congr fun m _ => ?_
    simp
  · rw [hparent, if_pos rfl]
  · rw [hparent, if_neg (Ne.symm hne), if_pos ⟨rfl, by rwa [size_detach]⟩]
  · rw [hchildren, if_pos rfl]
    exact exists_putInPlace_eq hmem new

theorem replace_snd (hne : new ≠ old) : (f.replace old new).2 = true := by
  have hmem := (hf.detach new).mem_children_iff.2 (parent?_takenOut hne hp)
  rw [replace, hp]
  dsimp only
  rw [if_pos hmem]

/-- A node put in its own place is taken out, and there is no place for it. -/
theorem replace_self : f.replace old old = (f.detach old, false) := by
  have hout : old ∉ (f.detach old).children p := by
    rw [(hf.detach old).mem_children_iff, parent?_detach, if_pos rfl]
    simp
  rw [replace, hp]
  dsimp only
  rw [if_neg hout]

end Replace

/-- A node that is taken out leaves the others where they are. -/
theorem takenOut_detach (hf : f.WellFormed) (n p : NodeId) : TakenOut f (f.detach n) n p := by
  refine ⟨⟨size_detach f n, content?_detach f n, ?_, ?_, ?_, hf.detach n⟩, ?_, ?_⟩
  · intro m hm
    rw [parent?_detach, if_neg fun h => hm (by simp [h])]
  · intro q _
    rw [children_detach hf, filter_bne_eq]
  · rw [children_detach hf, filter_bne_eq, List.filter_filter]
    simp
  · rw [parent?_detach, if_pos rfl]
  · rw [children_detach hf, filter_bne_eq]

/-! ### Both operations -/

/-- **Putting a node in front of another, or in its place, edits the lists of children** just as it
is called, as long as the two are not one and the other has a parent; without a parent nothing
happens.  A node that is put in front of itself comes last among its siblings, and one that is to
replace itself is taken out, with the answer that it had no place. -/
theorem placement_edits (hf : f.WellFormed) :
    (∀ s < f.size, ∀ c < f.size, (∀ n, ¬ Relation.TransGen (f.insertBefore s c).ChildOf n n) →
      (∀ p, f.parent? s = some p →
        (c ≠ s → InsertedBefore f (f.insertBefore s c) s c p) ∧
        (c = s → MovedLast f (f.insertBefore s c) s p)) ∧
      (f.parent? s = none → f.insertBefore s c = f)) ∧
    (∀ old < f.size, ∀ new < f.size,
      (∀ n, ¬ Relation.TransGen (f.replace old new).1.ChildOf n n) →
      ((f.replace old new).2 = true ↔ (∃ p, f.parent? old = some p) ∧ new ≠ old) ∧
      (∀ p, f.parent? old = some p →
        (new ≠ old → ReplacedBy f (f.replace old new).1 old new p) ∧
        (new = old → TakenOut f (f.replace old new).1 old p)) ∧
      (f.parent? old = none → (f.replace old new).1 = f)) := by
  have hwell : ∀ op : Operation, (∀ n ∈ op.nodes, n < f.size) →
      (∀ n, ¬ Relation.TransGen (op.apply f).ChildOf n n) → (op.apply f).WellFormed :=
    fun op hnodes hacyclic => Operation.wellFormed_apply hf hnodes
      ((Operation.acyclic_apply_iff hf hnodes).1 hacyclic)
  constructor
  · intro s hs c hc hacyclic
    have hresult := hwell (.insertBefore s c) (by simp [Operation.nodes, hs, hc]) hacyclic
    refine ⟨fun p hp => ⟨fun hne => ?_, ?_⟩, fun hnone => by rw [insertBefore, hnone]⟩
    · exact insertedBefore_insertBefore hf hc hp hne hresult
    · rintro rfl
      exact movedLast_insertBefore hf hp hresult
  · intro old hold new hnew hacyclic
    have hresult := hwell (.replace old new) (by simp [Operation.nodes, hold, hnew]) hacyclic
    refine ⟨⟨fun htrue => ?_, fun h => h.1.elim fun _ hp => replace_snd hf hp h.2⟩,
      fun p hp => ⟨fun hne => replacedBy_replace hf hp hne hnew hresult, ?_⟩,
      fun hnone => by rw [replace, hnone]⟩
    · cases hp : f.parent? old with
      | none =>
          rw [replace, hp] at htrue
          cases htrue
      | some p =>
          refine ⟨⟨p, rfl⟩, ?_⟩
          rintro rfl
          rw [replace_self hf hp] at htrue
          cases htrue
    · rintro rfl
      rw [replace_self hf hp]
      exact takenOut_detach hf new p

/-- A sibling is moved to the front, and a node gives its place to one that is below it. -/
theorem placement_edits_descendant :
    let f : Forest := ⟨#[⟨none, [1, 2, 3], .document⟩, ⟨some 0, [], .text "a"⟩,
      ⟨some 0, [4], .element (.ofTag "b")⟩, ⟨some 0, [], .text "c"⟩, ⟨some 2, [], .text "d"⟩]⟩
    f.WellFormed ∧ InsertedBefore f (f.insertBefore 1 3) 1 3 0 ∧
      MovedLast f (f.insertBefore 1 1) 1 0 ∧ f.insertBefore 0 1 = f ∧
      (f.replace 2 4).2 = true ∧ ReplacedBy f (f.replace 2 4).1 2 4 0 ∧
      TakenOut f (f.replace 2 2).1 2 0 ∧ (f.replace 0 1).1 = f := by
  intro f
  have hf : f.WellFormed := wellFormed_of_forall (by decide)
  obtain ⟨hinsert, hreplace⟩ := placement_edits hf
  have hsibling := hinsert 1 (by decide) 3 (by decide)
    (wellFormed_of_forall (by decide)).acyclic
  have hitself := hinsert 1 (by decide) 1 (by decide)
    (wellFormed_of_forall (by decide)).acyclic
  have hroot := hinsert 0 (by decide) 1 (by decide) (wellFormed_of_forall (by decide)).acyclic
  have hbelow := hreplace 2 (by decide) 4 (by decide)
    (wellFormed_of_forall (by decide)).acyclic
  have hsame := hreplace 2 (by decide) 2 (by decide) (wellFormed_of_forall (by decide)).acyclic
  have htop := hreplace 0 (by decide) 1 (by decide) (wellFormed_of_forall (by decide)).acyclic
  exact ⟨hf, (hsibling.1 0 (by decide)).1 (by decide), (hitself.1 0 (by decide)).2 rfl,
    hroot.2 (by decide), hbelow.1.2 ⟨⟨0, by decide⟩, by decide⟩,
    (hbelow.2.1 0 (by decide)).1 (by decide), (hsame.2.1 0 (by decide)).2 rfl,
    htop.2.2 (by decide)⟩

/-- The first of two children is put in front of itself, and in its own place: it comes to stand
behind the other one, and it is gone.  No node is made its own ancestor by that. -/
theorem placement_of_itself :
    let f : Forest := ⟨#[⟨none, [1, 2], .document⟩, ⟨some 0, [], .text "a"⟩,
      ⟨some 0, [], .text "b"⟩]⟩
    f.WellFormed ∧ f.parent? 1 = some 0 ∧
      (∀ n, ¬ Relation.TransGen (f.insertBefore 1 1).ChildOf n n) ∧
      (f.insertBefore 1 1).children 0 = [2, 1] ∧ f.insertBefore 1 1 ≠ f ∧
      (∀ n, ¬ Relation.TransGen (f.replace 1 1).1.ChildOf n n) ∧
      (f.replace 1 1).2 = false ∧ (f.replace 1 1).1.children 0 = [2] ∧
      (f.replace 1 1).1 ≠ f := by
  intro f
  exact ⟨wellFormed_of_forall (by decide), by decide, (wellFormed_of_forall (by decide)).acyclic,
    by decide, by decide, (wellFormed_of_forall (by decide)).acyclic, by decide, by decide,
    by decide⟩

end Forest

end StyleInliner.Dom
