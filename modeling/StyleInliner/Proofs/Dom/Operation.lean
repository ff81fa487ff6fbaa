/-
Whatever is done to a forest step by step, it stays a forest.

`Operation` lists what can be done to the shape of a forest.  An operation puts
nodes below other nodes, and `Operation.moves` says which below which; it is safe
when none of them is put below itself.  That is all that can be asked of it:
it makes a node its own ancestor just when it is not safe (`acyclic_apply_iff`).

`wellFormed_apply` is the step, one case for each operation, and
`wellFormed_of_reachable` the run.
-/
import Mathlib.Data.List.Nodup
import StyleInliner.Proofs.Dom.Mutation
import StyleInliner.Proofs.Dom.Traversal

namespace StyleInliner.Dom

/-- A change of the shape of a forest, as a program asks for it.  Nodes are named by number; a node
may be named twice, and may stand in a tree already. -/
inductive Operation where
  | create (content : Content)
  | appendChild (parent child : NodeId)
  | insertBefore (sibling child : NodeId)
  | detach (node : NodeId)
  | replace (old new : NodeId)
  | moveChildren (source target : NodeId)
  | insertLast (parent : NodeId) (item : Insertion)
  | insertAhead (sibling : NodeId) (item : Insertion)
  | insertByTable (table previous : NodeId) (item : Insertion)
  deriving DecidableEq, Repr

/-- The node that is inserted, if it is none that is yet to be made. -/
def Insertion.nodes : Insertion → List NodeId
  | .node n => [n]
  | .text _ => []

namespace Operation

/-- The forest after an operation. -/
def apply (f : Forest) : Operation → Forest
  | create content => f.add content
  | appendChild parent child => f.appendChild parent child
  | insertBefore sibling child => f.insertBefore sibling child
  | detach node => f.detach node
  | replace old new => (f.replace old new).1
  | moveChildren source target => f.moveChildren source target
  | insertLast parent item => f.insertLast parent item
  | insertAhead sibling item => f.insertAhead sibling item
  | insertByTable table previous item => f.insertByTable table previous item

/-- The nodes that an operation names. -/
def nodes : Operation → List NodeId
  | create _ => []
  | appendChild parent child => [parent, child]
  | insertBefore sibling child => [sibling, child]
  | detach node => [node]
  | replace old new => [old, new]
  | moveChildren source target => [source, target]
  | insertLast parent item => parent :: item.nodes
  | insertAhead sibling item => sibling :: item.nodes
  | insertByTable table previous item => table :: previous :: item.nodes

/-- The nodes that an operation moves, each with the one that it is put below.  A node that an
operation makes itself is not among them. -/
def moves (f : Forest) : Operation → List (NodeId × NodeId)
  | create _ => []
  | appendChild parent child => [(child, parent)]
  | insertBefore sibling child => (f.parent? sibling).toList.map fun p => (child, p)
  | detach _ => []
  | replace old new => (f.parent? old).toList.map fun p => (new, p)
  | moveChildren source target => (f.children source).map fun c => (c, target)
  | insertLast parent item => item.nodes.map fun n => (n, parent)
  | insertAhead sibling item =>
    (f.parent? sibling).toList.flatMap fun p => item.nodes.map fun n => (n, p)
  | insertByTable table previous item =>
    item.nodes.map fun n => (n, (f.parent? table).getD previous)

/-- An operation puts no node below itself. -/
def Safe (f : Forest) (op : Operation) : Prop :=
  ∀ move ∈ op.moves f, ¬ f.Below move.2 move.1

/-! ### One step -/

theorem wellFormed_insertAhead {f : Forest} (hf : f.WellFormed) {s : NodeId} {item : Insertion}
    (hitem : ∀ n ∈ item.nodes, n < f.size)
    (hsafe : ∀ p, f.parent? s = some p → ∀ n ∈ item.nodes, ¬ f.Below p n) :
    (f.insertAhead s item).WellFormed := by
  cases item with
  | text added => exact hf.insertAhead_text s added
  | node n =>
      have hn : n ∈ (Insertion.node n).nodes := List.mem_singleton_self n
      exact hf.insertBefore (hitem n hn) fun p hp => hsafe p hp n hn

theorem wellFormed_insertLast {f : Forest} (hf : f.WellFormed) {p : NodeId} {item : Insertion}
    (hp : p < f.size) (hitem : ∀ n ∈ item.nodes, n < f.size)
    (hsafe : ∀ n ∈ item.nodes, ¬ f.Below p n) : (f.insertLast p item).WellFormed := by
  cases item with
  | text added => exact hf.insertLast_text hp added
  | node n =>
      have hn : n ∈ (Insertion.node n).nodes := List.mem_singleton_self n
      exact hf.appendChild hp (hitem n hn) (hsafe n hn)

/-- **An operation that puts no node below itself keeps a forest well-formed.** -/
theorem wellFormed_apply {f : Forest} (hf : f.WellFormed) {op : Operation}
    (hnodes : ∀ n ∈ op.nodes, n < f.size) (hsafe : op.Safe f) : (op.apply f).WellFormed := by
  unfold Safe at hsafe
  cases op with
  | create content => exact hf.add content
  | appendChild parent child =>
      exact hf.appendChild (hnodes parent (by simp [nodes])) (hnodes child (by simp [nodes]))
        (hsafe (child, parent) (by simp [moves]))
  | insertBefore sibling child =>
      exact hf.insertBefore (hnodes child (by simp [nodes]))
        fun p hp => hsafe (child, p) (by simp [moves, hp])
  | detach node => exact hf.detach node
  | replace old new =>
      exact hf.replace (hnodes new (by simp [nodes]))
        fun p hp => hsafe (new, p) (by simp [moves, hp])
  | moveChildren source target =>
      exact hf.moveChildren (hnodes target (by simp [nodes]))
        fun c hc => hsafe (c, target) (by simpa [moves] using hc)
  | insertLast parent item =>
      exact wellFormed_insertLast hf (hnodes parent (by simp [nodes]))
        (fun n hn => hnodes n (by simp [nodes, hn]))
        fun n hn => hsafe (n, parent) (by simpa [moves] using hn)
  | insertAhead sibling item =>
      exact wellFormed_insertAhead hf (fun n hn => hnodes n (by simp [nodes, hn]))
        fun p hp n hn => hsafe (n, p) (by simpa [moves, hp] using hn)
  | insertByTable table previous item =>
      have hitem : ∀ n ∈ item.nodes, n < f.size := fun n hn => hnodes n (by simp [nodes, hn])
      show (f.insertByTable table previous item).WellFormed
      unfold Forest.insertByTable
      split
      · rename_i p hp
        refine wellFormed_insertAhead hf hitem fun q hq n hn => ?_
        obtain rfl := Option.some.inj (hp.symm.trans hq)
        exact hsafe (n, p) (by simpa [moves, hp] using hn)
      · rename_i hnone
        exact wellFormed_insertLast hf (hnodes previous (by simp [nodes])) hitem
          fun n hn => hsafe (n, previous) (by simpa [moves, hnone] using hn)

/-! ### Operations that are not safe -/

section Circle

variable {f g : Forest} {p : NodeId}

/-- A way up to a moved node has a part that leads up to a moved node and is still there; from that
one it is one step to the new place, where the way began. -/
theorem exists_circle (moved : NodeId → Prop) (hmoved : ∀ m, moved m → g.ChildOf m p)
    (hedge : ∀ m q, f.Below p m → f.ChildOf m q → moved m ∨ g.ChildOf m q) {c : NodeId}
    (hc : moved c) (h : f.Below p c) : ∃ n, Relation.TransGen g.ChildOf n n := by
  have hway : ∀ {a}, f.Below a c → f.Below p a → ∃ d, moved d ∧ g.Below a d := by
    intro a hac
    induction hac using Relation.ReflTransGen.head_induction_on with
    | refl => exact fun _ => ⟨c, hc, Relation.ReflTransGen.refl⟩
    | @head a b hab _ ih =>
        intro hpa
        rcases hedge a b hpa hab with ha | hg
        · exact ⟨a, ha, Relation.ReflTransGen.refl⟩
        · obtain ⟨d, hd, hbd⟩ := ih (hpa.tail hab)
          exact ⟨d, hd, hbd.head hg⟩
  obtain ⟨d, hd, hpd⟩ := hway h Relation.ReflTransGen.refl
  exact ⟨d, Relation.TransGen.head' (hmoved d hd) hpd⟩

theorem exists_circle_place {c : NodeId} (hc : c < f.size) (h : f.Below p c)
    (change : List NodeId → List NodeId) :
    ∃ n, Relation.TransGen (f.place p c change).ChildOf n n := by
  have hparent := Forest.parent?_place f p c change hc
  refine exists_circle (fun m => m = c) ?_ ?_ rfl h
  · rintro m rfl
    rw [Forest.ChildOf, hparent, if_pos rfl]
  · intro m q _ hq
    by_cases hm : m = c
    · exact Or.inl hm
    · exact Or.inr (by rwa [Forest.ChildOf, hparent, if_neg hm])

theorem exists_circle_insertBefore {s c : NodeId} (hc : c < f.size) (hp : f.parent? s = some p)
    (h : f.Below p c) : ∃ n, Relation.TransGen (f.insertBefore s c).ChildOf n n := by
  unfold Forest.insertBefore
  rw [hp]
  exact exists_circle_place hc h _

theorem exists_circle_replace (hf : f.WellFormed) {old new : NodeId} (hnew : new < f.size)
    (hp : f.parent? old = some p) (h : f.Below p new) :
    ∃ n, Relation.TransGen (f.replace old new).1.ChildOf n n := by
  have hold : old ∈ f.children p := hf.mem_children_iff.2 hp
  have hne : new ≠ old := by
    rintro rfl
    exact Forest.not_below_child hf hold h
  have hplace := Forest.parent?_takenOut hne hp
  have hout : (f.detach new).parent? new = none := by rw [Forest.parent?_detach, if_pos rfl]
  have hparent := Forest.parent?_replace hplace ((hf.detach new).mem_children_iff.2 hplace) hout
  rw [Forest.replace_takenOut hne hp]
  refine exists_circle (fun m => m = new) ?_ ?_ rfl h
  · rintro m rfl
    rw [Forest.ChildOf, hparent, if_neg (Ne.symm hne), Forest.size_detach, if_pos ⟨rfl, hnew⟩]
  · intro m q hpm hq
    by_cases hm : m = new
    · exact Or.inl hm
    · have hmo : old ≠ m := by
        rintro rfl
        exact Forest.not_below_child hf hold hpm
      refine Or.inr ?_
      rwa [Forest.ChildOf, hparent, if_neg hmo, if_neg fun hn => hm hn.1.symm,
        Forest.parent?_detach, if_neg (Ne.symm hm)]

theorem exists_circle_moveChildren (hf : f.WellFormed) {source c : NodeId}
    (hc : c ∈ f.children source) (h : f.Below p c) :
    ∃ n, Relation.TransGen (f.moveChildren source p).ChildOf n n := by
  refine exists_circle (fun m => m ∈ f.children source) ?_ ?_ hc h
  · intro m hm
    rw [Forest.ChildOf, Forest.parent?_moveChildren,
      if_pos ⟨hm, Forest.lt_size_of_parent? (hf.mem_children_iff.1 hm)⟩]
  · intro m q _ hq
    by_cases hm : m ∈ f.children source
    · exact Or.inl hm
    · exact Or.inr (by rwa [Forest.ChildOf, Forest.parent?_moveChildren, if_neg fun hn => hm hn.1])

end Circle

/-- An operation that puts a node below itself makes a circle. -/
theorem exists_circle_apply {f : Forest} (hf : f.WellFormed) {op : Operation}
    (hnodes : ∀ n ∈ op.nodes, n < f.size) {c p : NodeId} (hmove : (c, p) ∈ op.moves f)
    (h : f.Below p c) : ∃ n, Relation.TransGen (op.apply f).ChildOf n n := by
  cases op with
  | create content => simp [moves] at hmove
  | appendChild parent child =>
      obtain ⟨rfl, rfl⟩ : c = child ∧ p = parent := by simpa [moves] using hmove
      exact exists_circle_place (hnodes c (by simp [nodes])) h _
  | insertBefore sibling child =>
      obtain ⟨hp, rfl⟩ : f.parent? sibling = some p ∧ child = c := by simpa [moves] using hmove
      exact exists_circle_insertBefore (hnodes child (by simp [nodes])) hp h
  | detach node => simp [moves] at hmove
  | replace old new =>
      obtain ⟨hp, rfl⟩ : f.parent? old = some p ∧ new = c := by simpa [moves] using hmove
      exact exists_circle_replace hf (hnodes new (by simp [nodes])) hp h
  | moveChildren source target =>
      obtain ⟨hc, rfl⟩ : c ∈ f.children source ∧ target = p := by simpa [moves] using hmove
      exact exists_circle_moveChildren hf hc h
  | insertLast parent item =>
      cases item with
      | text added => simp [moves, Insertion.nodes] at hmove
      | node n =>
          obtain ⟨rfl, rfl⟩ : c = n ∧ p = parent := by simpa [moves, Insertion.nodes] using hmove
          exact exists_circle_place (hnodes c (by simp [nodes, Insertion.nodes])) h _
  | insertAhead sibling item =>
      cases item with
      | text added => simp [moves, Insertion.nodes] at hmove
      | node n =>
          obtain ⟨hp, rfl⟩ : f.parent? sibling = some p ∧ c = n := by
            simpa [moves, Insertion.nodes] using hmove
          exact exists_circle_insertBefore (hnodes c (by simp [nodes, Insertion.nodes])) hp h
  | insertByTable table previous item =>
      cases item with
      | text added => simp [moves, Insertion.nodes] at hmove
      | node n =>
          obtain ⟨rfl, rfl⟩ : c = n ∧ p = (f.parent? table).getD previous := by
            simpa [moves, Insertion.nodes] using hmove
          have hc : c < f.size := hnodes c (by simp [nodes, Insertion.nodes])
          show ∃ n, Relation.TransGen (f.insertByTable table previous (.node c)).ChildOf n n
          unfold Forest.insertByTable
          split
          · rename_i p hp
            rw [hp] at h
            exact exists_circle_insertBefore hc hp h
          · rename_i hnone
            rw [hnone] at h
            exact exists_circle_place hc h _

/-- **An operation makes some node its own ancestor just when it puts one below itself.** -/
theorem acyclic_apply_iff {f : Forest} (hf : f.WellFormed) {op : Operation}
    (hnodes : ∀ n ∈ op.nodes, n < f.size) :
    (∀ n, ¬ Relation.TransGen (op.apply f).ChildOf n n) ↔ op.Safe f := by
  constructor
  · rintro hacyclic ⟨c, p⟩ hmove h
    obtain ⟨n, hn⟩ := exists_circle_apply hf hnodes hmove h
    exact hacyclic n hn
  · exact fun hsafe => (wellFormed_apply hf hnodes hsafe).acyclic

end Operation

/-! ### Runs -/

/-- What a forest can become by operations on its nodes none of which puts a node below itself. -/
inductive Forest.Reachable (start : Forest) : Forest → Prop
  | refl : Reachable start start
  | step {f : Forest} (h : Reachable start f) (op : Operation) (hnodes : ∀ n ∈ op.nodes, n < f.size)
      (hsafe : op.Safe f) : Reachable start (op.apply f)

/-- **A forest stays a forest:** after any number of operations the children that a node lists are
those whose parent it is, each listed once, and following the parents never leads back. -/
theorem Forest.wellFormed_of_reachable {start f : Forest} (hstart : start.WellFormed)
    (h : start.Reachable f) :
    (∀ p c, c ∈ f.children p ↔ f.parent? c = some p) ∧
      (∀ p c, c ∈ f.children p → (f.children p).count c = 1) ∧
      ∀ n, ¬ Relation.TransGen f.ChildOf n n := by
  have hf : f.WellFormed := by
    induction h with
    | refl => exact hstart
    | step _ op hnodes hsafe ih => exact Operation.wellFormed_apply ih hnodes hsafe
  exact ⟨fun p c => hf.mem_children_iff, fun p c => List.count_eq_one_of_mem (hf.nodup_children p),
    hf.acyclic⟩

/-- The last operation puts a node in front of itself. -/
theorem Forest.wellFormed_of_reachable_before_itself :
    let f := (((Forest.empty.add .document).add (.text "t")).appendChild 0 1).insertBefore 1 1
    Forest.empty.WellFormed ∧ Forest.empty.Reachable f ∧
      (∀ p c, c ∈ f.children p ↔ f.parent? c = some p) ∧
      (∀ p c, c ∈ f.children p → (f.children p).count c = 1) ∧
      ∀ n, ¬ Relation.TransGen f.ChildOf n n := by
  have hempty : Forest.empty.WellFormed := Forest.wellFormed_of_forall (by decide)
  have htop : ∀ f : Forest, f.parent? 0 = none → ¬ f.Below 0 1 := by
    intro f hnone h
    rcases Relation.ReflTransGen.cases_head h with heq | ⟨p, hp, -⟩
    · exact absurd heq (by decide)
    · exact absurd (hnone.symm.trans hp) (by simp)
  have hstart : Forest.empty.Reachable Forest.empty := .refl
  have hreach := (((hstart.step (.create .document) (by decide)
    (by simp [Operation.Safe, Operation.moves])).step (.create (.text "t")) (by decide)
    (by simp [Operation.Safe, Operation.moves])).step (.appendChild 0 1) (by decide)
    (by simpa [Operation.Safe, Operation.moves] using htop _ (by decide))).step
    (.insertBefore 1 1) (by decide) (by
      intro move hmove
      obtain rfl : move = (1, 0) := by
        revert move
        decide
      exact htop _ (by decide))
  exact ⟨hempty, hreach, Forest.wellFormed_of_reachable hempty hreach⟩

end StyleInliner.Dom
