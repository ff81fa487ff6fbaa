/-
The walk over a tree meets what is below its root, each node once.

The list of nodes still to come is an antichain: none of them is above another
(`Apart`).  Taking the first one and putting its children in its place keeps it
one, so no node comes twice (`nodup_walk`).  The nodes met are then at most as
many as there are nodes, and that makes the fuel enough: a walk with one unit
more ends because nothing is left to come (`closed_of_length_lt`), and it is no
longer than the walk with the fuel it has.

The index is made from that walk, so what the index lists is told by the content
of the nodes alone (`classed_ofDocument`, `byTag_ofDocument`).
-/
import Mathlib.Data.List.Perm.Subperm
import StyleInliner.Dom.Index
import StyleInliner.Proofs.Dom.Forest
import StyleInliner.Proofs.Grouping

namespace StyleInliner.Dom

namespace Forest

variable {f : Forest} {n m : NodeId}

/-- Neither node is the other one or above it. -/
def Apart (f : Forest) (a b : NodeId) : Prop :=
  ¬ f.Below a b ∧ ¬ f.Below b a

/-! ### No node comes twice -/

theorem below_of_mem_children (hf : f.WellFormed) (h : m ∈ f.children n) : f.Below m n :=
  Relation.ReflTransGen.single (hf.mem_children_iff.1 h)

/-- Nothing is above itself, not even by way of one of its children. -/
theorem not_below_child (hf : f.WellFormed) (h : m ∈ f.children n) : ¬ f.Below n m := fun hnm =>
  hf.acyclic m (Relation.TransGen.head' (hf.mem_children_iff.1 h) hnm)

/-- What is below a child, and what the child is below, is below the parent or the child. -/
theorem below_parent_of_below_child (hf : f.WellFormed) (h : m ∈ f.children n) {a : NodeId}
    (hma : f.Below m a) : m = a ∨ f.Below n a := by
  rcases Relation.ReflTransGen.cases_head hma with heq | ⟨p, hp, hpa⟩
  · exact Or.inl heq
  · obtain rfl := Option.some.inj (hp.symm.trans (hf.mem_children_iff.1 h))
    exact Or.inr hpa

theorem not_below_sibling (hf : f.WellFormed) {a b : NodeId} (ha : a ∈ f.children n)
    (hb : b ∈ f.children n) (hne : a ≠ b) : ¬ f.Below a b := by
  intro hab
  rcases below_parent_of_below_child hf ha hab with heq | hnb
  · exact hne heq
  · exact not_below_child hf hb hnb

theorem apart_children (hf : f.WellFormed) : (f.children n).Pairwise f.Apart :=
  (hf.nodup_children n).imp_of_mem fun ha hb hne =>
    ⟨not_below_sibling hf ha hb hne, not_below_sibling hf hb ha (Ne.symm hne)⟩

theorem below_antisymm (hf : f.WellFormed) {a b : NodeId} (hab : f.Below a b)
    (hba : f.Below b a) : a = b := by
  rcases Relation.ReflTransGen.cases_head hab with rfl | ⟨p, hp, hpb⟩
  · rfl
  · exact absurd (Relation.TransGen.head' hp (hpb.trans hba)) (hf.acyclic a)

/-- Of two nodes above a third one, one is above the other. -/
theorem below_total {a b : NodeId} (ha : f.Below m a) (hb : f.Below m b) :
    f.Below a b ∨ f.Below b a := by
  have hunique : Relator.RightUnique f.ChildOf := fun n p q hp hq =>
    Option.some.inj (hp.symm.trans hq)
  exact Relation.ReflTransGen.total_of_right_unique hunique ha hb

/-- Nothing is below two children of one node. -/
theorem eq_of_below_children (hf : f.WellFormed) {a b : NodeId} (ha : a ∈ f.children n)
    (hb : b ∈ f.children n) (hma : f.Below m a) (hmb : f.Below m b) : a = b := by
  by_contra hne
  rcases below_total hma hmb with hab | hba
  · exact not_below_sibling hf ha hb hne hab
  · exact not_below_sibling hf hb ha (Ne.symm hne) hba

/-- Putting the children of the first node in its place keeps the nodes to come apart. -/
theorem apart_step (hf : f.WellFormed) {rest : List NodeId}
    (h : (n :: rest).Pairwise f.Apart) : (f.children n ++ rest).Pairwise f.Apart := by
  obtain ⟨hhead, htail⟩ := List.pairwise_cons.1 h
  refine List.pairwise_append.2 ⟨apart_children hf, htail, ?_⟩
  intro c hc r hr
  obtain ⟨hnr, hrn⟩ := hhead r hr
  constructor
  · intro hcr
    rcases below_parent_of_below_child hf hc hcr with rfl | hbelow
    · exact hrn (below_of_mem_children hf hc)
    · exact hnr hbelow
  · exact fun hrc => hrn (hrc.trans (below_of_mem_children hf hc))

/-- Whatever is met is below one of the nodes to come. -/
theorem exists_below_of_mem_walk (hf : f.WellFormed) {fuel : Nat} {todo : List NodeId}
    (h : m ∈ f.walk fuel todo) : ∃ n ∈ todo, f.Below m n := by
  induction fuel generalizing todo with
  | zero => simp [walk] at h
  | succ fuel ih =>
      cases todo with
      | nil => simp [walk] at h
      | cons n rest =>
          rcases List.mem_cons.1 h with rfl | h
          · exact ⟨m, by simp, Relation.ReflTransGen.refl⟩
          · obtain ⟨a, ha, hma⟩ := ih h
            rcases List.mem_append.1 ha with ha | ha
            · exact ⟨n, by simp, hma.trans (below_of_mem_children hf ha)⟩
            · exact ⟨a, by simp [ha], hma⟩

theorem nodup_walk (hf : f.WellFormed) {fuel : Nat} {todo : List NodeId}
    (h : todo.Pairwise f.Apart) : (f.walk fuel todo).Nodup := by
  induction fuel generalizing todo with
  | zero => simp [walk]
  | succ fuel ih =>
      cases todo with
      | nil => simp [walk]
      | cons n rest =>
          rw [walk, List.nodup_cons]
          refine ⟨?_, ih (apart_step hf h)⟩
          intro hn
          obtain ⟨a, ha, hna⟩ := exists_below_of_mem_walk hf hn
          rcases List.mem_append.1 ha with ha | ha
          · exact not_below_child hf ha hna
          · exact ((List.pairwise_cons.1 h).1 a ha).1 hna

/-! ### No node is left out -/

/-- A walk that is shorter than its fuel has met all that was to come, with all children. -/
theorem closed_of_length_lt {fuel : Nat} {todo : List NodeId}
    (h : (f.walk fuel todo).length < fuel) :
    (∀ n ∈ todo, n ∈ f.walk fuel todo) ∧
      ∀ n ∈ f.walk fuel todo, ∀ c ∈ f.children n, c ∈ f.walk fuel todo := by
  induction fuel generalizing todo with
  | zero => omega
  | succ fuel ih =>
      cases todo with
      | nil => simp [walk]
      | cons n rest =>
          rw [walk, List.length_cons] at h
          obtain ⟨htodo, hclosed⟩ := ih (Nat.lt_of_succ_lt_succ h)
          rw [walk]
          constructor
          · intro m hm
            rcases List.mem_cons.1 hm with rfl | hm
            · simp
            · exact List.mem_cons_of_mem n (htodo m (by simp [hm]))
          · intro m hm c hc
            rcases List.mem_cons.1 hm with rfl | hm
            · exact List.mem_cons_of_mem _ (htodo c (by simp [hc]))
            · exact List.mem_cons_of_mem _ (hclosed m hm c hc)

theorem walk_eq_take (f : Forest) (fuel : Nat) (todo : List NodeId) :
    f.walk fuel todo = (f.walk (fuel + 1) todo).take fuel := by
  induction fuel generalizing todo with
  | zero => simp [walk]
  | succ fuel ih =>
      cases todo with
      | nil => simp [walk]
      | cons n rest => rw [walk, walk, ih, List.take_succ_cons]

theorem lt_size_of_below (h : f.Below m n) (hn : n < f.size) : m < f.size := by
  rcases Relation.ReflTransGen.cases_head h with rfl | ⟨p, hp, -⟩
  · exact hn
  · exact lt_size_of_parent? hp

theorem nodup_preorder (hf : f.WellFormed) (root : NodeId) : (f.preorder root).Nodup :=
  nodup_walk hf (List.pairwise_singleton _ _)

/-- **The walk from a node meets just what is below it.** -/
theorem mem_preorder_iff (hf : f.WellFormed) {root : NodeId} (hroot : root < f.size) :
    n ∈ f.preorder root ↔ f.Below n root := by
  have hsound : ∀ {fuel m}, m ∈ f.walk fuel [root] → f.Below m root := by
    intro fuel m hm
    obtain ⟨a, ha, hma⟩ := exists_below_of_mem_walk hf hm
    rwa [List.mem_singleton.1 ha] at hma
  -- the nodes met are distinct numbers below the size, so the longer walk is no longer
  have hlength : (f.walk (f.size + 1) [root]).length ≤ f.size := by
    have hsub : f.walk (f.size + 1) [root] ⊆ List.range f.size := fun m hm =>
      List.mem_range.2 (lt_size_of_below (hsound hm) hroot)
    have hle := (List.subperm_of_subset
      (nodup_walk hf (List.pairwise_singleton f.Apart root)) hsub).length_le
    rwa [List.length_range] at hle
  have hsame : f.preorder root = f.walk (f.size + 1) [root] := by
    rw [preorder, walk_eq_take, List.take_of_length_le hlength]
  obtain ⟨htodo, hclosed⟩ := closed_of_length_lt (Nat.lt_succ_of_le hlength)
  constructor
  · exact fun h => hsound h
  · intro h
    rw [hsame]
    induction h using Relation.ReflTransGen.head_induction_on with
    | refl => exact htodo root (by simp)
    | head hp _ ih => exact hclosed _ ih _ (hf.mem_children_iff.2 hp)

end Forest

/-! ### The index -/

namespace Index

variable (d : Document)

theorem ofDocument_foldl (f : Forest) (nodes : List NodeId) (index : Index) :
    let made := nodes.foldl (add f) index
    made.elements = index.elements ++ nodes ∧
      made.classed = index.classed ++
        nodes.filter (fun n => (f.element? n).any (·.hasAttribute "class")) ∧
      made.tags = (nodes.map fun n => ((f.tag? n).getD "", [n])).foldl
        (fun g entry => g.add entry.1 entry.2) index.tags := by
  induction nodes generalizing index with
  | nil => simp
  | cons n nodes ih =>
      obtain ⟨helements, hclassed, htags⟩ := ih (add f index n)
      refine ⟨?_, ?_, ?_⟩
      · rw [List.foldl_cons, helements, add, List.append_assoc, List.singleton_append]
      · rw [List.foldl_cons, hclassed, List.filter_cons, add]
        split <;> simp
      · rw [List.foldl_cons, htags, List.map_cons, List.foldl_cons]
        rfl

theorem elements_ofDocument : (ofDocument d).elements = d.elements :=
  (ofDocument_foldl d.forest d.elements empty).1

theorem classed_ofDocument :
    (ofDocument d).classed =
      d.elements.filter fun n => (d.forest.element? n).any (·.hasAttribute "class") :=
  (ofDocument_foldl d.forest d.elements empty).2.1

/-- The group of a tag has the elements of that tag, in document order. -/
theorem getD_get?_tags_ofDocument (tag : String) :
    ((ofDocument d).tags.get? tag).getD [] =
      d.elements.filter fun n => (d.forest.tag? n).getD "" = tag := by
  rw [ofDocument, (ofDocument_foldl d.forest d.elements empty).2.2,
    show empty.tags = Grouping.empty from rfl, Grouping.getD_get?_foldl_add, List.filter_map,
    List.map_map]
  exact List.flatMap_singleton' _

/-- Under a tag stand the elements that have it, in document order. -/
theorem byTag_ofDocument (tag : String) :
    (ofDocument d).byTag tag =
      d.elements.filter fun n => (d.forest.tag? n).getD "" = Text.lower tag :=
  getD_get?_tags_ofDocument d (Text.lower tag)

end Index

end StyleInliner.Dom
