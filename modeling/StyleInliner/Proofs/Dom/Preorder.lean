/-
Walks as lists, one subtree after the other.

The walk keeps a single list of the nodes to come and never goes back.  Taken
apart it is what one expects: walking several trees is walking them one after the
other (`walk_size_eq_flatMap`), so a node is followed by the walks over its
children (`preorder_eq`).  With that equation two walks are compared from the
leaves up, by `induction_children`.

Taking nodes out of a tree takes just their subtrees out of the walk over it
(`preorder_foldl_detach`), and does nothing at all to a walk that they do not
come in (`preorder_foldl_detach_of_not_below`).
-/
import StyleInliner.Proofs.Dom.Traversal

namespace StyleInliner.Dom

namespace Forest

variable {f g : Forest} {n m : NodeId}

theorem WellFormed.lt_size_of_child (hf : f.WellFormed) (h : m ∈ f.children n) : m < f.size :=
  lt_size_of_parent? (hf.mem_children_iff.1 h)

/-! ### One tree after the other -/

theorem walk_nil (f : Forest) (fuel : Nat) : f.walk fuel [] = [] := by
  cases fuel <;> rfl

/-- The second part of a list gets the fuel that the first one leaves. -/
theorem walk_append (f : Forest) (fuel : Nat) (first second : List NodeId) :
    f.walk fuel (first ++ second) =
      f.walk fuel first ++ f.walk (fuel - (f.walk fuel first).length) second := by
  induction fuel generalizing first with
  | zero => simp [walk]
  | succ fuel ih =>
      cases first with
      | nil => simp [walk_nil]
      | cons n first =>
          rw [List.cons_append, walk, walk, ← List.append_assoc, ih, List.cons_append,
            List.length_cons, Nat.add_sub_add_right]

section Fuel

variable (hf : f.WellFormed) {todo : List NodeId} (htodo : todo.Pairwise f.Apart)
  (hlt : ∀ n ∈ todo, n < f.size)
include hf htodo hlt

theorem length_walk_le (fuel : Nat) : (f.walk fuel todo).length ≤ f.size := by
  have hsub : f.walk fuel todo ⊆ List.range f.size := by
    intro m hm
    obtain ⟨n, hn, hmn⟩ := exists_below_of_mem_walk hf hm
    exact List.mem_range.2 (lt_size_of_below hmn (hlt n hn))
  have hle := (List.subperm_of_subset (nodup_walk hf htodo) hsub).length_le
  rwa [List.length_range] at hle

/-- More fuel than there are nodes makes no difference. -/
theorem walk_of_size_le {fuel : Nat} (h : f.size ≤ fuel) :
    f.walk fuel todo = f.walk f.size todo := by
  induction h with
  | refl => rfl
  | @step fuel hle ih =>
      have hlength := Nat.le_trans (length_walk_le hf htodo hlt (fuel + 1)) hle
      rw [← ih, walk_eq_take f fuel, List.take_of_length_le hlength]

/-- **Walking several trees is walking one after the other.** -/
theorem walk_size_eq_flatMap : f.walk f.size todo = todo.flatMap f.preorder := by
  induction todo with
  | nil => exact walk_nil f f.size
  | cons n rest ih =>
      obtain ⟨-, hrest⟩ := List.pairwise_cons.1 htodo
      have hltRest : ∀ m ∈ rest, m < f.size := fun m hm => hlt m (List.mem_cons_of_mem n hm)
      have hone := List.pairwise_singleton f.Apart n
      have hltOne : ∀ m ∈ [n], m < f.size := fun m hm => hlt m (by simp_all)
      have hlength := length_walk_le hf hone hltOne (f.size + f.size)
      -- with twice the fuel there is enough left when the first tree is done
      calc f.walk f.size (n :: rest)
          = f.walk (f.size + f.size) ([n] ++ rest) :=
            (walk_of_size_le hf htodo hlt (Nat.le_add_right _ _)).symm
        _ = f.walk (f.size + f.size) [n] ++
              f.walk (f.size + f.size - (f.walk (f.size + f.size) [n]).length) rest :=
            walk_append f _ [n] rest
        _ = f.preorder n ++ f.walk f.size rest := by
            rw [walk_of_size_le hf hrest hltRest (by omega),
              walk_of_size_le hf hone hltOne (Nat.le_add_right _ _), preorder]
        _ = (n :: rest).flatMap f.preorder := by
            rw [ih hrest hltRest, List.flatMap_cons]

end Fuel

/-- **A node is followed by what is below its children, one child after the other.** -/
theorem preorder_eq (hf : f.WellFormed) (hn : n < f.size) :
    f.preorder n = n :: (f.children n).flatMap f.preorder := by
  have hone := List.pairwise_singleton f.Apart n
  have hltOne : ∀ m ∈ [n], m < f.size := by simpa using hn
  calc f.preorder n
      = f.walk (f.size + 1) [n] := (walk_of_size_le hf hone hltOne (Nat.le_succ _)).symm
    _ = n :: f.walk f.size (f.children n) := by rw [walk, List.append_nil]
    _ = n :: (f.children n).flatMap f.preorder := by
        rw [walk_size_eq_flatMap hf (apart_children hf) fun m hm => hf.lt_size_of_child hm]

/-- The walk from a child is shorter than the walk from its parent. -/
theorem length_preorder_lt (hf : f.WellFormed) (hm : m ∈ f.children n) :
    (f.preorder m).length < (f.preorder n).length := by
  have hsub : f.preorder m ⊆ (f.children n).flatMap f.preorder := fun k hk =>
    List.mem_flatMap.2 ⟨m, hm, hk⟩
  rw [preorder_eq hf (lt_size_of_mem_children hm)]
  exact Nat.lt_succ_of_le (List.subperm_of_subset (nodup_preorder hf m) hsub).length_le

/-- What holds of a node when it holds of its children holds of every node. -/
theorem induction_children (hf : f.WellFormed) {P : NodeId → Prop}
    (step : ∀ n, n < f.size → (∀ c ∈ f.children n, P c) → P n) (hn : n < f.size) : P n := by
  induction hlength : (f.preorder n).length using Nat.strongRecOn generalizing n with
  | _ length ih =>
      exact step n hn fun c hc =>
        ih _ (hlength ▸ length_preorder_lt hf hc) (hf.lt_size_of_child hc) rfl

theorem lt_size_of_mem_preorder (hf : f.WellFormed) {root : NodeId} (hroot : root < f.size)
    (hn : n ∈ f.preorder root) : n < f.size :=
  lt_size_of_below ((mem_preorder_iff hf hroot).1 hn) hroot

/-- A choice among elements can be made in the whole walk. -/
theorem filter_elements {p : NodeId → Bool} (hp : ∀ n, p n = true → (f.element? n).isSome)
    (root : NodeId) : (f.elements root).filter p = (f.preorder root).filter p := by
  rw [elements, List.filter_filter]
  refine List.filter_congr fun n _ => ?_
  cases hpn : p n with
  | true => simp [hp n hpn]
  | false => simp

/-- No node comes before one that it is below. -/
theorem pairwise_walk (hf : f.WellFormed) {fuel : Nat} {todo : List NodeId}
    (h : todo.Pairwise f.Apart) : (f.walk fuel todo).Pairwise fun a b => ¬ f.Below a b := by
  induction fuel generalizing todo with
  | zero => simp [walk]
  | succ fuel ih =>
      cases todo with
      | nil => simp [walk]
      | cons n rest =>
          rw [walk, List.pairwise_cons]
          refine ⟨?_, ih (apart_step hf h)⟩
          intro m hm hnm
          obtain ⟨a, ha, hma⟩ := exists_below_of_mem_walk hf hm
          rcases List.mem_append.1 ha with ha | ha
          · exact not_below_child hf ha (hnm.trans hma)
          · exact ((List.pairwise_cons.1 h).1 a ha).1 (hnm.trans hma)

theorem pairwise_preorder (hf : f.WellFormed) (root : NodeId) :
    (f.preorder root).Pairwise fun a b => ¬ f.Below a b :=
  pairwise_walk hf (List.pairwise_singleton _ _)

/-! ### Other forests -/

/-- A walk reads the children of the nodes it meets, and nothing else. -/
theorem walk_congr_below (hf : f.WellFormed) {fuel : Nat} {todo : List NodeId}
    (h : ∀ m, (∃ n ∈ todo, f.Below m n) → g.children m = f.children m) :
    g.walk fuel todo = f.walk fuel todo := by
  induction fuel generalizing todo with
  | zero => rfl
  | succ fuel ih =>
      cases todo with
      | nil => rfl
      | cons n rest =>
          rw [walk, walk, h n ⟨n, by simp, Relation.ReflTransGen.refl⟩, ih]
          rintro m ⟨a, ha, hma⟩
          rcases List.mem_append.1 ha with ha | ha
          · exact h m ⟨n, by simp, hma.trans (below_of_mem_children hf ha)⟩
          · exact h m ⟨a, by simp [ha], hma⟩

theorem preorder_congr (hsize : g.size = f.size) (h : ∀ n, g.children n = f.children n)
    (root : NodeId) : g.preorder root = f.preorder root := by
  have hwalk : ∀ (fuel : Nat) (todo : List NodeId), g.walk fuel todo = f.walk fuel todo := by
    intro fuel
    induction fuel with
    | zero => exact fun _ => rfl
    | succ fuel ih =>
        intro todo
        cases todo with
        | nil => rfl
        | cons n rest => rw [walk, walk, h, ih]
  rw [preorder, preorder, hsize, hwalk]

/-! ### Taking nodes out -/

/-- Items that have nothing in them need not be left out first. -/
theorem flatMap_filter_congr {α β : Type} {l : List α} {p : α → Bool} {h k : α → List β}
    (hin : ∀ a ∈ l, p a = true → h a = k a) (hout : ∀ a ∈ l, p a = false → k a = []) :
    (l.filter p).flatMap h = l.flatMap k := by
  induction l with
  | nil => rfl
  | cons a l ih =>
      have hrest := ih (fun b hb => hin b (List.mem_cons_of_mem a hb))
        fun b hb => hout b (List.mem_cons_of_mem a hb)
      cases hp : p a with
      | true =>
          rw [List.filter_cons_of_pos hp, List.flatMap_cons, List.flatMap_cons, hrest,
            hin a (by simp) hp]
      | false =>
          rw [List.filter_cons_of_neg (by simp [hp]), List.flatMap_cons, hrest,
            hout a (by simp) hp, List.nil_append]

section Detach

variable (nodes : List NodeId)

theorem size_foldl_detach (f : Forest) : (nodes.foldl detach f).size = f.size := by
  induction nodes generalizing f with
  | nil => rfl
  | cons s nodes ih => rw [List.foldl_cons, ih, size_detach]

theorem content?_foldl_detach (f : Forest) (n : NodeId) :
    (nodes.foldl detach f).content? n = f.content? n := by
  induction nodes generalizing f with
  | nil => rfl
  | cons s nodes ih => rw [List.foldl_cons, ih, content?_detach]

theorem childOf_foldl_detach :
    (nodes.foldl detach f).ChildOf m n ↔ m ∉ nodes ∧ f.ChildOf m n := by
  induction nodes generalizing f with
  | nil => simp
  | cons s nodes ih =>
      have hone : (f.detach s).ChildOf m n ↔ m ≠ s ∧ f.ChildOf m n := by
        rw [ChildOf, parent?_detach]
        by_cases hm : s = m
        · simp [hm]
        · simp [hm, Ne.symm hm, ChildOf]
      rw [List.foldl_cons, ih, hone, List.mem_cons]
      tauto

/-- What is below none of the nodes taken out is where it was. -/
theorem below_foldl_detach_iff (hm : ∀ s ∈ nodes, ¬ f.Below m s) :
    (nodes.foldl detach f).Below m n ↔ f.Below m n := by
  constructor
  · exact fun h => Relation.ReflTransGen.mono
      (fun _ _ hup => ((childOf_foldl_detach nodes).1 hup).2) m n h
  · intro h
    induction h using Relation.ReflTransGen.head_induction_on with
    | refl => exact Relation.ReflTransGen.refl
    | @head a p hp _ ih =>
        have hup : ∀ s ∈ nodes, ¬ f.Below p s := fun s hs hps => hm s hs (hps.head hp)
        have hout : a ∉ nodes := fun ha => hm a ha Relation.ReflTransGen.refl
        exact (ih hup).head ((childOf_foldl_detach nodes).2 ⟨hout, hp⟩)

variable (hf : f.WellFormed)
include hf

theorem WellFormed.foldl_detach : (nodes.foldl Forest.detach f).WellFormed := by
  induction nodes generalizing f with
  | nil => exact hf
  | cons s nodes ih => exact ih (hf.detach s)

theorem children_foldl_detach (n : NodeId) :
    (nodes.foldl detach f).children n = (f.children n).filter (· ∉ nodes) := by
  induction nodes generalizing f with
  | nil => simp
  | cons s nodes ih =>
      rw [List.foldl_cons, ih (hf.detach s), children_detach hf, List.filter_filter]
      refine List.filter_congr fun c _ => ?_
      by_cases hc : c = s <;> simp [hc]

/-- The walk from a node stays as it is when nodes are taken out that do not come in it. -/
theorem preorder_foldl_detach_of_not_below
    (h : ∀ s ∈ nodes, f.Below s n → s = n) : (nodes.foldl detach f).preorder n = f.preorder n := by
  rw [preorder, preorder, size_foldl_detach]
  refine walk_congr_below hf fun m hm => ?_
  rw [children_foldl_detach nodes hf, List.filter_eq_self]
  intro c hc
  obtain ⟨a, ha, hma⟩ := hm
  obtain rfl := List.mem_singleton.1 ha
  rw [decide_eq_true_iff]
  intro hs
  obtain rfl := h c hs ((below_of_mem_children hf hc).trans hma)
  exact not_below_child hf hc hma

/-- **Taking nodes out of a tree takes what is below them out of the walk, and nothing else.** -/
theorem preorder_foldl_detach (hnodes : ∀ s ∈ nodes, s < f.size) (hn : n < f.size)
    (hkept : ∀ s ∈ nodes, ¬ f.Below n s) :
    (nodes.foldl detach f).preorder n =
      (f.preorder n).filter (· ∉ nodes.flatMap f.preorder) := by
  have hg := WellFormed.foldl_detach nodes hf
  have hmem : ∀ m, m ∈ nodes.flatMap f.preorder ↔ ∃ s ∈ nodes, f.Below m s := by
    intro m
    rw [List.mem_flatMap]
    exact exists_congr fun s => and_congr_right fun hs => mem_preorder_iff hf (hnodes s hs)
  refine induction_children (P := fun n => (∀ s ∈ nodes, ¬ f.Below n s) →
    (nodes.foldl detach f).preorder n =
      (f.preorder n).filter (· ∉ nodes.flatMap f.preorder)) hf ?_ hn hkept
  intro n hn ih hkept
  have hin : n ∉ nodes.flatMap f.preorder := by
    rw [hmem]
    rintro ⟨s, hs, hns⟩
    exact hkept s hs hns
  rw [preorder_eq hg (by rwa [size_foldl_detach]), preorder_eq hf hn, List.filter_cons,
    if_pos (by simpa using hin), children_foldl_detach nodes hf, List.filter_flatMap]
  congr 1
  -- a child is taken out with all that is below it, or it is below no node that is
  refine flatMap_filter_congr (fun c hc hs => ?_) fun c hc hs => ?_
  · rw [decide_eq_true_iff] at hs
    refine ih c hc fun s hs' hcs => ?_
    rcases below_parent_of_below_child hf hc hcs with rfl | hns
    · exact hs hs'
    · exact hkept s hs' hns
  · rw [decide_eq_false_iff_not, not_not] at hs
    rw [List.filter_eq_nil_iff]
    intro m hm
    rw [decide_eq_true_iff, not_not, List.mem_flatMap]
    exact ⟨c, hs, hm⟩

end Detach

end Forest

end StyleInliner.Dom
