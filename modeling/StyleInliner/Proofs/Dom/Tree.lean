/-
The tree of a node has everything in it that is below the node.

A tree is read off with as much fuel as there are nodes, one unit for each level.  A
way down from a node never gets longer than the walk over what is below it, so the
fuel is never used up, and the tree is what one expects: the content of the node and
the trees of its children (`tree_eq`).
-/
import StyleInliner.Dom.Tree
import StyleInliner.Proofs.Dom.Preorder

namespace StyleInliner.Dom.Forest

variable {f : Forest} {n : NodeId}

theorem length_preorder_le (hf : f.WellFormed) (hn : n < f.size) :
    (f.preorder n).length ≤ f.size :=
  length_walk_le hf (List.pairwise_singleton f.Apart n) (by simpa using hn) f.size

/-- Of fuel that reaches all levels, one unit is for the node and the rest for its children. -/
theorem treeWithin_eq_node (hf : f.WellFormed) {depth : Nat}
    (h : (f.preorder n).length ≤ depth + 1) :
    f.treeWithin depth n =
      .node ((f.content? n).getD default) ((f.children n).map (f.treeWithin (depth - 1))) := by
  cases depth with
  | succ depth => rfl
  | zero =>
      have hleaf : f.children n = [] := by
        refine List.eq_nil_iff_forall_not_mem.2 fun c hc => ?_
        have hlt := length_preorder_lt hf hc
        have hc' : 0 < (f.preorder c).length := by
          rw [preorder_eq hf (hf.lt_size_of_child hc)]
          exact Nat.succ_pos _
        omega
      rw [treeWithin, hleaf, List.map_nil]

/-- Levels that are not there need no fuel. -/
theorem treeWithin_congr (hf : f.WellFormed) (hn : n < f.size) :
    ∀ {depth depth' : Nat}, (f.preorder n).length ≤ depth + 1 →
      (f.preorder n).length ≤ depth' + 1 → f.treeWithin depth n = f.treeWithin depth' n := by
  refine induction_children (P := fun n => ∀ {depth depth' : Nat},
    (f.preorder n).length ≤ depth + 1 → (f.preorder n).length ≤ depth' + 1 →
      f.treeWithin depth n = f.treeWithin depth' n) hf ?_ hn
  intro n hn ih depth depth' h h'
  rw [treeWithin_eq_node hf h, treeWithin_eq_node hf h']
  congr 1
  refine List.map_congr_left fun c hc => ih c hc ?_ ?_ <;>
    have hlt := length_preorder_lt hf hc <;> omega

/-- **The tree of a node is its content and the trees of its children.** -/
theorem tree_eq (hf : f.WellFormed) (hn : n < f.size) :
    f.tree n = .node ((f.content? n).getD default) ((f.children n).map f.tree) := by
  have hle := length_preorder_le hf hn
  rw [tree, treeWithin_eq_node hf (Nat.le_succ_of_le hle)]
  congr 1
  refine List.map_congr_left fun c hc => ?_
  have hlt := length_preorder_lt hf hc
  exact treeWithin_congr hf (hf.lt_size_of_child hc) (by omega) (by omega)

end StyleInliner.Dom.Forest
