/-
Trees on their own, without node numbers.

A tree is the view of a forest from one of its nodes: content, and below it the
trees of the children.  Writing HTML works on trees, and so does building a
forest from a description of it.
-/
import StyleInliner.Dom.Forest

namespace StyleInliner.Dom

/-- A node with everything below it. -/
inductive Tree where
  | node (content : Content) (children : List Tree)
  deriving Repr, Inhabited

namespace Tree

/-- What the topmost node is. -/
def content : Tree → Content
  | node content _ => content

/-- The trees below the topmost node. -/
def children : Tree → List Tree
  | node _ children => children

end Tree

namespace Forest

/-- The tree below a node, as far down as the fuel reaches. -/
def treeWithin (f : Forest) : Nat → NodeId → Tree
  | 0, n => .node ((f.content? n).getD default) []
  | depth + 1, n => .node ((f.content? n).getD default) ((f.children n).map (treeWithin f depth))

/-- The tree below a node.  No tree of a forest is deeper than the forest has nodes. -/
def tree (f : Forest) (n : NodeId) : Tree :=
  f.treeWithin f.size n

mutual

/-- Adds the nodes of a tree, the topmost one below the given parent; its number is the old
size. -/
def addTree (f : Forest) (parent : Option NodeId) : Tree → Forest
  | .node content children =>
    let n := f.size
    let f := f.add content
    let f := match parent with
      | some p => f.appendChild p n
      | none => f
    addTrees f n children

/-- Adds trees below a parent, one behind the other. -/
def addTrees (f : Forest) (parent : NodeId) : List Tree → Forest
  | [] => f
  | tree :: trees => addTrees (addTree f (some parent) tree) parent trees

end

end Forest

end StyleInliner.Dom
