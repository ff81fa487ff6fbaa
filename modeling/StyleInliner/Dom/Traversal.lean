/-
Walking a tree of the forest in document order.

The walk keeps a list of the nodes that are still to come; it takes the first
and puts that node's children in its place.  In a forest no node is met twice,
so the number of nodes is enough fuel.
-/
import StyleInliner.Dom.Forest

namespace StyleInliner.Dom.Forest

/-- The nodes met when the given ones, and whatever is below them, are still to come. -/
def walk (f : Forest) : Nat → List NodeId → List NodeId
  | 0, _ => []
  | _, [] => []
  | fuel + 1, n :: rest => n :: walk f fuel (f.children n ++ rest)

/-- A node and all nodes below it, in document order. -/
def preorder (f : Forest) (root : NodeId) : List NodeId :=
  f.walk f.size [root]

/-- The elements among a node and the nodes below it, in document order. -/
def elements (f : Forest) (root : NodeId) : List NodeId :=
  (f.preorder root).filter fun n => (f.element? n).isSome

/-- The first element of a tag, given in any letter case. -/
def findElement? (f : Forest) (root : NodeId) (tag : String) : Option NodeId :=
  (f.elements root).find? (f.hasTag · tag)

/-- The text of all text nodes, one after the other. -/
def textContent (f : Forest) (root : NodeId) : String :=
  String.join ((f.preorder root).filterMap f.text?)

end StyleInliner.Dom.Forest
