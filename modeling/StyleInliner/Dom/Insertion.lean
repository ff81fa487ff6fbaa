/-
Inserting nodes and text while a tree is built.

Text that comes to stand behind a text node is added to that node; so the tree
does not depend on how a text was cut into chunks on its way here.
-/
import StyleInliner.Dom.Forest

namespace StyleInliner.Dom

/-- What is to be inserted. -/
inductive Insertion where
  | node (node : NodeId)
  | text (text : String)
  deriving DecidableEq, Repr, Inhabited

namespace Forest

/-- Adds text to the end of a text node; there is no result if the node is no text node. -/
def extendText? (f : Forest) (n : Option NodeId) (added : String) : Option Forest :=
  n.bind fun n => (f.text? n).map fun text => f.setContent n (.text (text ++ added))

/-- Inserts behind the last child of a node. -/
def insertLast (f : Forest) (parent : NodeId) : Insertion → Forest
  | .node n => f.appendChild parent n
  | .text added =>
    match f.extendText? (f.children parent).getLast? added with
    | some f => f
    | none => (f.add (.text added)).appendChild parent f.size

/-- Inserts right before a node; a node without parent has no such place. -/
def insertAhead (f : Forest) (sibling : NodeId) : Insertion → Forest
  | .node n => f.insertBefore sibling n
  | .text added =>
    match f.parent? sibling with
    | none => f
    | some _ =>
      match f.extendText? (f.previousSibling? sibling) added with
      | some f => f
      | none => (f.add (.text added)).insertBefore sibling f.size

/-- Inserts what may not stand in a table: right before the table, or, if the table is in no tree,
behind the last child of the element that was opened before it. -/
def insertByTable (f : Forest) (table previous : NodeId) (item : Insertion) : Forest :=
  match f.parent? table with
  | some _ => f.insertAhead table item
  | none => f.insertLast previous item

end Forest

end StyleInliner.Dom
