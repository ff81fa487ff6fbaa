/-
A forest of numbered nodes.

Every node knows its parent and its children, so each edge of a tree is written
down twice.  The operations below keep the two in step as long as no node is
made its own ancestor.  A number that names no node stands for a node without
parent, children or content, and changing it changes nothing.
-/
import StyleInliner.Dom.Element

namespace StyleInliner.Dom

/-- What a node is, its place in the tree aside. -/
inductive Content where
  | document
  | element (element : Element)
  | text (text : String)
  | comment (text : String)
  | instruction (target data : String)
  deriving DecidableEq, Repr, Inhabited

/-- The element, if the content is one. -/
def Content.element? : Content → Option Element
  | .element e => some e
  | _ => none

/-- The text, if the content is text. -/
def Content.text? : Content → Option String
  | .text t => some t
  | _ => none

/-- The number of a node. -/
abbrev NodeId := Nat

/-- A node: its content and its place in the tree. -/
structure Node where
  parent : Option NodeId
  children : List NodeId
  content : Content
  deriving DecidableEq, Repr, Inhabited

/-- The nodes of any number of trees, each under its number. -/
structure Forest where
  nodes : Array Node
  deriving DecidableEq, Repr, Inhabited

namespace Forest

/-- The forest without nodes. -/
def empty : Forest :=
  ⟨#[]⟩

/-- How many nodes there are. -/
def size (f : Forest) : Nat :=
  f.nodes.size

/-- The parent of a node. -/
def parent? (f : Forest) (n : NodeId) : Option NodeId :=
  f.nodes[n]? |>.bind Node.parent

/-- The children of a node, in order. -/
def children (f : Forest) (n : NodeId) : List NodeId :=
  match f.nodes[n]? with
  | some node => node.children
  | none => []

/-- The content of a node. -/
def content? (f : Forest) (n : NodeId) : Option Content :=
  f.nodes[n]? |>.map Node.content

/-- The element that a node is. -/
def element? (f : Forest) (n : NodeId) : Option Element :=
  f.content? n |>.bind Content.element?

/-- The text that a node holds. -/
def text? (f : Forest) (n : NodeId) : Option String :=
  f.content? n |>.bind Content.text?

/-- The tag of an element node. -/
def tag? (f : Forest) (n : NodeId) : Option String :=
  (f.element? n).map Element.tag

/-- Whether a node is an element with a tag, given in any letter case. -/
def hasTag (f : Forest) (n : NodeId) (tag : String) : Bool :=
  (f.element? n).any (·.hasTag tag)

/-! ### Changing single nodes -/

/-- Adds a node without parent and children; its number is the old size. -/
def add (f : Forest) (content : Content) : Forest :=
  ⟨f.nodes.push ⟨none, [], content⟩⟩

/-- Gives a node another parent. -/
def setParent (f : Forest) (n : NodeId) (parent : Option NodeId) : Forest :=
  ⟨f.nodes.modify n fun node => { node with parent }⟩

/-- Changes the children of a node. -/
def modifyChildren (f : Forest) (n : NodeId) (change : List NodeId → List NodeId) : Forest :=
  ⟨f.nodes.modify n fun node => { node with children := change node.children }⟩

/-- Gives a node another content. -/
def setContent (f : Forest) (n : NodeId) (content : Content) : Forest :=
  ⟨f.nodes.modify n fun node => { node with content }⟩

/-- Changes the element that a node is; other nodes have none to change. -/
def modifyElement (f : Forest) (n : NodeId) (change : Element → Element) : Forest :=
  match f.element? n with
  | some e => f.setContent n (.element (change e))
  | none => f

/-! ### Moving nodes -/

/-- Takes a node, with what is below it, from its parent. -/
def detach (f : Forest) (n : NodeId) : Forest :=
  match f.parent? n with
  | none => f
  | some p => (f.setParent n none).modifyChildren p (·.filter (· != n))

/-- Makes a node the last child of another, wherever it was before. -/
def appendChild (f : Forest) (parent child : NodeId) : Forest :=
  ((f.detach child).setParent child (some parent)).modifyChildren parent (· ++ [child])

/-- The list with an item put in front of another, or at the end if that one is not there. -/
def putBefore (sibling child : NodeId) : List NodeId → List NodeId
  | [] => [child]
  | n :: ns => if n = sibling then child :: n :: ns else n :: putBefore sibling child ns

/-- Puts a node in front of another that has a parent. -/
def insertBefore (f : Forest) (sibling child : NodeId) : Forest :=
  match f.parent? sibling with
  | none => f
  | some p =>
    ((f.detach child).setParent child (some p)).modifyChildren p (putBefore sibling child)

/-- The list with the first occurrence of an item replaced by another. -/
def putInPlace (old new : NodeId) : List NodeId → List NodeId
  | [] => []
  | n :: ns => if n = old then new :: ns else n :: putInPlace old new ns

/-- Puts a node where another one was, and tells whether it could: the old node needs a place. -/
def replace (f : Forest) (old new : NodeId) : Forest × Bool :=
  match f.parent? old with
  | none => (f, false)
  | some p =>
    let f := f.detach new
    if old ∈ f.children p then
      (((f.setParent new (some p)).modifyChildren p (putInPlace old new)).setParent old none, true)
    else (f, false)

/-- Moves all children of one node behind those of another. -/
def moveChildren (f : Forest) (source target : NodeId) : Forest :=
  let moved := f.children source
  let f := f.modifyChildren source fun _ => []
  let f := moved.foldl (fun f n => f.setParent n (some target)) f
  f.modifyChildren target (· ++ moved)

/-! ### Neighbours -/

/-- The item of a list that stands right before another. -/
def itemBefore (n : NodeId) : List NodeId → Option NodeId
  | a :: b :: rest => if a = n then none else if b = n then some a else itemBefore n (b :: rest)
  | _ => none

/-- The sibling right before a node. -/
def previousSibling? (f : Forest) (n : NodeId) : Option NodeId :=
  (f.parent? n).bind fun p => itemBefore n (f.children p)

end Forest

end StyleInliner.Dom
