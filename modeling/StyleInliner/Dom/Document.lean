/-
Documents: a tree with a document node on top, and what stands beside the tree.
-/
import StyleInliner.Dom.Traversal
import StyleInliner.Dom.Tree

namespace StyleInliner.Dom

/-- The document type declaration of a document. -/
structure Doctype where
  name : String
  publicId : String
  systemId : String
  deriving DecidableEq, Repr, Inhabited

/-- A document. -/
structure Document where
  forest : Forest
  /-- The document node. -/
  root : NodeId
  doctype : Option Doctype
  /-- Whether the source was a piece of a page only: neither an `html` tag nor a document type. -/
  fragment : Bool
  deriving DecidableEq, Repr, Inhabited

namespace Document

/-- The document without anything in it. -/
def empty : Document :=
  ⟨Forest.empty.add .document, 0, none, false⟩

/-- The document with the given trees at the top. -/
def ofTrees (trees : List Tree) (doctype : Option Doctype) (fragment : Bool) : Document :=
  ⟨Forest.empty.addTree none (.node .document trees), 0, doctype, fragment⟩

/-- All elements of the document. -/
def elements (d : Document) : List NodeId :=
  d.forest.elements d.root

/-- The first element of a tag, given in any letter case. -/
def findElement? (d : Document) (tag : String) : Option NodeId :=
  d.forest.findElement? d.root tag

/-- The first `head` element. -/
def head? (d : Document) : Option NodeId :=
  d.findElement? "head"

/-- The first `body` element. -/
def body? (d : Document) : Option NodeId :=
  d.findElement? "body"

end Document

end StyleInliner.Dom
