/-
The index of a document: its elements as they were before anything was changed.

The passes over a document follow the index and not the tree, so that taking out
attributes or replacing elements never disturbs them.
-/
import StyleInliner.Dom.Document
import StyleInliner.Grouping

namespace StyleInliner.Dom

/-- The elements of a document, all of them and by tag, and those with a class. -/
structure Index where
  /-- Every element, in document order. -/
  elements : List NodeId
  /-- The elements that carry a class attribute, even an empty one. -/
  classed : List NodeId
  /-- The elements by tag. -/
  tags : Grouping NodeId
  deriving Repr, Inhabited

namespace Index

/-- The index without elements. -/
def empty : Index :=
  ⟨[], [], Grouping.empty⟩

/-- Adds an element at the end. -/
def add (f : Forest) (index : Index) (n : NodeId) : Index where
  elements := index.elements ++ [n]
  classed :=
    if (f.element? n).any (·.hasAttribute "class") then index.classed ++ [n] else index.classed
  tags := index.tags.add ((f.tag? n).getD "") [n]

/-- The index of a document. -/
def ofDocument (d : Document) : Index :=
  d.elements.foldl (add d.forest) empty

/-- The elements of a tag, given in any letter case. -/
def byTag (index : Index) (tag : String) : List NodeId :=
  (index.tags.get? (Text.lower tag)).getD []

end Index

end StyleInliner.Dom
