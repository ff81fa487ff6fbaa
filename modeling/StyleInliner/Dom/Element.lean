/-
Elements and their attributes.

Attributes keep the order in which they came and the spelling of their names,
but a name is looked up without regard to letter case, and the first attribute
that answers to it counts.
-/
import StyleInliner.Text.LetterCase

namespace StyleInliner.Dom

/-- An attribute with its value. -/
structure Attribute where
  name : String
  value : String
  deriving DecidableEq, Repr, Inhabited

/-- Whether the attribute answers to a name. -/
def Attribute.isNamed (a : Attribute) (name : String) : Bool :=
  Text.sameIgnoringCase a.name name

/-! ### Attribute lists -/

namespace Attributes

/-- The value of the first attribute of a name. -/
def get? (attributes : List Attribute) (name : String) : Option String :=
  (attributes.find? (·.isNamed name)).map Attribute.value

/-- Whether there is an attribute of a name. -/
def has (attributes : List Attribute) (name : String) : Bool :=
  (get? attributes name).isSome

/-- Gives the first attribute of a name another value, or adds one at the end, its name
lower-cased. -/
def set (name value : String) : List Attribute → List Attribute
  | [] => [⟨Text.lower name, value⟩]
  | a :: rest =>
    if a.isNamed name then { a with value } :: rest else a :: set name value rest

/-- Takes out the first attribute of a name, and gives the value that it had. -/
def getThenRemove (name : String) : List Attribute → Option String × List Attribute
  | [] => (none, [])
  | a :: rest =>
    if a.isNamed name then (some a.value, rest)
    else
      let (value, rest) := getThenRemove name rest
      (value, a :: rest)

/-- Adds, with its name as it is spelled, each attribute whose name is not there yet. -/
def addMissing (attributes added : List Attribute) : List Attribute :=
  added.foldl (fun attributes a => if has attributes a.name then attributes else attributes ++ [a])
    attributes

end Attributes

/-! ### Elements -/

/-- The vocabulary that an element belongs to. -/
inductive Namespace where
  | html
  | svg
  | mathml
  deriving DecidableEq, Repr, Inhabited

/-- The address that identifies the vocabulary. -/
def Namespace.address : Namespace → String
  | html => "http://www.w3.org/1999/xhtml"
  | svg => "http://www.w3.org/2000/svg"
  | mathml => "http://www.w3.org/1998/Math/MathML"

/-- An element: its name as it is written, and its attributes. -/
structure Element where
  ns : Namespace
  name : String
  attributes : List Attribute
  deriving DecidableEq, Repr, Inhabited

namespace Element

/-- An HTML element without attributes, its name lower-cased. -/
def ofTag (tag : String) : Element :=
  ⟨.html, Text.lower tag, []⟩

/-- The name by which selectors and look-ups know the element. -/
def tag (e : Element) : String :=
  Text.lower e.name

/-- Whether the element has a tag, given in any letter case. -/
def hasTag (e : Element) (tag : String) : Bool :=
  Text.sameIgnoringCase e.tag tag

/-- The value of an attribute. -/
def attribute? (e : Element) (name : String) : Option String :=
  Attributes.get? e.attributes name

/-- Whether there is an attribute of a name. -/
def hasAttribute (e : Element) (name : String) : Bool :=
  Attributes.has e.attributes name

/-- Gives an attribute a value. -/
def setAttribute (e : Element) (name value : String) : Element :=
  { e with attributes := Attributes.set name value e.attributes }

/-- Takes out an attribute, and gives the value that it had. -/
def getThenRemoveAttribute (e : Element) (name : String) : Option String × Element :=
  let (value, attributes) := Attributes.getThenRemove name e.attributes
  (value, { e with attributes })

/-- Takes out an attribute. -/
def removeAttribute (e : Element) (name : String) : Element :=
  (e.getThenRemoveAttribute name).2

/-- Adds to the attributes those that are missing. -/
def addMissingAttributes (e : Element) (added : List Attribute) : Element :=
  { e with attributes := Attributes.addMissing e.attributes added }

/-- Gives an attribute a value unless it holds one that is not empty. -/
def fillAttribute (e : Element) (name value : String) : Element :=
  match e.attribute? name with
  | none => e.setAttribute name value
  | some old => if old.isEmpty then e.setAttribute name value else e

end Element

end StyleInliner.Dom
