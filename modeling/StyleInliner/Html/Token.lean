/-
Tokens: what an HTML source is made of.
-/
import StyleInliner.Dom.Element
import StyleInliner.Html.Characters

namespace StyleInliner.Html

open StyleInliner.Dom

/-- A start tag, its name lower-cased. -/
structure Tag where
  name : String
  attributes : List Attribute
  selfClosing : Bool
  deriving DecidableEq, Repr, Inhabited

/-- The value of an attribute of a tag. -/
def Tag.attribute? (tag : Tag) (name : String) : Option String :=
  (tag.attributes.find? (·.name == name)).map Attribute.value

/-- A document type declaration, as far as it was given. -/
structure DoctypeToken where
  name : Option String
  publicId : Option String
  systemId : Option String
  /-- Whether the declaration is faulty. -/
  faulty : Bool
  deriving DecidableEq, Repr, Inhabited

/-- A piece of an HTML source. -/
inductive Token where
  | doctype (doctype : DoctypeToken)
  | startTag (tag : Tag)
  | endTag (name : String)
  | comment (text : String)
  /-- Text of spaces only, at least one. -/
  | spaces (text : String)
  /-- Text without spaces, at least one character long. -/
  | letters (text : String)
  /-- A null character where it is text. -/
  | null
  /-- Something malformed that leaves no trace. -/
  | fault
  | endOfInput
  deriving DecidableEq, Repr, Inhabited

/-- How the text ahead is to be read. -/
inductive TextMode where
  /-- With tags, comments and references. -/
  | data
  /-- With references, up to the end tag of the element. -/
  | references
  /-- As it is, up to the end tag of the element. -/
  | raw
  /-- As it is, up to the end tag of the element, but comments can hide that tag. -/
  | script
  /-- As it is, up to the end of the source. -/
  | plain
  deriving DecidableEq, Repr, Inhabited

/-- The token of a run of characters of which the first tells whether they are spaces. -/
def runToken (run : List Char) : Token :=
  if run.head?.any isSpace then .spaces (String.ofList run) else .letters (String.ofList run)

/-- The tokens of a text: maximal runs of spaces and of other characters. -/
def textTokens (cs : List Char) : List Token :=
  (cs.splitBy fun a b => isSpace a == isSpace b).map runToken

end StyleInliner.Html
