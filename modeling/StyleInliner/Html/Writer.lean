/-
Writing trees as HTML text.

An element is written as its start tag, what is below it, and its end tag.  A
void element has no end tag and the elements below it write no tags, but texts,
comments and processing instructions below it are written all the same.  Text is
escaped unless the element right above it is one whose content is raw.
-/
import StyleInliner.Dom.Document

namespace StyleInliner.Html

open StyleInliner.Dom

/-- The HTML elements without an end tag. -/
def voidTags : List String :=
  ["area", "base", "basefont", "bgsound", "br", "col", "embed", "frame", "hr", "img", "input",
    "keygen", "link", "meta", "param", "source", "track", "wbr"]

/-- The HTML elements whose text is written as it is. -/
def rawTextTags : List String :=
  ["style", "script", "xmp", "iframe", "noembed", "noframes", "plaintext", "noscript"]

/-- A character of a text, made safe. -/
def escapeText : Char → List Char
  | '&' => "&amp;".toList
  | '\u00a0' => "&nbsp;".toList
  | '<' => "&lt;".toList
  | '>' => "&gt;".toList
  | c => [c]

/-- A character of an attribute value, made safe between double quotes. -/
def escapeValue : Char → List Char
  | '&' => "&amp;".toList
  | '\u00a0' => "&nbsp;".toList
  | '"' => "&quot;".toList
  | c => [c]

/-- A string with each character made safe. -/
def escaped (escape : Char → List Char) (s : String) : String :=
  String.ofList (s.toList.flatMap escape)

/-- An attribute of a start tag, the blank before it included. -/
def writeAttribute (a : Attribute) : String :=
  " " ++ a.name ++ "=\"" ++ escaped escapeValue a.value ++ "\""

/-- The start tag of an element. -/
def startTag (e : Element) : String :=
  "<" ++ e.name ++ String.join (e.attributes.map writeAttribute) ++ ">"

/-- The end tag of an element. -/
def endTag (e : Element) : String :=
  "</" ++ e.name ++ ">"

/-- What matters to a node of the elements above it. -/
structure Surroundings where
  /-- Whether the element right above makes text raw. -/
  raw : Bool
  /-- Whether some element above is void, so that no tags are written. -/
  muted : Bool
  deriving DecidableEq, Repr, Inhabited

/-- Nothing above. -/
def Surroundings.outermost : Surroundings :=
  ⟨false, false⟩

/-- What matters to the nodes right below an element. -/
def Surroundings.below (above : Surroundings) (e : Element) : Surroundings where
  raw := e.ns == .html && rawTextTags.contains e.name
  muted := above.muted || (e.ns == .html && voidTags.contains e.name)

mutual

/-- A tree as HTML text. -/
def write (above : Surroundings) : Tree → String
  | .node content children =>
    match content with
    | .document => writeAll above children
    | .element e =>
      let inner := writeAll (above.below e) children
      if above.muted then inner
      else startTag e ++ inner ++ (if (above.below e).muted then "" else endTag e)
    | .text text => if above.raw then text else escaped escapeText text
    | .comment text => "<!--" ++ text ++ "-->"
    | .instruction target data => "<?" ++ target ++ " " ++ data ++ ">"

/-- Trees as HTML text, one after the other. -/
def writeAll (above : Surroundings) : List Tree → String
  | [] => ""
  | tree :: trees => write above tree ++ writeAll above trees

end

/-- A node of a forest, with what is below it, as HTML text. -/
def writeNode (f : Forest) (n : NodeId) : String :=
  write .outermost (f.tree n)

/-- The nodes that hold the content of a fragment: what is in the body, or, without a body, what is
in the page but not its head, or whatever there is. -/
def fragmentContent (d : Document) : List NodeId :=
  match d.body? with
  | some body => d.forest.children body
  | none =>
    match d.findElement? "html" with
    | some page => (d.forest.children page).filter fun n => !d.forest.hasTag n "head"
    | none => d.forest.children d.root

/-- A document as HTML text; of a fragment, its content only. -/
def writeDocument (d : Document) : String :=
  if d.fragment then String.join ((fragmentContent d).map (writeNode d.forest))
  else
    let doctype := match d.doctype with
      | some doctype => "<!DOCTYPE " ++ doctype.name ++ ">"
      | none => ""
    doctype ++ writeNode d.forest d.root

end StyleInliner.Html
