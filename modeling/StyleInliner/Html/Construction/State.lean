/-
The state of tree construction.

A tree is built token by token.  Besides the tree itself, the state holds the
elements that are open, the formatting elements that go on behind blocks, and
the mode, which says what kind of place in the page has been reached.
-/
import StyleInliner.Dom.Document
import StyleInliner.Dom.Insertion
import StyleInliner.Html.TagSet
import StyleInliner.Html.Token

namespace StyleInliner.Html

open StyleInliner.Dom

/-- What kind of place has been reached. -/
inductive Mode where
  | initial
  | beforeHtml
  | beforeHead
  | inHead
  | afterHead
  | inBody
  | text
  | inTable
  | inTableText
  | inCaption
  | inColumnGroup
  | inTableBody
  | inRow
  | inCell
  | inSelect
  | inSelectInTable
  | inTemplate
  | afterBody
  | inFrameset
  | afterFrameset
  | afterAfterBody
  | afterAfterFrameset
  deriving DecidableEq, Repr, Inhabited

/-- An entry of the list of formatting elements. -/
inductive FormatEntry where
  /-- What stands before it is out of reach. -/
  | marker
  /-- A formatting element, and the tag it came from. -/
  | element (node : NodeId) (tag : Tag)
  deriving Repr, Inhabited

/-- A tree under construction. -/
structure Builder where
  forest : Forest := Forest.empty.add .document
  doctype : Option Doctype := none
  /-- Whether the page asks for the old layout. -/
  oldLayout : Bool := false
  mode : Mode := .initial
  /-- The mode to go back to when some text is over. -/
  returnMode : Mode := .initial
  /-- The modes of the open templates, innermost first. -/
  templateModes : List Mode := []
  /-- The open elements, innermost first. -/
  opened : List NodeId := []
  /-- The formatting elements, the latest first. -/
  formatting : List FormatEntry := []
  /-- The head of the page. -/
  head : Option NodeId := none
  /-- The form that is not closed yet. -/
  form : Option NodeId := none
  /-- Whether the page may still turn out to be a set of frames. -/
  framesetOk : Bool := true
  /-- Whether a newline that comes next is dropped. -/
  skipNewline : Bool := false
  /-- Whether what may not stand in a table goes before it. -/
  fostering : Bool := false
  /-- Text in a table that waits for what follows it, in order. -/
  tableText : List Token := []
  /-- How text is read. -/
  textMode : TextMode := .data
  /-- The element up to whose end tag text is read. -/
  textElement : String := ""
  deriving Inhabited

/-- What is left to do about a token. -/
inductive Next where
  /-- Nothing. -/
  | done
  /-- To look at the token again, in the mode reached now. -/
  | again (token : Token)
  /-- To treat the token by the rules of a mode, without changing to it. -/
  | under (mode : Mode) (token : Token)
  deriving Repr, Inhabited

/-- The rules of a mode: what a token does, and what is left to do about it. -/
abbrev Rules := Token → Builder → Builder × Next

namespace Builder

/-- The document node. -/
def documentNode : NodeId := 0

/-- The innermost open element, or the document when nothing is open. -/
def current (b : Builder) : NodeId :=
  b.opened.headD documentNode

/-- Whether a node is an element of which something holds. -/
def satisfies (b : Builder) (p : Element → Bool) (n : NodeId) : Bool :=
  (b.forest.element? n).any p

/-- Whether something holds of the innermost open element. -/
def currentIs (b : Builder) (p : Element → Bool) : Bool :=
  b.satisfies p b.current

/-- The outermost open element. -/
def page (b : Builder) : NodeId :=
  b.opened.getLastD documentNode

/-- The body of the page, if it is open. -/
def body? (b : Builder) : Option NodeId :=
  match b.opened.reverse with
  | _ :: n :: _ => if b.satisfies (isHtml "body") n then some n else none
  | _ => none

/-- Whether an HTML element of a name is open. -/
def hasOpen (b : Builder) (name : String) : Bool :=
  b.opened.any (b.satisfies (isHtml name))

/-- Whether, from the inside out, a node of one kind is open before one that ends the scope. -/
def reaches (ends target : NodeId → Bool) : List NodeId → Bool
  | [] => false
  | n :: ns => target n || (!ends n && reaches ends target ns)

/-- Whether an open node of some kind is in scope. -/
def inScopeWhere (b : Builder) (ends : Element → Bool) (target : NodeId → Bool) : Bool :=
  reaches (b.satisfies ends) target b.opened

/-- Whether an HTML element of a name is in scope. -/
def inScope (b : Builder) (ends : Element → Bool) (name : String) : Bool :=
  b.inScopeWhere ends (b.satisfies (isHtml name))

/-! ### Closing elements -/

/-- Closes the innermost element. -/
def pop (b : Builder) : Builder :=
  { b with opened := b.opened.tail }

/-- Closes the innermost element if something holds of it. -/
def popIf (b : Builder) (p : Element → Bool) : Builder :=
  if b.currentIs p then b.pop else b

/-- Closes elements up to the first of which something holds, that one included. -/
def popThrough (b : Builder) (p : Element → Bool) : Builder :=
  { b with opened := (b.opened.dropWhile (!b.satisfies p ·)).tail }

/-- Closes elements until something holds of the innermost one. -/
def popUntil (b : Builder) (p : Element → Bool) : Builder :=
  { b with opened := b.opened.dropWhile (!b.satisfies p ·) }

/-- Closes elements whose end tag may be left out, up to the first other one. -/
def closeImplied (b : Builder) (names : List String) : Builder :=
  { b with opened := b.opened.dropWhile (b.satisfies (isOneOf names)) }

/-- Closes elements whose end tag may be left out, but none of one name. -/
def closeImpliedBut (b : Builder) (name : String) : Builder :=
  b.closeImplied (impliedEnds.filter (· != name))

/-- Closes a node, wherever it stands among the open elements. -/
def close (b : Builder) (n : NodeId) : Builder :=
  { b with opened := b.opened.erase n }

/-- Closes a paragraph and what is open in it. -/
def closeParagraph (b : Builder) : Builder :=
  (b.closeImpliedBut "p").popThrough (isHtml "p")

/-- Closes a paragraph if one is in scope. -/
def closeParagraphInScope (b : Builder) : Builder :=
  if b.inScope endsButtonScope "p" then b.closeParagraph else b

/-- Forgets the formatting elements since the last marker, and the marker. -/
def forgetFormatting (b : Builder) : Builder :=
  let isMarker : FormatEntry → Bool
    | .marker => true
    | .element .. => false
  { b with formatting := (b.formatting.dropWhile (!isMarker ·)).tail }

/-! ### Inserting -/

/-- Inserts under a node, or, where a table does not hold what is inserted, next to the table. -/
def insertUnder (b : Builder) (target : NodeId) (item : Insertion) : Builder :=
  let rec foster : List NodeId → Forest
    | [] => b.forest.insertLast b.page item
    | n :: ns =>
      if b.satisfies (isHtml "template") n then b.forest.insertLast n item
      else if b.satisfies (isHtml "table") n then b.forest.insertByTable n (ns.headD n) item
      else foster ns
  if b.fostering && b.satisfies (isOneOf fosteringTags) target then
    { b with forest := foster b.opened }
  else { b with forest := b.forest.insertLast target item }

/-- Inserts at the place that has been reached. -/
def insert (b : Builder) (item : Insertion) : Builder :=
  b.insertUnder b.current item

/-- Inserts text. -/
def insertText (b : Builder) (text : String) : Builder :=
  b.insert (.text text)

/-- Makes a node, which stands nowhere yet. -/
def create (b : Builder) (content : Content) : Builder × NodeId :=
  ({ b with forest := b.forest.add content }, b.forest.size)

/-- Inserts a comment. -/
def insertComment (b : Builder) (text : String) : Builder :=
  let (b, n) := b.create (.comment text)
  b.insert (.node n)

/-- Puts a comment behind the last child of a node. -/
def commentUnder (b : Builder) (parent : NodeId) (text : String) : Builder :=
  let (b, n) := b.create (.comment text)
  { b with forest := b.forest.appendChild parent n }

/-- Inserts an element without opening it, and tells its number. -/
def insertElement (b : Builder) (e : Element) : Builder × NodeId :=
  let (b, n) := b.create (.element e)
  (b.insert (.node n), n)

/-- Inserts an element and opens it, and tells its number. -/
def openElement (b : Builder) (e : Element) : Builder × NodeId :=
  let (b, n) := b.insertElement e
  ({ b with opened := n :: b.opened }, n)

/-- Inserts and opens the HTML element of a tag. -/
def openTag (b : Builder) (tag : Tag) : Builder :=
  (b.openElement ⟨.html, tag.name, tag.attributes⟩).1

/-- Inserts and opens an HTML element that the source only implies. -/
def openImplied (b : Builder) (name : String) : Builder :=
  (b.openElement ⟨.html, name, []⟩).1

/-- Inserts the HTML element of a tag, which holds nothing. -/
def insertTag (b : Builder) (tag : Tag) : Builder :=
  (b.insertElement ⟨.html, tag.name, tag.attributes⟩).1

/-- Adds to an element the attributes that it lacks. -/
def addMissingAttributes (b : Builder) (n : NodeId) (added : List Attribute) : Builder :=
  { b with forest := b.forest.modifyElement n (·.addMissingAttributes added) }

/-- Inserts and opens the element of a tag, and reads text up to its end tag. -/
def openText (b : Builder) (tag : Tag) (textMode : TextMode) : Builder :=
  { b.openTag tag with mode := .text, returnMode := b.mode, textMode, textElement := tag.name }

/-! ### Modes -/

/-- Changes the mode. -/
def become (b : Builder) (mode : Mode) : Builder :=
  { b with mode }

/-- The mode that fits in a selection list, by what is open around it. -/
def selectMode (b : Builder) : List NodeId → Mode
  | [] => .inSelect
  | n :: ns =>
    if b.satisfies (isHtml "template") n then .inSelect
    else if b.satisfies (isHtml "table") n then .inSelectInTable
    else selectMode b ns

/-- The mode that fits the open elements, from the inside out. -/
def modeFor (b : Builder) : List NodeId → Mode
  | [] => .inBody
  | n :: ns =>
    let name := match b.forest.element? n with
      | some ⟨.html, name, _⟩ => name
      | _ => ""
    match name with
    | "select" => b.selectMode ns
    | "td" | "th" => if ns.isEmpty then .inBody else .inCell
    | "tr" => .inRow
    | "tbody" | "thead" | "tfoot" => .inTableBody
    | "caption" => .inCaption
    | "colgroup" => .inColumnGroup
    | "table" => .inTable
    | "template" => b.templateModes.headD .inBody
    | "head" => if ns.isEmpty then .inBody else .inHead
    | "body" => .inBody
    | "frameset" => .inFrameset
    | "html" => if b.head.isNone then .beforeHead else .afterHead
    | _ => modeFor b ns

/-- Changes to the mode that fits the open elements. -/
def resetMode (b : Builder) : Builder :=
  b.become (b.modeFor b.opened)

/-- Whether the innermost open element belongs to another vocabulary. -/
def inForeign (b : Builder) : Bool :=
  b.currentIs (·.ns != .html)

end Builder

end StyleInliner.Html
