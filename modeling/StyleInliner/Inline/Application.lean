/-
Applying declarations to an element.

What the element's own style declares is never touched, and of the declarations
applied the first one of a property holds.  A few properties are written as
attributes of their own, because mail programs honour those more reliably; if
such an attribute already holds a value, the declaration is dropped.
-/
import StyleInliner.Css.Declaration.Parser
import StyleInliner.Dom.Element

namespace StyleInliner.Inline

open StyleInliner.Css StyleInliner.Dom

/-- Whether a tag is that of a table cell. -/
def isCell (tag : String) : Bool :=
  tag == "td" || tag == "th"

/-- The name that a property asks for by itself to be written as an attribute. -/
def markedAttribute? (property : String) : Option String :=
  let letters := property.toList
  let marker := attributeMarker.toList
  if marker.isPrefixOf letters && marker.length < letters.length then
    some (String.ofList (letters.drop marker.length))
  else none

/-- The attribute that a property is written to on elements of a tag, if it is not written to the
style. -/
def attributeFor? (tag property : String) : Option String :=
  if property = "text-align" ∧ isCell tag then some "align"
  else if property = "vertical-align" ∧ isCell tag then some "valign"
  else if (property = "width" ∨ property = "height") ∧ (tag = "table" ∨ tag = "td" ∨ tag = "img")
  then some property
  else if property = "background-color" ∧ tag = "table" then some "bgcolor"
  else markedAttribute? property

/-- An application under way. -/
structure Application where
  element : Element
  /-- The properties declared so far. -/
  seen : List String
  /-- The style to be written, if there is one. -/
  style : Option String
  deriving Repr, Inhabited

/-- A style text that more can be written to: trimmed, and with a semicolon at its end. -/
def openStyle (style : String) : String :=
  let style := Text.trimString style
  if style.toList.getLast? = some ';' then style else style.push ';'

namespace Application

/-- Where an application begins: with what the element's own style declares. -/
def start (e : Element) : Except CssError Application :=
  match e.attribute? "style" with
  | none => .ok ⟨e, [], none⟩
  | some style => do
    match ← parseDeclarations style with
    | [] => return ⟨e, [], none⟩
    | own => return ⟨e, own.map Declaration.property, some (openStyle style)⟩

/-- Applies one declaration. -/
def apply (a : Application) (d : Declaration) : Application :=
  if d.property ∈ a.seen then a
  else
    let a := { a with seen := d.property :: a.seen }
    match attributeFor? a.element.tag d.property with
    | some name => { a with element := a.element.fillAttribute name d.value }
    | none => { a with style := some (a.style.getD "" ++ d.text) }

/-- The element with the style written to it. -/
def finish (a : Application) : Element :=
  match a.style with
  | some style => a.element.setAttribute "style" style
  | none => a.element

end Application

/-- The element with declarations applied to it.  There is a fault only if the element's own style
cannot be read. -/
def applyDeclarations (e : Element) (ds : List Declaration) : Except CssError Element :=
  (Application.start e).map fun a => (ds.foldl Application.apply a).finish

end StyleInliner.Inline
