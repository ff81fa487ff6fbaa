/-
Turning an element into a table of one cell.

The table takes the place of the element, and the cell takes its children and
its attributes.  Of the style, the width and the padding go to the table, the
alignments and the background become attributes of the cell, the directive that
asked for the table is dropped, and the rest is the style of the cell.
-/
import StyleInliner.Css.Declaration.Parser
import StyleInliner.Dom.Forest

namespace StyleInliner.Inline

open StyleInliner.Css StyleInliner.Dom

/-- The table and the cell that an element is turned into, before they are put in place. -/
structure CellTable where
  table : Element
  cell : Element
  deriving DecidableEq, Repr, Inhabited

namespace CellTable

/-- A table without spacing and border, and a bare cell. -/
def bare : CellTable where
  table := ((Element.ofTag "table").setAttribute "cellspacing" "0").setAttribute "border" "0"
  cell := Element.ofTag "td"

/-- Gives a declaration to the part it belongs to; the result also holds the style of the cell so
far, which has no part of its own yet. -/
def distribute (parts : CellTable × String) (d : Declaration) : CellTable × String :=
  let (⟨table, cell⟩, style) := parts
  if d.property = tableDirective then parts
  else if d.property = "width" then
    -- a single cell always fills its table
    (⟨table.setAttribute "width" d.value, cell.setAttribute "width" "100%"⟩, style)
  else if d.property = "padding" then
    let digits := d.value.toList.filter Char.isDigit
    (⟨table.setAttribute "cellpadding" (String.ofList digits), cell⟩, style)
  else if d.property = "text-align" then (⟨table, cell.fillAttribute "align" d.value⟩, style)
  else if d.property = "vertical-align" then (⟨table, cell.fillAttribute "valign" d.value⟩, style)
  else if d.property = "background-color" then
    (⟨table, cell.fillAttribute "bgcolor" d.value⟩, style)
  else (⟨table, cell⟩, style ++ d.text)

/-- Gives the declarations of a style to the parts they belong to. -/
def takeStyle (parts : CellTable) (style : String) : Except CssError CellTable := do
  let (parts, rest) := (← parseDeclarations style).foldl distribute (parts, "")
  if rest.isEmpty then return parts
  return { parts with cell := parts.cell.setAttribute "style" rest }

/-- Takes over one attribute of the element. -/
def takeAttribute (parts : CellTable) (a : Attribute) : Except CssError CellTable :=
  if a.isNamed "style" then parts.takeStyle a.value
  else .ok { parts with cell := parts.cell.setAttribute a.name a.value }

/-- The table and the cell for an element with the given attributes. -/
def ofAttributes (attributes : List Attribute) : Except CssError CellTable :=
  attributes.foldlM takeAttribute bare

end CellTable

/-- Puts a table in the place of a node, with the node's children in its cell. -/
def installTable (f : Forest) (n : NodeId) (parts : CellTable) : Forest :=
  let table := f.size
  let row := table + 1
  let cell := table + 2
  let f := ((f.add (.element parts.table)).add (.element (Element.ofTag "tr"))).add
    (.element parts.cell)
  let f := (f.appendChild table row).appendChild row cell
  ((f.moveChildren n cell).replace n table).1

/-- Turns an element into a table, and tells whether it could: without a parent there is no place
for the table. -/
def convertToTable (f : Forest) (n : NodeId) : Except CssError (Forest × Bool) :=
  match f.element? n, f.parent? n with
  | some e, some _ =>
    (CellTable.ofAttributes e.attributes).map fun parts => (installTable f n parts, true)
  | _, _ => .ok (f, false)

end StyleInliner.Inline
