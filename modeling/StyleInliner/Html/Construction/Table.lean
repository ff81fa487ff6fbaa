/-
The rules in tables.

A table is a caption, groups of columns and groups of rows; groups and rows that
the source leaves out are made.  Whatever else turns up goes before the table.
-/
import StyleInliner.Html.Construction.Body

namespace StyleInliner.Html

open StyleInliner.Dom Builder

/-- Treats a token by the rules of the body, and puts what it inserts before the table. -/
def Builder.foster (b : Builder) (token : Token) : Builder × Next :=
  ({ b with fostering := true }, .under .inBody token)

/-- Text in a table waits for what follows it; elsewhere it goes before the table. -/
def tableText (token : Token) (b : Builder) : Builder × Next :=
  if b.currentIs (isOneOf fosteringTags) then
    ({ b with returnMode := b.mode, mode := .inTableText }, .again token)
  else b.foster token

/-- Closes what is open in the table. -/
def Builder.backToTable (b : Builder) : Builder :=
  b.popUntil endsTableScope

/-- Closes what is open in the group of rows. -/
def Builder.backToGroup (b : Builder) : Builder :=
  b.popUntil (isOneOf bodyContext)

/-- Closes what is open in the row. -/
def Builder.backToRow (b : Builder) : Builder :=
  b.popUntil (isOneOf rowContext)

/-- Whether an HTML element of a name is open in the table. -/
def Builder.inTableScope (b : Builder) (name : String) : Bool :=
  b.inScope endsTableScope name

/-- Start tags in a table. -/
def tableStartTag (tag : Tag) (b : Builder) : Builder × Next :=
  match tag.name with
  | "caption" =>
    let b := b.backToTable
    ((({ b with formatting := .marker :: b.formatting }).openTag tag).become .inCaption, .done)
  | "colgroup" => ((b.backToTable.openTag tag).become .inColumnGroup, .done)
  | "col" =>
    ((b.backToTable.openImplied "colgroup").become .inColumnGroup, .again (.startTag tag))
  | "tbody" | "tfoot" | "thead" => ((b.backToTable.openTag tag).become .inTableBody, .done)
  | "td" | "th" | "tr" =>
    ((b.backToTable.openImplied "tbody").become .inTableBody, .again (.startTag tag))
  | "table" =>
    if b.inTableScope "table" then
      ((b.popThrough (isHtml "table")).resetMode, .again (.startTag tag))
    else (b, .done)
  | "style" | "script" | "template" => (b, .under .inHead (.startTag tag))
  | "input" =>
    if tag.isHiddenInput then (b.insertTag tag, .done) else b.foster (.startTag tag)
  | "form" =>
    if b.hasOpen "template" || b.form.isSome then (b, .done)
    else
      let (b, n) := b.insertElement ⟨.html, tag.name, tag.attributes⟩
      ({ b with form := some n }, .done)
  | _ => b.foster (.startTag tag)

/-- In a table. -/
def inTableRules : Rules
  | .spaces text, b => tableText (.spaces text) b
  | .letters text, b => tableText (.letters text) b
  | .null, b => tableText .null b
  | .comment text, b => (b.insertComment text, .done)
  | .startTag tag, b => tableStartTag tag b
  | .endTag name, b =>
    if name = "table" then
      if b.inTableScope "table" then ((b.popThrough (isHtml "table")).resetMode, .done)
      else (b, .done)
    else if ["body", "caption", "col", "colgroup", "html", "tbody", "td", "tfoot", "th", "thead",
        "tr"].contains name then (b, .done)
    else if name = "template" then (b, .under .inHead (.endTag name))
    else b.foster (.endTag name)
  | .endOfInput, b => (b, .under .inBody .endOfInput)
  | token, b => b.foster token

/-- Puts waiting text where it belongs: spaces into the table, but before the table if there is
anything else among them. -/
def Builder.releaseTableText (b : Builder) : Builder :=
  let waiting := b.tableText
  let b := { b with tableText := [] }
  let text : Token → Option String
    | .spaces text => some text
    | .letters text => some text
    | _ => none
  let isLetters : Token → Bool
    | .letters _ => true
    | _ => false
  if waiting.any isLetters then
    let b := { b with fostering := true }
    let b := waiting.foldl (fun b token => (inBodyRules token b).1) b
    { b with fostering := false }
  else (waiting.filterMap text).foldl insertText b

/-- In text of a table. -/
def inTableTextRules : Rules
  | .spaces text, b => ({ b with tableText := b.tableText ++ [.spaces text] }, .done)
  | .letters text, b => ({ b with tableText := b.tableText ++ [.letters text] }, .done)
  | .null, b => (b, .done)
  | token, b => (b.releaseTableText.become b.returnMode, .again token)

/-- In a caption. -/
def inCaptionRules : Rules := fun token b =>
  let leave (next : Next) : Builder × Next :=
    if b.inTableScope "caption" then
      ((((b.closeImplied impliedEnds).popThrough (isHtml "caption")).forgetFormatting).become
        .inTable, next)
    else (b, .done)
  match token with
  | .startTag tag =>
    if ["caption", "col", "colgroup", "tbody", "td", "tfoot", "th", "thead", "tr"].contains
        tag.name then leave (.again token)
    else (b, .under .inBody token)
  | .endTag name =>
    if name = "caption" then leave .done
    else if name = "table" then leave (.again token)
    else if ["body", "col", "colgroup", "html", "tbody", "td", "tfoot", "th", "thead",
        "tr"].contains name then (b, .done)
    else (b, .under .inBody token)
  | _ => (b, .under .inBody token)

/-- In a group of columns. -/
def inColumnGroupRules : Rules := fun token b =>
  let leave (next : Next) : Builder × Next :=
    if b.currentIs (isHtml "colgroup") then (b.pop.become .inTable, next) else (b, .done)
  match token with
  | .spaces text => (b.insertText text, .done)
  | .comment text => (b.insertComment text, .done)
  | .startTag tag =>
    match tag.name with
    | "html" => (b, .under .inBody token)
    | "col" => (b.insertTag tag, .done)
    | "template" => (b, .under .inHead token)
    | _ => leave (.again token)
  | .endTag name =>
    match name with
    | "colgroup" => leave .done
    | "col" => (b, .done)
    | "template" => (b, .under .inHead token)
    | _ => leave (.again token)
  | .endOfInput => (b, .under .inBody token)
  | _ => leave (.again token)

/-- In a group of rows. -/
def inTableBodyRules : Rules := fun token b =>
  let leave : Builder × Next :=
    if b.inScopeWhere endsTableScope (b.satisfies (isOneOf ["table", "tbody", "tfoot"])) then
      (b.backToGroup.pop.become .inTable, .again token)
    else (b, .done)
  match token with
  | .startTag tag =>
    match tag.name with
    | "tr" => ((b.backToGroup.openTag tag).become .inRow, .done)
    | "th" | "td" => ((b.backToGroup.openImplied "tr").become .inRow, .again token)
    | "caption" | "col" | "colgroup" | "tbody" | "tfoot" | "thead" => leave
    | _ => (b, .under .inTable token)
  | .endTag name =>
    match name with
    | "tbody" | "tfoot" | "thead" =>
      if b.inTableScope name then (b.backToGroup.pop.become .inTable, .done) else (b, .done)
    | "table" => leave
    | "body" | "caption" | "col" | "colgroup" | "html" | "td" | "th" | "tr" => (b, .done)
    | _ => (b, .under .inTable token)
  | _ => (b, .under .inTable token)

/-- In a row. -/
def inRowRules : Rules := fun token b =>
  let leave (next : Next) : Builder × Next :=
    if b.inTableScope "tr" then (b.backToRow.pop.become .inTableBody, next) else (b, .done)
  match token with
  | .startTag tag =>
    match tag.name with
    | "th" | "td" =>
      let b := b.backToRow.openTag tag
      ({ b with mode := .inCell, formatting := .marker :: b.formatting }, .done)
    | "caption" | "col" | "colgroup" | "tbody" | "tfoot" | "thead" | "tr" =>
      leave (.again token)
    | _ => (b, .under .inTable token)
  | .endTag name =>
    match name with
    | "tr" => leave .done
    | "table" => leave (.again token)
    | "tbody" | "tfoot" | "thead" =>
      if b.inTableScope name then leave (.again token) else (b, .done)
    | "body" | "caption" | "col" | "colgroup" | "html" | "td" | "th" => (b, .done)
    | _ => (b, .under .inTable token)
  | _ => (b, .under .inTable token)

/-- Closes the cell that is open, and what is open in it. -/
def Builder.closeCell (b : Builder) : Builder :=
  (((b.closeImplied impliedEnds).popThrough (isOneOf ["td", "th"])).forgetFormatting).become .inRow

/-- In a cell. -/
def inCellRules : Rules := fun token b =>
  match token with
  | .startTag tag =>
    if ["caption", "col", "colgroup", "tbody", "td", "tfoot", "th", "thead", "tr"].contains
        tag.name then
      if b.inScopeWhere endsTableScope (b.satisfies (isOneOf ["td", "th"])) then
        (b.closeCell, .again token)
      else (b, .done)
    else (b, .under .inBody token)
  | .endTag name =>
    match name with
    | "td" | "th" =>
      if b.inTableScope name then
        ((((b.closeImplied impliedEnds).popThrough (isHtml name)).forgetFormatting).become .inRow,
          .done)
      else (b, .done)
    | "body" | "caption" | "col" | "colgroup" | "html" => (b, .done)
    | "table" | "tbody" | "tfoot" | "thead" | "tr" =>
      if b.inTableScope name then (b.closeCell, .again token) else (b, .done)
    | _ => (b, .under .inBody token)
  | _ => (b, .under .inBody token)

end StyleInliner.Html
