/-
The rules in selection lists and in templates.

A selection list holds options and groups of them, and drops all other tags.  A
template can hold any part of a page, so the first tag in it decides the rules.
-/
import StyleInliner.Html.Construction.Head

namespace StyleInliner.Html

open StyleInliner.Dom Builder

/-- Closes the selection list. -/
def Builder.closeSelect (b : Builder) : Builder :=
  (b.popThrough (isHtml "select")).resetMode

/-- Closes an option, and then the group that it is in. -/
def Builder.closeOptions (b : Builder) : Builder :=
  (b.popIf (isHtml "option")).popIf (isHtml "optgroup")

/-- Treats the end tag of a group of options. -/
def Builder.closeGroup (b : Builder) : Builder :=
  let inGroup := match b.opened with
    | n :: parent :: _ => b.satisfies (isHtml "option") n && b.satisfies (isHtml "optgroup") parent
    | _ => false
  (if inGroup then b.pop else b).popIf (isHtml "optgroup")

/-- In a selection list. -/
def inSelectRules : Rules := fun token b =>
  let inScope := b.inScope endsSelectScope "select"
  match token with
  | .spaces text => (b.insertText text, .done)
  | .letters text => (b.insertText text, .done)
  | .comment text => (b.insertComment text, .done)
  | .startTag tag =>
    match tag.name with
    | "html" => (b, .under .inBody token)
    | "option" => ((b.popIf (isHtml "option")).openTag tag, .done)
    | "optgroup" => (b.closeOptions.openTag tag, .done)
    | "hr" => (b.closeOptions.insertTag tag, .done)
    | "select" => (if inScope then b.closeSelect else b, .done)
    | "input" | "keygen" | "textarea" =>
      if inScope then (b.closeSelect, .again token) else (b, .done)
    | "script" | "template" => (b, .under .inHead token)
    | _ => (b, .done)
  | .endTag name =>
    match name with
    | "optgroup" => (b.closeGroup, .done)
    | "option" => (b.popIf (isHtml "option"), .done)
    | "select" => (if inScope then b.closeSelect else b, .done)
    | "template" => (b, .under .inHead token)
    | _ => (b, .done)
  | .endOfInput => (b, .under .inBody token)
  | _ => (b, .done)

/-- The parts of a table that end a selection list in it. -/
def endsSelectInTable (name : String) : Bool :=
  ["caption", "table", "tbody", "tfoot", "thead", "tr", "td", "th"].contains name

/-- In a selection list in a table. -/
def inSelectInTableRules : Rules := fun token b =>
  match token with
  | .startTag tag =>
    if endsSelectInTable tag.name then (b.closeSelect, .again token)
    else (b, .under .inSelect token)
  | .endTag name =>
    if endsSelectInTable name then
      if b.inScope endsTableScope name then (b.closeSelect, .again token) else (b, .done)
    else (b, .under .inSelect token)
  | _ => (b, .under .inSelect token)

/-- Goes on in a template by the rules of a mode. -/
def Builder.becomeInTemplate (b : Builder) (mode : Mode) : Builder :=
  { b with mode, templateModes := mode :: b.templateModes.tail }

/-- In a template. -/
def inTemplateRules : Rules := fun token b =>
  match token with
  | .spaces _ | .letters _ | .comment _ => (b, .under .inBody token)
  | .startTag tag =>
    if headTags.contains tag.name then (b, .under .inHead token)
    else
      match tag.name with
      | "caption" | "colgroup" | "tbody" | "tfoot" | "thead" =>
        (b.becomeInTemplate .inTable, .again token)
      | "col" => (b.becomeInTemplate .inColumnGroup, .again token)
      | "tr" => (b.becomeInTemplate .inTableBody, .again token)
      | "td" | "th" => (b.becomeInTemplate .inRow, .again token)
      | _ => (b.becomeInTemplate .inBody, .again token)
  | .endTag name => if name = "template" then (b, .under .inHead token) else (b, .done)
  | .endOfInput =>
    if b.hasOpen "template" then (b.closeTemplate, .again token) else (b, .done)
  | _ => (b, .done)

end StyleInliner.Html
