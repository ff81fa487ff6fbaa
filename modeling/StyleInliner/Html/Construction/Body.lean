/-
The rules in the body of a page.
-/
import StyleInliner.Html.Construction.Formatting
import StyleInliner.Html.Foreign

namespace StyleInliner.Html

open StyleInliner.Dom Builder

/-- Opens a block, which ends a paragraph. -/
def Builder.openBlock (b : Builder) (tag : Tag) : Builder :=
  b.closeParagraphInScope.openTag tag

/-- Records that the page has a body for sure. -/
def Builder.ruleOutFrames (b : Builder) : Builder :=
  { b with framesetOk := false }

/-- Closes the list item that the next one ends, unless a block that is not nested in it stands
between.  The names are those of the items that end one another. -/
def Builder.closeItem (names : List String) (b : Builder) : Builder :=
  let stops (e : Element) : Bool := isSpecial e && !isOneOf ["address", "div", "p"] e
  let rec find : List NodeId → Option String
    | [] => none
    | n :: ns =>
      match b.forest.element? n with
      | some e => if isOneOf names e then some e.name else if stops e then none else find ns
      | none => none
  match find b.opened with
  | some name => (b.closeImpliedBut name).popThrough (isHtml name)
  | none => b

/-- Opens the root of another vocabulary, or only inserts it if its tag closes itself. -/
def Builder.enterForeign (b : Builder) (ns : Namespace) (tag : Tag) : Builder :=
  let e : Element := ⟨ns, tag.name, foreignAttributes ns tag.attributes⟩
  if tag.selfClosing then (b.insertElement e).1 else (b.openElement e).1

/-- Treats the tag of a set of frames: it takes the place of the body, if nothing speaks for one
yet. -/
def Builder.openFrameset (b : Builder) (tag : Tag) : Builder :=
  if !b.framesetOk then b
  else
    match b.body? with
    | none => b
    | some body =>
      let b := { b with forest := b.forest.detach body, opened := [b.page] }
      (b.openTag tag).become .inFrameset

/-- Whether an input field is not to be seen. -/
def Tag.isHiddenInput (tag : Tag) : Bool :=
  (tag.attribute? "type").any (Text.sameIgnoringCase · "hidden")

/-- Treats the tag of a form: forms are not nested. -/
def Builder.openForm (b : Builder) (tag : Tag) : Builder :=
  let inTemplate := b.hasOpen "template"
  if b.form.isSome && !inTemplate then b
  else
    let (b, n) := b.closeParagraphInScope.openElement ⟨.html, tag.name, tag.attributes⟩
    if inTemplate then b else { b with form := some n }

/-- Treats the end tag of a form. -/
def Builder.closeForm (b : Builder) : Builder :=
  if b.hasOpen "template" then
    if b.inScope endsScope "form" then
      (b.closeImplied impliedEnds).popThrough (isHtml "form")
    else b
  else
    match b.form with
    | none => b
    | some n =>
      let b := { b with form := none }
      if b.inScopeWhere endsScope (· == n) then (b.closeImplied impliedEnds).close n else b

/-- The mode in a selection list that is opened in some mode. -/
def selectModeIn (mode : Mode) : Mode :=
  if [.inTable, .inCaption, .inTableBody, .inRow, .inCell].contains mode then .inSelectInTable
  else .inSelect

/-- Start tags in the body. -/
def bodyStartTag (tag : Tag) (b : Builder) : Builder × Next :=
  if headTags.contains tag.name then (b, .under .inHead (.startTag tag))
  else if blockTags.contains tag.name then (b.openBlock tag, .done)
  else if headings.contains tag.name then
    ((b.closeParagraphInScope.popIf (isOneOf headings)).openTag tag, .done)
  else if formattingTags.contains tag.name then (b.reconstruct.openFormatting tag, .done)
  else
    match tag.name with
    | "html" =>
      if b.hasOpen "template" then (b, .done)
      else (b.addMissingAttributes b.page tag.attributes, .done)
    | "body" =>
      match b.body? with
      | some body =>
        if b.hasOpen "template" then (b, .done)
        else (b.ruleOutFrames.addMissingAttributes body tag.attributes, .done)
      | none => (b, .done)
    | "frameset" => (b.openFrameset tag, .done)
    | "p" => (b.openBlock tag, .done)
    | "pre" | "listing" => ({ b.openBlock tag with skipNewline := true, framesetOk := false }, .done)
    | "form" => (b.openForm tag, .done)
    | "li" => ((b.ruleOutFrames.closeItem ["li"]).openBlock tag, .done)
    | "dd" | "dt" => ((b.ruleOutFrames.closeItem ["dd", "dt"]).openBlock tag, .done)
    | "plaintext" => ({ b.openBlock tag with textMode := .plain }, .done)
    | "button" =>
      let b := if b.inScope endsScope "button" then
          (b.closeImplied impliedEnds).popThrough (isHtml "button")
        else b
      ((b.reconstruct.openTag tag).ruleOutFrames, .done)
    | "a" => (b.closeOpenLink.reconstruct.openFormatting tag, .done)
    | "nobr" =>
      let b := b.reconstruct
      let b := if b.inScope endsScope "nobr" then (b.closeFormatting "nobr").reconstruct else b
      (b.openFormatting tag, .done)
    | "applet" | "marquee" | "object" =>
      let b := (b.reconstruct.openTag tag).ruleOutFrames
      ({ b with formatting := .marker :: b.formatting }, .done)
    | "table" =>
      let b := if b.oldLayout then b else b.closeParagraphInScope
      ((b.openTag tag).ruleOutFrames.become .inTable, .done)
    | "area" | "br" | "embed" | "img" | "keygen" | "wbr" =>
      ((b.reconstruct.insertTag tag).ruleOutFrames, .done)
    | "input" =>
      let b := b.reconstruct.insertTag tag
      (if tag.isHiddenInput then b else b.ruleOutFrames, .done)
    | "param" | "source" | "track" => (b.insertTag tag, .done)
    | "hr" => ((b.closeParagraphInScope.insertTag tag).ruleOutFrames, .done)
    | "image" => (b, .under .inBody (.startTag { tag with name := "img" }))
    | "textarea" =>
      ({ b.openText tag .references with skipNewline := true, framesetOk := false }, .done)
    | "xmp" => (b.closeParagraphInScope.reconstruct.ruleOutFrames.openText tag .raw, .done)
    | "iframe" => (b.ruleOutFrames.openText tag .raw, .done)
    | "noembed" | "noscript" => (b.openText tag .raw, .done)
    | "select" =>
      ((b.reconstruct.openTag tag).ruleOutFrames.become (selectModeIn b.mode), .done)
    | "optgroup" | "option" => (((b.popIf (isHtml "option")).reconstruct).openTag tag, .done)
    | "rb" | "rtc" =>
      let b := if b.inScope endsScope "ruby" then b.closeImplied impliedEnds else b
      (b.openTag tag, .done)
    | "rp" | "rt" =>
      let b := if b.inScope endsScope "ruby" then b.closeImpliedBut "rtc" else b
      (b.openTag tag, .done)
    | "math" => (b.enterForeign .mathml tag, .done)
    | "svg" => (b.enterForeign .svg tag, .done)
    | "caption" | "col" | "colgroup" | "frame" | "head" | "tbody" | "td" | "tfoot" | "th"
    | "thead" | "tr" => (b, .done)
    | _ => (b.reconstruct.openTag tag, .done)

/-- Closes an element of a name that is in scope, and what is open in it. -/
def Builder.closeInScope (b : Builder) (name : String) : Builder :=
  if b.inScope endsScope name then (b.closeImplied impliedEnds).popThrough (isHtml name) else b

/-- End tags in the body. -/
def bodyEndTag (name : String) (b : Builder) : Builder × Next :=
  if blockTags.contains name ∨ ["button", "listing", "pre"].contains name then
    (b.closeInScope name, .done)
  else if headings.contains name then
    if b.inScopeWhere endsScope (b.satisfies (isOneOf headings)) then
      ((b.closeImplied impliedEnds).popThrough (isOneOf headings), .done)
    else (b, .done)
  else if formattingTags.contains name ∨ ["a", "nobr"].contains name then
    (b.closeFormatting name, .done)
  else
    match name with
    | "template" => (b, .under .inHead (.endTag name))
    | "body" => if b.inScope endsScope "body" then (b.become .afterBody, .done) else (b, .done)
    | "html" =>
      if b.inScope endsScope "body" then (b.become .afterBody, .again (.endTag name))
      else (b, .done)
    | "form" => (b.closeForm, .done)
    | "p" =>
      let b := if b.inScope endsButtonScope "p" then b else b.openImplied "p"
      (b.closeParagraph, .done)
    | "li" | "dd" | "dt" =>
      let ends := if name = "li" then endsListScope else endsScope
      if b.inScope ends name then ((b.closeImpliedBut name).popThrough (isHtml name), .done)
      else (b, .done)
    | "applet" | "marquee" | "object" =>
      if b.inScope endsScope name then ((b.closeInScope name).forgetFormatting, .done)
      else (b, .done)
    | "br" => (b, .under .inBody (.startTag ⟨"br", [], false⟩))
    | _ => (b.closeGeneric name, .done)

/-- In the body. -/
def inBodyRules : Rules
  | .spaces text, b => (b.reconstruct.insertText text, .done)
  | .letters text, b => ((b.reconstruct.ruleOutFrames).insertText text, .done)
  | .comment text, b => (b.insertComment text, .done)
  | .startTag tag, b => bodyStartTag tag b
  | .endTag name, b => bodyEndTag name b
  | .endOfInput, b =>
    (b, if b.templateModes.isEmpty then .done else .under .inTemplate .endOfInput)
  | _, b => (b, .done)

end StyleInliner.Html
