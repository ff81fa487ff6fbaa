/-
The rules up to the body of a page, and those for text up to an end tag.

A page begins with its `html` element and its head, both of which are made when
the source leaves them out.  Spaces around them are dropped.
-/
import StyleInliner.Html.Construction.State
import StyleInliner.Html.Doctype

namespace StyleInliner.Html

open StyleInliner.Dom Builder

/-- Before anything: the document type may come. -/
def initialRules : Rules
  | .spaces _, b => (b, .done)
  | .comment text, b => (b.commentUnder documentNode text, .done)
  | .doctype d, b =>
    let stored : Doctype := ⟨d.name.getD "", d.publicId.getD "", d.systemId.getD ""⟩
    ({ b with
        doctype := some stored, oldLayout := d.asksForOldLayout, mode := .beforeHtml }, .done)
  | token, b => ({ b with oldLayout := true, mode := .beforeHtml }, .again token)

/-- Puts the `html` element below the document and opens it. -/
def Builder.openPage (b : Builder) (attributes : List Attribute) : Builder :=
  let (b, n) := b.create (.element ⟨.html, "html", attributes⟩)
  { b with forest := b.forest.appendChild documentNode n, opened := n :: b.opened }

/-- Whether an end tag goes through where an element is missing, and has it made. -/
def goesThrough (name : String) : Bool :=
  ["body", "html", "br"].contains name

/-- Before the `html` element. -/
def beforeHtmlRules : Rules
  | .spaces _, b => (b, .done)
  | .comment text, b => (b.commentUnder documentNode text, .done)
  | .startTag tag, b =>
    if tag.name = "html" then ((b.openPage tag.attributes).become .beforeHead, .done)
    else ((b.openPage []).become .beforeHead, .again (.startTag tag))
  | .endTag name, b =>
    if name = "head" ∨ goesThrough name then
      ((b.openPage []).become .beforeHead, .again (.endTag name))
    else (b, .done)
  | token, b => ((b.openPage []).become .beforeHead, .again token)

/-- Opens the head, and keeps it in mind. -/
def Builder.openHead (b : Builder) (attributes : List Attribute) : Builder :=
  let (b, n) := b.openElement ⟨.html, "head", attributes⟩
  { b with head := some n, mode := .inHead }

/-- Before the head. -/
def beforeHeadRules : Rules
  | .spaces _, b => (b, .done)
  | .comment text, b => (b.insertComment text, .done)
  | .startTag tag, b =>
    if tag.name = "html" then (b, .under .inBody (.startTag tag))
    else if tag.name = "head" then (b.openHead tag.attributes, .done)
    else (b.openHead [], .again (.startTag tag))
  | .endTag name, b =>
    if name = "head" ∨ goesThrough name then (b.openHead [], .again (.endTag name))
    else (b, .done)
  | token, b => (b.openHead [], .again token)

/-- Whether the tag of a template asks for it to be the shadow of the element that it stands in. -/
def Tag.asksForShadow (tag : Tag) : Bool :=
  (tag.attribute? "shadowrootmode").any fun mode => mode == "open" || mode == "close"

/-- Opens a template.  No element is made for a shadow, and what it holds goes to the element that it
is the shadow of; only the outermost element cannot have one. -/
def Builder.openTemplate (b : Builder) (tag : Tag) : Builder :=
  let b := if tag.asksForShadow && b.current != b.page then b else b.openTag tag
  { b with
    formatting := .marker :: b.formatting
    framesetOk := false
    mode := .inTemplate
    templateModes := .inTemplate :: b.templateModes }

/-- Closes the innermost template, and what is open in it. -/
def Builder.closeTemplate (b : Builder) : Builder :=
  let b := (b.popThrough (isHtml "template")).forgetFormatting
  { b with templateModes := b.templateModes.tail }.resetMode

/-- In the head. -/
def inHeadRules : Rules
  | .spaces text, b => (b.insertText text, .done)
  | .comment text, b => (b.insertComment text, .done)
  | .startTag tag, b =>
    match tag.name with
    | "html" => (b, .under .inBody (.startTag tag))
    | "base" | "basefont" | "bgsound" | "link" | "meta" => (b.insertTag tag, .done)
    | "title" => (b.openText tag .references, .done)
    | "noframes" | "style" | "noscript" => (b.openText tag .raw, .done)
    | "script" => (b.openText tag .script, .done)
    | "template" => (b.openTemplate tag, .done)
    | "head" => (b, .done)
    | _ => (b.pop.become .afterHead, .again (.startTag tag))
  | .endTag name, b =>
    if name = "head" then (b.pop.become .afterHead, .done)
    else if name = "template" then
      if b.hasOpen "template" then ((b.closeImplied thoroughlyImpliedEnds).closeTemplate, .done)
      else (b, .done)
    else if goesThrough name then (b.pop.become .afterHead, .again (.endTag name))
    else (b, .done)
  | token, b => (b.pop.become .afterHead, .again token)

/-- Opens the body, although the source has no tag for it. -/
def Builder.openBody (b : Builder) : Builder :=
  (b.openImplied "body").become .inBody

/-- Behind the head.  What belongs to the head still goes there. -/
def afterHeadRules : Rules
  | .spaces text, b => (b.insertText text, .done)
  | .comment text, b => (b.insertComment text, .done)
  | .startTag tag, b =>
    if tag.name = "html" then (b, .under .inBody (.startTag tag))
    else if tag.name = "body" then
      ({ b.openTag tag with framesetOk := false, mode := .inBody }, .done)
    else if tag.name = "frameset" then ((b.openTag tag).become .inFrameset, .done)
    else if headTags.contains tag.name then
      match b.head with
      | some head =>
        let (b, next) := inHeadRules (.startTag tag) { b with opened := head :: b.opened }
        (b.close head, next)
      | none => (b, .done)
    else if tag.name = "head" then (b, .done)
    else (b.openBody, .again (.startTag tag))
  | .endTag name, b =>
    if name = "template" then (b, .under .inHead (.endTag name))
    else if goesThrough name then (b.openBody, .again (.endTag name))
    else (b, .done)
  | token, b => (b.openBody, .again token)

/-- In an element that holds text up to its end tag. -/
def textRules : Rules
  | .spaces text, b => (b.insertText text, .done)
  | .letters text, b => (b.insertText text, .done)
  | .endOfInput, b => (b.pop.become b.returnMode, .again .endOfInput)
  | .endTag _, b => ({ b.pop with mode := b.returnMode, textMode := .data }, .done)
  | _, b => (b, .done)

end StyleInliner.Html
