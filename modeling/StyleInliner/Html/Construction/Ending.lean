/-
The rules behind the body of a page, and those for a set of frames.
-/
import StyleInliner.Html.Construction.State

namespace StyleInliner.Html

open StyleInliner.Dom Builder

/-- Behind the body. -/
def afterBodyRules : Rules := fun token b =>
  match token with
  | .spaces _ => (b, .under .inBody token)
  | .comment text => (b.commentUnder b.page text, .done)
  | .startTag tag =>
    if tag.name = "html" then (b, .under .inBody token) else (b.become .inBody, .again token)
  | .endTag name =>
    if name = "html" then (b.become .afterAfterBody, .done) else (b.become .inBody, .again token)
  | .endOfInput => (b, .done)
  | _ => (b.become .inBody, .again token)

/-- Behind the page. -/
def afterAfterBodyRules : Rules := fun token b =>
  match token with
  | .spaces _ => (b, .under .inBody token)
  | .comment text => (b.commentUnder documentNode text, .done)
  | .startTag tag =>
    if tag.name = "html" then (b, .under .inBody token) else (b.become .inBody, .again token)
  | .endOfInput => (b, .done)
  | _ => (b.become .inBody, .again token)

/-- In a set of frames. -/
def inFramesetRules : Rules := fun token b =>
  match token with
  | .spaces text => (b.insertText text, .done)
  | .comment text => (b.insertComment text, .done)
  | .startTag tag =>
    match tag.name with
    | "html" => (b, .under .inBody token)
    | "frameset" => (b.openTag tag, .done)
    | "frame" => (b.insertTag tag, .done)
    | "noframes" => (b, .under .inHead token)
    | _ => (b, .done)
  | .endTag name =>
    if name = "frameset" ∧ b.opened.length ≠ 1 then
      let b := b.pop
      (if b.currentIs (isHtml "frameset") then b else b.become .afterFrameset, .done)
    else (b, .done)
  | _ => (b, .done)

/-- Behind a set of frames. -/
def afterFramesetRules : Rules := fun token b =>
  match token with
  | .spaces text => (b.insertText text, .done)
  | .comment text => (b.insertComment text, .done)
  | .startTag tag =>
    match tag.name with
    | "html" => (b, .under .inBody token)
    | "noframes" => (b, .under .inHead token)
    | _ => (b, .done)
  | .endTag name =>
    if name = "html" then (b.become .afterAfterFrameset, .done) else (b, .done)
  | _ => (b, .done)

/-- Behind a page with a set of frames. -/
def afterAfterFramesetRules : Rules := fun token b =>
  match token with
  | .spaces _ => (b, .under .inBody token)
  | .comment text => (b.commentUnder documentNode text, .done)
  | .startTag tag =>
    match tag.name with
    | "html" => (b, .under .inBody token)
    | "noframes" => (b, .under .inHead token)
    | _ => (b, .done)
  | _ => (b, .done)

end StyleInliner.Html
