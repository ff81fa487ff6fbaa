/-
Treating a token: the rules of the mode, until nothing is left to do.

The rules may ask for a token to be looked at again, in another mode or with
fewer open elements.  So the rounds that a token takes are bounded by the number
of modes and the number of open elements.
-/
import StyleInliner.Html.Construction.Ending
import StyleInliner.Html.Construction.Foreign
import StyleInliner.Html.Construction.Select
import StyleInliner.Html.Construction.Table

namespace StyleInliner.Html

open StyleInliner.Dom

/-- The rules of a mode. -/
def Mode.rules : Mode → Rules
  | initial => initialRules
  | beforeHtml => beforeHtmlRules
  | beforeHead => beforeHeadRules
  | inHead => inHeadRules
  | afterHead => afterHeadRules
  | inBody => inBodyRules
  | text => textRules
  | inTable => inTableRules
  | inTableText => inTableTextRules
  | inCaption => inCaptionRules
  | inColumnGroup => inColumnGroupRules
  | inTableBody => inTableBodyRules
  | inRow => inRowRules
  | inCell => inCellRules
  | inSelect => inSelectRules
  | inSelectInTable => inSelectInTableRules
  | inTemplate => inTemplateRules
  | afterBody => afterBodyRules
  | inFrameset => inFramesetRules
  | afterFrameset => afterFramesetRules
  | afterAfterBody => afterAfterBodyRules
  | afterAfterFrameset => afterAfterFramesetRules

namespace Builder

/-- Does what is left to do, in at most so many rounds. -/
def settle : Nat → Next → Builder → Builder
  | 0, _, b => b
  | _, .done, b => { b with fostering := false }
  | rounds + 1, .again token, b =>
    let b := { b with fostering := false }
    let rules := if b.treatsAsForeign token then foreignRules else b.mode.rules
    let (b, next) := rules token b
    settle rounds next b
  | rounds + 1, .under mode token, b =>
    let (b, next) := mode.rules token b
    settle rounds next b

/-- How many rounds a token takes at most. -/
def roundLimit (b : Builder) : Nat :=
  32 + 8 * b.opened.length

/-- A newline right behind the tags of some elements is dropped. -/
def dropNewline : Token → Option Token
  | .spaces text =>
    match text.toList with
    | '\n' :: [] => none
    | '\n' :: rest => some (.spaces (String.ofList rest))
    | _ => some (.spaces text)
  | token => some token

/-- Treats the next token. -/
def treat (b : Builder) (token : Token) : Builder :=
  let token? := if b.skipNewline then dropNewline token else some token
  let b := { b with skipNewline := false }
  match token? with
  | none => b
  | some .fault => b
  | some (.doctype d) =>
    if b.mode = .initial then (initialRules (.doctype d) b).1 else b
  | some token => settle b.roundLimit (.again token) b

end Builder

end StyleInliner.Html
