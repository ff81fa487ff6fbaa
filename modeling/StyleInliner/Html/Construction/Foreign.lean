/-
The rules among elements of other vocabularies.
-/
import StyleInliner.Html.Construction.State
import StyleInliner.Html.Foreign

namespace StyleInliner.Html

open StyleInliner.Dom Builder

/-- Whether HTML is at home right below an element. -/
def isHtmlGround (e : Element) : Bool :=
  e.ns == .html || holdsHtmlText e || holdsHtml e

/-- Whether a token is treated by the rules of other vocabularies. -/
def Builder.treatsAsForeign (b : Builder) (token : Token) : Bool :=
  match b.forest.element? b.current with
  | none => false
  | some e =>
    let isMathRoot := e.ns == .mathml && e.name == "annotation-xml"
    match token with
    | .endOfInput => false
    | .spaces _ | .letters _ | .null => !isHtmlGround e
    | .startTag tag =>
      if e.ns == .html || holdsHtml e then false
      else if holdsHtmlText e then ["mglyph", "malignmark"].contains tag.name
      else !(isMathRoot && tag.name == "svg")
    | _ => e.ns != .html

/-- Opens an element of the vocabulary reached, or only inserts it if its tag closes itself. -/
def Builder.openForeign (b : Builder) (tag : Tag) : Builder :=
  let ns := ((b.forest.element? b.current).map Element.ns).getD .html
  let name := if ns == .svg then withCapitals svgTags tag.name else tag.name
  let e : Element := ⟨ns, name, foreignAttributes ns tag.attributes⟩
  if tag.selfClosing then (b.insertElement e).1 else (b.openElement e).1

/-- Leaves the other vocabularies, up to where HTML is at home, and goes on there. -/
def Builder.breakOut (b : Builder) (token : Token) : Builder × Next :=
  let b := b.popUntil isHtmlGround
  (b, .under b.mode token)

/-- Treats an end tag: closes an element of that name, in whatever letter case, unless an HTML
element stands between.  The flag says whether that is the innermost element. -/
def foreignEndTag (name : String) (b : Builder) (innermost : Bool) :
    List NodeId → Builder × Next
  | [] => (b, .done)
  | [_] => (b, .done)
  | n :: ns =>
    match b.forest.element? n with
    | none => (b, .done)
    | some e =>
      if !innermost && e.ns == .html then (b, .under b.mode (.endTag name))
      else if Text.sameIgnoringCase e.name name then ({ b with opened := ns }, .done)
      else foreignEndTag name b false ns

/-- Among elements of other vocabularies. -/
def foreignRules : Rules := fun token b =>
  match token with
  | .null => (b.insertText replacementCharacter.toString, .done)
  | .spaces text => (b.insertText text, .done)
  | .letters text => ({ b with framesetOk := false }.insertText text, .done)
  | .comment text => (b.insertComment text, .done)
  | .startTag tag => if tag.breaksOut then b.breakOut token else (b.openForeign tag, .done)
  | .endTag name =>
    if name = "br" ∨ name = "p" then b.breakOut token
    else foreignEndTag name b true b.opened
  | _ => (b, .done)

end StyleInliner.Html
