/-
Sets of elements that the rules of tree construction speak of.

All but a few are sets of HTML elements, given by their names.
-/
import StyleInliner.Dom.Element

namespace StyleInliner.Html

open StyleInliner.Dom

/-- Whether an element is an HTML element of one of the given names. -/
def isOneOf (names : List String) (e : Element) : Bool :=
  e.ns == .html && names.contains e.name

/-- Whether an element is an HTML element of the given name. -/
def isHtml (name : String) (e : Element) : Bool :=
  e.ns == .html && e.name == name

/-! ### Where other vocabularies hold HTML -/

/-- The MathML elements in which text and most tags are HTML. -/
def holdsHtmlText (e : Element) : Bool :=
  e.ns == .mathml && ["mi", "mo", "mn", "ms", "mtext"].contains e.name

/-- The SVG elements in which text and tags are HTML. -/
def holdsHtml (e : Element) : Bool :=
  e.ns == .svg && ["foreignObject", "desc", "title"].contains e.name

/-! ### Scopes

A scope is given by the elements that end it: whatever is open further out is
out of scope.
-/

/-- Ends the scope of most elements. -/
def endsScope (e : Element) : Bool :=
  isOneOf ["applet", "caption", "html", "table", "td", "th", "marquee", "object", "template"] e ||
    holdsHtmlText e || holdsHtml e

/-- Ends the scope of list items. -/
def endsListScope (e : Element) : Bool :=
  endsScope e || isOneOf ["ol", "ul"] e

/-- Ends the scope of paragraphs. -/
def endsButtonScope (e : Element) : Bool :=
  endsScope e || isHtml "button" e

/-- Ends the scope of the parts of a table. -/
def endsTableScope (e : Element) : Bool :=
  isOneOf ["html", "table", "template"] e

/-- Ends the scope of a selection list. -/
def endsSelectScope (e : Element) : Bool :=
  !isOneOf ["optgroup", "option"] e

/-! ### Other sets -/

/-- The elements whose end tag may be left out nearly everywhere. -/
def impliedEnds : List String :=
  ["dd", "dt", "li", "option", "optgroup", "p", "rb", "rp", "rt", "rtc"]

/-- The elements whose end tag may be left out at the end of a template. -/
def thoroughlyImpliedEnds : List String :=
  impliedEnds ++ ["caption", "colgroup", "tbody", "td", "tfoot", "th", "thead", "tr"]

/-- The headings. -/
def headings : List String :=
  ["h1", "h2", "h3", "h4", "h5", "h6"]

/-- The elements whose tags cannot be nested by other rules than their own. -/
def specialTags : List String :=
  ["address", "applet", "area", "article", "aside", "base", "basefont", "bgsound", "blockquote",
    "body", "br", "button", "caption", "center", "col", "colgroup", "dd", "details", "dir", "div",
    "dl", "dt", "embed", "fieldset", "figcaption", "figure", "footer", "form", "frame", "frameset",
    "h1", "h2", "h3", "h4", "h5", "h6", "head", "header", "hgroup", "hr", "html", "iframe", "img",
    "input", "isindex", "li", "link", "listing", "main", "marquee", "menu", "meta", "nav",
    "noembed", "noframes", "noscript", "object", "ol", "p", "param", "plaintext", "pre", "script",
    "section", "select", "source", "style", "summary", "table", "tbody", "td", "template",
    "textarea", "tfoot", "th", "thead", "title", "tr", "track", "ul", "wbr", "xmp"]

/-- Whether an element is special. -/
def isSpecial (e : Element) : Bool :=
  isOneOf specialTags e

/-- The parts of a table in which nothing but other parts may stand. -/
def fosteringTags : List String :=
  ["table", "tbody", "tfoot", "thead", "tr"]

/-- The groups of rows, of which one has to be innermost before a row is opened. -/
def bodyContext : List String :=
  ["tbody", "tfoot", "thead", "template", "html"]

/-- The elements of which one has to be innermost before a cell is opened. -/
def rowContext : List String :=
  ["tr", "template", "html"]

/-- The elements that belong to the head of a page. -/
def headTags : List String :=
  ["base", "basefont", "bgsound", "link", "meta", "noframes", "script", "style", "template",
    "title"]

/-- The elements that are about the look of text, and go on behind a block that they are not closed
before. -/
def formattingTags : List String :=
  ["b", "big", "code", "em", "font", "i", "s", "small", "strike", "strong", "tt", "u"]

/-- The blocks that end a paragraph and have no rule of their own. -/
def blockTags : List String :=
  ["address", "article", "aside", "blockquote", "center", "details", "dialog", "dir", "div", "dl",
    "fieldset", "figcaption", "figure", "footer", "header", "hgroup", "main", "menu", "nav", "ol",
    "search", "section", "summary", "ul"]

end StyleInliner.Html
