/-
The element names that a selector may use.

A selector step without a directive character names an element, and only the
names of this list are accepted, in any letter case.
-/
import StyleInliner.Text.LetterCase

namespace StyleInliner.Css

/-- The accepted element names, lower-cased and in alphabetical order. -/
def knownTags : List String :=
  ["a", "abbr", "acronym", "address", "area", "article", "aside", "audio", "b", "base",
    "basefont", "bdi", "bdo", "bgsound", "big", "blockquote", "body", "br", "button", "canvas",
    "caption", "center", "cite", "code", "col", "colgroup", "data", "datalist", "dd", "del",
    "details", "dfn", "dialog", "dir", "div", "dl", "dt", "em", "embed", "fieldset",
    "figcaption", "figure", "font", "footer", "form", "frame", "frameset", "h1", "h2", "h3",
    "h4", "h5", "h6", "head", "header", "hgroup", "hr", "html", "i", "iframe", "img", "input",
    "ins", "isindex", "kbd", "label", "legend", "li", "link", "main", "map", "mark", "marquee",
    "menu", "meta", "meter", "nav", "nobr", "noframes", "noscript", "object", "ol", "optgroup",
    "option", "output", "p", "param", "picture", "pre", "progress", "q", "rp", "rt", "ruby",
    "s", "samp", "script", "section", "select", "small", "source", "span", "strike", "strong",
    "style", "sub", "summary", "sup", "table", "tbody", "td", "template", "textarea", "tfoot",
    "th", "thead", "time", "title", "tr", "track", "tt", "u", "ul", "var", "video", "wbr",
    "xml"]

/-- Whether a name, in whatever letter case, is an accepted element name. -/
def isKnownTag (name : String) : Bool :=
  knownTags.any (Text.sameIgnoringCase · name)

end StyleInliner.Css
