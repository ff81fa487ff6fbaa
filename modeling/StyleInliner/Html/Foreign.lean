/-
SVG and MathML inside a page.

The source of a page does not tell letter case in names, but SVG and MathML do,
so the names that have capitals are put right.  Attributes of other vocabularies
lose what stands before the colon.
-/
import StyleInliner.Html.TagSet
import StyleInliner.Html.Token

namespace StyleInliner.Html

open StyleInliner.Dom

/-- The SVG elements with capitals in their names. -/
def svgTags : List String :=
  ["altGlyph", "altGlyphDef", "altGlyphItem", "animateColor", "animateMotion", "animateTransform",
    "clipPath", "feBlend", "feColorMatrix", "feComponentTransfer", "feComposite",
    "feConvolveMatrix", "feDiffuseLighting", "feDisplacementMap", "feDistantLight",
    "feDropShadow", "feFlood", "feFuncA", "feFuncB", "feFuncG", "feFuncR", "feGaussianBlur",
    "feImage", "feMerge", "feMergeNode", "feMorphology", "feOffset", "fePointLight",
    "feSpecularLighting", "feSpotLight", "feTile", "feTurbulence", "foreignObject", "glyphRef",
    "linearGradient", "radialGradient", "textPath"]

/-- The SVG attributes with capitals in their names. -/
def svgAttributes : List String :=
  ["attributeName", "attributeType", "baseFrequency", "baseProfile", "calcMode", "clipPathUnits",
    "diffuseConstant", "edgeMode", "filterUnits", "glyphRef", "gradientTransform",
    "gradientUnits", "kernelMatrix", "kernelUnitLength", "keyPoints", "keySplines", "keyTimes",
    "lengthAdjust", "limitingConeAngle", "markerHeight", "markerUnits", "markerWidth",
    "maskContentUnits", "maskUnits", "numOctaves", "pathLength", "patternContentUnits",
    "patternTransform", "patternUnits", "pointsAtX", "pointsAtY", "pointsAtZ", "preserveAlpha",
    "preserveAspectRatio", "primitiveUnits", "refX", "refY", "repeatCount", "repeatDur",
    "requiredExtensions", "requiredFeatures", "specularConstant", "specularExponent",
    "spreadMethod", "startOffset", "stdDeviation", "stitchTiles", "surfaceScale",
    "systemLanguage", "tableValues", "targetX", "targetY", "textLength", "viewBox", "viewTarget",
    "xChannelSelector", "yChannelSelector", "zoomAndPan"]

/-- The MathML attributes with capitals in their names. -/
def mathAttributes : List String :=
  ["definitionURL"]

/-- The attributes of other vocabularies, each with the name that is kept of it. -/
def borrowedAttributes : List (String × String) :=
  [("xlink:actuate", "actuate"), ("xlink:arcrole", "arcrole"), ("xlink:href", "href"),
    ("xlink:role", "role"), ("xlink:show", "show"), ("xlink:title", "title"),
    ("xlink:type", "type"), ("xml:lang", "lang"), ("xml:space", "space"), ("xmlns", "xmlns"),
    ("xmlns:xlink", "xlink")]

/-- The name with its capitals, if it is one of those that have some. -/
def withCapitals (names : List String) (name : String) : String :=
  (names.find? (Text.lower · == name)).getD name

/-- The name that is kept of an attribute in a vocabulary. -/
def foreignAttributeName (ns : Namespace) (name : String) : String :=
  let name := match ns with
    | .html => name
    | .svg => withCapitals svgAttributes name
    | .mathml => withCapitals mathAttributes name
  (borrowedAttributes.lookup name).getD name

/-- The attributes of a tag in a vocabulary. -/
def foreignAttributes (ns : Namespace) (attributes : List Attribute) : List Attribute :=
  attributes.map fun a => { a with name := foreignAttributeName ns a.name }

/-- The HTML elements that cannot stand in another vocabulary: their tags end it. -/
def breakoutTags : List String :=
  ["b", "big", "blockquote", "body", "br", "center", "code", "dd", "div", "dl", "dt", "em",
    "embed", "h1", "h2", "h3", "h4", "h5", "h6", "head", "hr", "i", "img", "li", "listing",
    "menu", "meta", "nobr", "ol", "p", "pre", "ruby", "s", "small", "span", "strong", "strike",
    "sub", "sup", "table", "tt", "u", "ul", "var"]

/-- Whether a start tag cannot stand in another vocabulary. -/
def Tag.breaksOut (tag : Tag) : Bool :=
  breakoutTags.contains tag.name ||
    (tag.name == "font" && tag.attributes.any fun a => ["color", "face", "size"].contains a.name)

end StyleInliner.Html
