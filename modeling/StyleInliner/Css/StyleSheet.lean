/-
A stylesheet together with the text it was read from.
-/
import StyleInliner.Css.Dictionary
import StyleInliner.Error

namespace StyleInliner.Css

/-- The rules of a stylesheet, its text, and the name of the file the text came from. -/
structure StyleSheet where
  fileName : Option String
  source : String
  rules : List Rule
  deriving Repr, Inhabited

namespace StyleSheet

/-- The stylesheet of a text that came from no file. -/
def ofText (source : String) : Except CssError StyleSheet :=
  (parseRules source).map fun rules => ⟨none, source, rules⟩

/-- The stylesheet in a file, whose bytes are given if it could be read. -/
def ofFile (name : String) (bytes : Except FileError ByteArray) : Except InlineError StyleSheet := do
  let text ← (bytes.bind decodeText).mapError .file
  let sheet ← (ofText text).mapError .css
  return { sheet with fileName := some name }

/-- The rules by selector text. -/
def dictionary (sheet : StyleSheet) : Dictionary :=
  Dictionary.ofRules sheet.rules

end StyleSheet

end StyleInliner.Css
