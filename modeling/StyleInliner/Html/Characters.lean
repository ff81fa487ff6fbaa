/-
Characters as HTML reads them.

A source may begin with a byte order mark, which is not part of it, and may end
its lines in three ways, which all count as one newline.  The spaces of HTML are
five ASCII characters.
-/

namespace StyleInliner.Html

/-- What stands for a character that cannot be there. -/
def replacementCharacter : Char := '\ufffd'

/-- Whether a character is a space to HTML. -/
def isSpace (c : Char) : Bool :=
  c == ' ' || c == '\t' || c == '\n' || c == '\x0c' || c == '\r'

/-- The text with every end of line written as a newline. -/
def normalizeNewlines : List Char → List Char
  | [] => []
  | '\r' :: '\n' :: cs => '\n' :: normalizeNewlines cs
  | '\r' :: cs => '\n' :: normalizeNewlines cs
  | c :: cs => c :: normalizeNewlines cs

/-- The text without a byte order mark at its start. -/
def dropByteOrderMark : List Char → List Char
  | '\ufeff' :: cs => cs
  | cs => cs

/-- The characters of a source. -/
def sourceCharacters (source : String) : List Char :=
  normalizeNewlines (dropByteOrderMark source.toList)

/-- Null characters cannot be part of names, values and raw text. -/
def withoutNulls (cs : List Char) : List Char :=
  cs.map fun c => if c = '\x00' then replacementCharacter else c

/-- Whether a character can begin a tag name. -/
def isLetter (c : Char) : Bool :=
  c.isAlpha

end StyleInliner.Html
