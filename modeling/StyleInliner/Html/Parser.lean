/-
Reading a page.

Tokens are read one after the other, and each is treated before the next one is
read, because the elements that it opens may change how text is read.  A script
could write to the source behind it, so the source begins anew there, and may
begin with a byte order mark again.  There is no source that cannot be read.
-/
import StyleInliner.Html.Construction.Step
import StyleInliner.Html.Token.Lexer

namespace StyleInliner.Html

open StyleInliner.Dom

/-- What is left of a source behind some tokens that were read in a text mode.  Behind the end tag of
a script the source begins anew. -/
def resume (textMode : TextMode) (tokens : List Token) (rest : List Char) : List Char :=
  if textMode = .script ∧ tokens = [.endTag "script"] then dropByteOrderMark rest else rest

/-- Reads the characters that are left.  Every round takes at least one, so their number is enough
fuel. -/
def build : Nat → List Char → Builder → Builder
  | 0, _, b => b.treat .endOfInput
  | _, [], b => b.treat .endOfInput
  | fuel + 1, cs, b =>
    let (tokens, rest) := lex b.textMode b.textElement b.inForeign cs
    build fuel (resume b.textMode tokens rest) (tokens.foldl Builder.treat b)

/-- Whether a source is a piece of a page only: nowhere does it say that a page begins. -/
def isFragment (source : String) : Bool :=
  let letters := (Text.lower source).toList
  !Text.occursIn "<html".toList letters && !Text.occursIn "<!doctype".toList letters

/-- The document that a source describes. -/
def parse (source : String) : Document :=
  let cs := sourceCharacters source
  let b := build cs.length cs {}
  ⟨b.forest, Builder.documentNode, b.doctype, isFragment source⟩

end StyleInliner.Html
