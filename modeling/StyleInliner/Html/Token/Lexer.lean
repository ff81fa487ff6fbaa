/-
Reading tokens.

Nothing is ever refused: whatever cannot be a tag, a comment or a reference is
text, and a tag that the source ends in is dropped.  How text is read depends on
the element it stands in, so the tokens are read one by one, and whoever asks
for the next one says which way.
-/
import StyleInliner.Html.CharacterReference
import StyleInliner.Html.Token
import StyleInliner.Text.Blank
import StyleInliner.Text.LetterCase

namespace StyleInliner.Html

open StyleInliner.Dom

/-- A name as it counts: lower-cased, and without null characters. -/
def nameOf (cs : List Char) : String :=
  Text.lower (String.ofList (withoutNulls cs))

/-- Reads up to an ending, and drops the ending; without it, everything is read. -/
def readUntil (ending : List Char) : List Char → List Char × List Char
  | [] => ([], [])
  | c :: cs =>
    if ending.isPrefixOf (c :: cs) then ([], (c :: cs).drop ending.length)
    else
      let (read, rest) := readUntil ending cs
      (c :: read, rest)

/-! ### Tags -/

/-- The value of an attribute, behind the equals sign, and what follows it. -/
def readValue (cs : List Char) : Option (List Char × List Char) :=
  match cs.dropWhile isSpace with
  | [] => none
  | '>' :: rest => some ([], '>' :: rest)
  | c :: rest =>
    if c = '"' ∨ c = '\'' then
      match rest.dropWhile (· != c) with
      | [] => none
      | _ :: after => some (rest.takeWhile (· != c), after)
    else
      let ends (d : Char) : Bool := isSpace d || d == '>'
      some ((c :: rest).takeWhile (!ends ·), (c :: rest).dropWhile (!ends ·))

/-- Whether a character ends the name of an attribute. -/
def endsAttributeName (c : Char) : Bool :=
  isSpace c || c == '/' || c == '>' || c == '='

/-- Adds an attribute unless there is one of that name. -/
def addAttribute (attributes : List Attribute) (a : Attribute) : List Attribute :=
  if attributes.any (·.name == a.name) then attributes else attributes ++ [a]

/-- Reads the rest of a tag behind its name: attributes, whether it closes itself, and what follows
it.  Each round takes at least one character, so the number of characters is enough fuel.  There
is no result if the source ends before the tag does. -/
def readAttributes : Nat → List Attribute → List Char →
    Option (List Attribute × Bool × List Char)
  | 0, _, _ => none
  | fuel + 1, found, cs =>
    match cs.dropWhile isSpace with
    | [] => none
    | '>' :: rest => some (found, false, rest)
    | '/' :: '>' :: rest => some (found, true, rest)
    | '/' :: rest => readAttributes fuel found rest
    | c :: rest =>
      let name := nameOf (c :: rest.takeWhile (!endsAttributeName ·))
      match (rest.dropWhile (!endsAttributeName ·)).dropWhile isSpace with
      | '=' :: value =>
        match readValue value with
        | none => none
        | some (value, after) =>
          readAttributes fuel (addAttribute found ⟨name, attributeValue value⟩) after
      | after => readAttributes fuel (addAttribute found ⟨name, ""⟩) after

/-- Whether a character ends the name of a tag. -/
def endsTagName (c : Char) : Bool :=
  isSpace c || c == '/' || c == '>'

/-- Reads a tag from its name on. -/
def readTag (cs : List Char) : Option (Tag × List Char) :=
  (readAttributes (cs.length + 1) [] (cs.dropWhile (!endsTagName ·))).map
    fun (attributes, selfClosing, rest) =>
      (⟨nameOf (cs.takeWhile (!endsTagName ·)), attributes, selfClosing⟩, rest)

/-! ### Comments -/

/-- The text of a comment behind its opening, and what follows the comment. -/
def readComment : List Char → List Char × List Char
  | '-' :: '-' :: '>' :: rest => ([], rest)
  | '-' :: '-' :: '!' :: '>' :: rest => ([], rest)
  | ['-', '-', '!'] => ([], [])
  | ['-', '-'] => ([], [])
  | ['-'] => ([], [])
  | [] => ([], [])
  | c :: cs =>
    let (text, rest) := readComment cs
    (c :: text, rest)

/-- The token of a comment with some text. -/
def commentToken (text : List Char) : Token :=
  .comment (String.ofList (withoutNulls text))

/-- Reads a comment behind its opening.  It may be over at once. -/
def lexComment (cs : List Char) : List Token × List Char :=
  match cs with
  | '>' :: rest => ([commentToken []], rest)
  | '-' :: '>' :: rest => ([commentToken []], rest)
  | _ =>
    let (text, rest) := readComment cs
    ([commentToken text], rest)

/-- Reads what is no proper markup as a comment, up to the next closing bracket. -/
def lexBogusComment (cs : List Char) : List Token × List Char :=
  let (text, rest) := readUntil ['>'] cs
  ([commentToken text], rest)

/-! ### Document type declarations -/

/-- What follows a declaration that goes on with nothing of interest. -/
def afterBracket (cs : List Char) : List Char :=
  (readUntil ['>'] cs).2

/-- A quoted identifier, what follows it, and whether its closing quote is there.  A closing bracket
ends the declaration, and with it the identifier. -/
def readIdentifier (quote : Char) (cs : List Char) : String × List Char × Bool :=
  let ends (c : Char) : Bool := c == quote || c == '>'
  let text := String.ofList (withoutNulls (cs.takeWhile (!ends ·)))
  match cs.dropWhile (!ends ·) with
  | [] => (text, [], false)
  | c :: rest => (text, rest, c == quote)

/-- The token of a document type declaration. -/
def doctypeToken (d : DoctypeToken) (rest : List Char) : List Token × List Char :=
  ([.doctype d], rest)

/-- Reads the end of a declaration, where nothing more is expected. -/
def lexDoctypeEnd (d : DoctypeToken) (cs : List Char) : List Token × List Char :=
  match cs.dropWhile isSpace with
  | [] => doctypeToken { d with faulty := true } []
  | cs => doctypeToken d (afterBracket cs)

/-- Reads a system identifier, if it comes next.  It has to come if its keyword was there. -/
def lexSystemId (d : DoctypeToken) (keyword : Bool) (cs : List Char) : List Token × List Char :=
  match cs.dropWhile isSpace with
  | [] => doctypeToken { d with faulty := true } []
  | '>' :: rest => doctypeToken { d with faulty := d.faulty || keyword } rest
  | c :: rest =>
    if c = '"' ∨ c = '\'' then
      let (text, rest, closed) := readIdentifier c rest
      let d := { d with systemId := some text }
      if closed then lexDoctypeEnd d rest else doctypeToken { d with faulty := true } rest
    else doctypeToken { d with faulty := true } (afterBracket (c :: rest))

/-- Reads a public identifier behind its keyword, and what follows it. -/
def lexPublicId (d : DoctypeToken) (cs : List Char) : List Token × List Char :=
  match cs.dropWhile isSpace with
  | [] => doctypeToken { d with faulty := true } []
  | c :: rest =>
    if c = '"' ∨ c = '\'' then
      let (text, rest, closed) := readIdentifier c rest
      let d := { d with publicId := some text }
      if closed then lexSystemId d false rest else doctypeToken { d with faulty := true } rest
    else doctypeToken { d with faulty := true } (afterBracket (c :: rest))

/-- Reads a document type declaration behind its opening keyword. -/
def lexDoctype (cs : List Char) : List Token × List Char :=
  match cs.dropWhile isSpace with
  | [] => doctypeToken ⟨none, none, none, true⟩ []
  | '>' :: rest => doctypeToken ⟨none, none, none, true⟩ rest
  | cs =>
    let ends (c : Char) : Bool := isSpace c || c == '>'
    let d : DoctypeToken := ⟨some (nameOf (cs.takeWhile (!ends ·))), none, none, false⟩
    match (cs.dropWhile (!ends ·)).dropWhile isSpace with
    | [] => doctypeToken { d with faulty := true } []
    | '>' :: rest => doctypeToken d rest
    | cs =>
      if Text.startsIgnoringCase "public" cs then lexPublicId d (cs.drop 6)
      else if Text.startsIgnoringCase "system" cs then lexSystemId d true (cs.drop 6)
      else doctypeToken { d with faulty := true } (afterBracket cs)

/-! ### Text -/

/-- The tokens of text in which null characters are told apart. -/
def textWithNulls (cs : List Char) : List Token :=
  [Token.null].intercalate ((Text.splitAt '\x00' cs).map textTokens)

/-- The tokens of raw text. -/
def rawTokens (cs : List Char) : List Token :=
  textTokens (withoutNulls cs)

/-- Reads what an ampersand begins. -/
def lexReference (cs : List Char) : List Token × List Char :=
  match reference? false cs with
  | some r => ((if r.bare then [.fault] else []) ++ textTokens r.characters, r.rest)
  | none => (textTokens ['&'], cs)

/-- Reads markup behind an opening bracket and an exclamation mark. -/
def lexDeclaration (foreign : Bool) (cs : List Char) : List Token × List Char :=
  match cs with
  | '-' :: '-' :: rest => lexComment rest
  | _ =>
    if Text.startsIgnoringCase "doctype" cs then lexDoctype (cs.drop 7)
    else if foreign && "[CDATA[".toList.isPrefixOf cs then
      let (text, rest) := readUntil "]]>".toList (cs.drop 7)
      (textWithNulls text, rest)
    else lexBogusComment cs

/-- Reads what an opening bracket begins. -/
def lexMarkup (foreign : Bool) (cs : List Char) : List Token × List Char :=
  match cs with
  | '!' :: rest => lexDeclaration foreign rest
  | '?' :: _ => lexBogusComment cs
  | '/' :: [] => (textTokens ['<', '/'], [])
  | '/' :: '>' :: rest => ([.fault], rest)
  | '/' :: c :: rest =>
    if isLetter c then
      match readTag (c :: rest) with
      | some (tag, rest) => ([.endTag tag.name], rest)
      | none => ([], [])
    else lexBogusComment (c :: rest)
  | c :: _ =>
    if isLetter c then
      match readTag cs with
      | some (tag, rest) => ([.startTag tag], rest)
      | none => ([], [])
    else (textTokens ['<'], cs)
  | [] => (textTokens ['<'], [])

/-- Reads the next tokens of ordinary text. -/
def lexData (foreign : Bool) (cs : List Char) : List Token × List Char :=
  match cs with
  | [] => ([], [])
  | '<' :: rest => lexMarkup foreign rest
  | '&' :: rest => lexReference rest
  | '\x00' :: rest => ([.null], rest)
  | _ =>
    let stops (c : Char) : Bool := c == '<' || c == '&' || c == '\x00'
    (textTokens (cs.takeWhile (!stops ·)), cs.dropWhile (!stops ·))

/-! ### Text up to an end tag -/

/-- Whether a word is written ahead, and then a character that ends the name of a tag. -/
def wordAhead (word : String) (cs : List Char) : Bool :=
  Text.startsIgnoringCase word cs &&
    match cs.drop word.length with
    | c :: _ => endsTagName c
    | [] => false

/-- Whether the end tag of an element is ahead. -/
def endTagAhead (element : String) : List Char → Bool
  | '<' :: '/' :: cs => wordAhead element cs
  | _ => false

/-- The text up to the end tag of an element, and the rest from that tag on. -/
def untilEndTag (element : String) : List Char → List Char × List Char
  | [] => ([], [])
  | c :: cs =>
    if endTagAhead element (c :: cs) then ([], c :: cs)
    else
      let (text, rest) := untilEndTag element cs
      (c :: text, rest)

/-- Where the text of a script stands. -/
inductive ScriptPlace where
  | outside
  /-- In a comment, behind so many hyphens, of which two count. -/
  | comment (hyphens : Nat)
  /-- In a script inside a comment, which hides an end tag. -/
  | inner (hyphens : Nat)
  deriving DecidableEq, Repr, Inhabited

/-- Behind one more character of a script, which begins no tag. -/
def ScriptPlace.next (place : ScriptPlace) (c : Char) : ScriptPlace :=
  match place with
  | outside => outside
  | comment n =>
    if c = '-' then comment (n + 1) else if c = '>' ∧ 2 ≤ n then outside else comment 0
  | inner n => if c = '-' then inner (n + 1) else if c = '>' ∧ 2 ≤ n then outside else inner 0

/-- The text of a script up to its end tag, and the rest from that tag on. -/
def untilScriptEnd (element : String) (place : ScriptPlace) : List Char → List Char × List Char
  | [] => ([], [])
  | '<' :: cs =>
    let hidden := match place with
      | .inner _ => true
      | _ => false
    if !hidden && endTagAhead element ('<' :: cs) then ([], '<' :: cs)
    else
      let next := match place with
        | .outside => if "!--".toList.isPrefixOf cs then .comment 0 else .outside
        | .comment _ => if wordAhead "script" cs then .inner 0 else .comment 0
        | .inner _ => if endTagAhead "script" ('<' :: cs) then .comment 0 else .inner 0
      let (text, rest) := untilScriptEnd element next cs
      ('<' :: text, rest)
  | c :: cs =>
    let (text, rest) := untilScriptEnd element (place.next c) cs
    (c :: text, rest)

/-- Reads the end tag of an element whose text is over. -/
def lexEndTag (cs : List Char) : List Token × List Char :=
  match readTag (cs.drop 2) with
  | some (tag, rest) => ([.endTag tag.name], rest)
  | none => ([], [])

/-- Reads the next tokens in an element that holds text up to its end tag. -/
def lexUntil (read : List Char × List Char) : List Token × List Char :=
  match read with
  | ([], rest) => lexEndTag rest
  | (text, rest) => (rawTokens text, rest)

/-- Reads the next tokens in an element that holds text and references. -/
def lexReferences (element : String) (cs : List Char) : List Token × List Char :=
  match untilEndTag element cs with
  | ([], rest) => lexEndTag rest
  | ('&' :: _, _) => lexReference (cs.drop 1)
  | (text, rest) =>
    (rawTokens (text.takeWhile (· != '&')), text.dropWhile (· != '&') ++ rest)

/-- Reads the next tokens of a source that is not at its end, and says what is left.  The mode says
how text is read, up to the end tag of which element if up to any, and whether the text stands
among elements of another vocabulary. -/
def lex (mode : TextMode) (element : String) (foreign : Bool) (cs : List Char) :
    List Token × List Char :=
  match mode with
  | .data => lexData foreign cs
  | .references => lexReferences element cs
  | .raw => lexUntil (untilEndTag element cs)
  | .script => lexUntil (untilScriptEnd element .outside cs)
  | .plain => (rawTokens cs, [])

end StyleInliner.Html
