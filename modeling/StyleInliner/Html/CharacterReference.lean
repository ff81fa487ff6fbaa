/-
Character references.

A reference names a character, or gives its number.  Of several names that fit,
the longest counts.  In an attribute value, a name without its semicolon is left
alone when more of a word or an equals sign follows, because it is rather a part
of an address.
-/
import Std.Data.HashMap
import StyleInliner.Html.CharacterReference.Names
import StyleInliner.Html.Characters

namespace StyleInliner.Html

/-- The value of a digit, of whatever base. -/
def digitValue (c : Char) : Nat :=
  if c.isDigit then c.toNat - '0'.toNat
  else if c.isLower then c.toNat - 'a'.toNat + 10
  else c.toNat - 'A'.toNat + 10

/-- The number written by digits of a base. -/
def numberOf (base : Nat) (digits : List Char) : Nat :=
  digits.foldl (fun n c => n * base + digitValue c) 0

/-- Whether a character is a hexadecimal digit. -/
def isHexDigit (c : Char) : Bool :=
  c.isDigit || ('a' ≤ c && c ≤ 'f') || ('A' ≤ c && c ≤ 'F')

/-! ### Names -/

/-- An entry of the table of names. -/
def namedEntry? (word : String) : Option (String × List Char) :=
  match word.splitOn "=" with
  | [name, codes] =>
    some (name, (codes.splitOn "+").map fun code => Char.ofNat (numberOf 16 code.toList))
  | _ => none

/-- The characters that the names stand for. -/
def referenceTable : Std.HashMap String (List Char) :=
  Std.HashMap.ofList ((referenceNames.flatMap (·.splitOn " ")).filterMap namedEntry? ++
    writtenReferences.map fun (name, c) => (name, [c]))

/-- The names that are recognised without a semicolon, as a set. -/
def bareReferences : Std.HashMap String Unit :=
  Std.HashMap.ofList ((bareReferenceNames.flatMap (·.splitOn " ")).map fun name => (name, ()))

/-- A reference that was read: the characters it stands for, what follows it, and whether it was
written without the semicolon that belongs to it. -/
structure Reference where
  characters : List Char
  rest : List Char
  bare : Bool
  deriving Repr, Inhabited

/-- The longest name without semicolon among the first so many characters. -/
def longestBareName? (word : List Char) : Nat → Option (Nat × List Char)
  | 0 => none
  | n + 1 =>
    let name := String.ofList (word.take (n + 1))
    if bareReferences.contains name then (referenceTable[name]?).map fun cs => (n + 1, cs)
    else longestBareName? word n

/-- No name is longer than this. -/
def longestName : Nat := 31

/-- Reads a reference by name, behind the ampersand. -/
def namedReference? (inAttribute : Bool) (cs : List Char) : Option Reference :=
  let word := (cs.take (longestName + 1)).takeWhile Char.isAlphanum
  let whole := match cs.drop word.length with
    | ';' :: rest => (referenceTable[String.ofList word]?).map fun chars => ⟨chars, rest, false⟩
    | _ => none
  whole <|> do
    let (length, chars) ← longestBareName? word word.length
    let rest := cs.drop length
    let joined := match rest with
      | c :: _ => c == '=' || c.isAlphanum
      | [] => false
    if inAttribute && joined then none else some ⟨chars, rest, true⟩

/-! ### Numbers -/

/-- What the numbers from 0x80 to 0x9F stand for: the characters that a common eight-bit encoding
has in their place. -/
def replacedControls : List Nat :=
  [0x20ac, 0x81, 0x201a, 0x0192, 0x201e, 0x2026, 0x2020, 0x2021, 0x02c6, 0x2030, 0x0160, 0x2039,
    0x0152, 0x8d, 0x017d, 0x8f, 0x90, 0x2018, 0x2019, 0x201c, 0x201d, 0x2022, 0x2013, 0x2014,
    0x02dc, 0x2122, 0x0161, 0x203a, 0x0153, 0x9d, 0x017e, 0x0178]

/-- The character that a number stands for. -/
def numberedCharacter (n : Nat) : Char :=
  if n = 0 ∨ 0x10ffff < n ∨ (0xd800 ≤ n ∧ n ≤ 0xdfff) then replacementCharacter
  else if 0x80 ≤ n ∧ n ≤ 0x9f then Char.ofNat (replacedControls.getD (n - 0x80) n)
  else Char.ofNat n

/-- Reads digits of a base and the semicolon behind them. -/
def digitsReference? (base : Nat) (isDigit : Char → Bool) (cs : List Char) : Option Reference :=
  match cs.takeWhile isDigit with
  | [] => none
  | digits =>
    let c := numberedCharacter (numberOf base digits)
    match cs.dropWhile isDigit with
    | ';' :: rest => some ⟨[c], rest, false⟩
    | rest => some ⟨[c], rest, true⟩

/-- Reads a reference, behind the ampersand.  Where there is none, the ampersand stands for
itself. -/
def reference? (inAttribute : Bool) : List Char → Option Reference
  | '#' :: 'x' :: cs => digitsReference? 16 isHexDigit cs
  | '#' :: 'X' :: cs => digitsReference? 16 isHexDigit cs
  | '#' :: cs => digitsReference? 10 Char.isDigit cs
  | cs => namedReference? inAttribute cs

/-! ### Values -/

/-- The text with its references replaced, as far as the fuel reaches; every step takes at least
one character. -/
def decodeWithin (inAttribute : Bool) : Nat → List Char → List Char
  | 0, _ => []
  | _, [] => []
  | fuel + 1, '&' :: cs =>
    match reference? inAttribute cs with
    | some r => r.characters ++ decodeWithin inAttribute fuel r.rest
    | none => '&' :: decodeWithin inAttribute fuel cs
  | fuel + 1, c :: cs => c :: decodeWithin inAttribute fuel cs

/-- The value of an attribute, given as it is written. -/
def attributeValue (cs : List Char) : String :=
  String.ofList (decodeWithin true cs.length (withoutNulls cs))

end StyleInliner.Html
