/-
Blanks, and what is left of a text when they are taken as edges or as gaps.

A blank is a character of the Unicode property White_Space: twenty-five code
points, more than the ASCII ones that `Char.isWhitespace` knows.  Trimming, the
tokens of a class attribute and the gaps of a selector all mean this class.
Everything here works on the list of characters, so that a statement about a
text is an induction over it.
-/

namespace StyleInliner.Text

/-- Membership in the Unicode property White_Space. -/
def isBlank (c : Char) : Bool :=
  ('\t' ≤ c && c ≤ '\r') || c == ' ' || c == '\u0085' || c == '\u00a0' || c == '\u1680' ||
    ('\u2000' ≤ c && c ≤ '\u200a') || c == '\u2028' || c == '\u2029' || c == '\u202f' ||
    c == '\u205f' || c == '\u3000'

/-- The text without the blanks it starts with. -/
def trimStart (cs : List Char) : List Char :=
  cs.dropWhile isBlank

/-- The text without the blanks it ends with. -/
def trimEnd (cs : List Char) : List Char :=
  (cs.reverse.dropWhile isBlank).reverse

/-- The text without blanks at either edge. -/
def trim (cs : List Char) : List Char :=
  trimEnd (trimStart cs)

/-- Whether nothing but blanks is there. -/
def allBlank (cs : List Char) : Bool :=
  cs.all isBlank

/-- The text between the separators: one piece more than there are separators, and a piece may be
empty. -/
def splitAt (separator : Char) : List Char → List (List Char)
  | [] => [[]]
  | c :: cs =>
    if c = separator then [] :: splitAt separator cs
    else
      match splitAt separator cs with
      | [] => [[c]]
      | piece :: pieces => (c :: piece) :: pieces

/-- The maximal runs of characters that are not blank. -/
def words : List Char → List (List Char)
  | [] => []
  | c :: cs =>
    if isBlank c then words cs
    else
      match cs with
      | [] => [[c]]
      | d :: _ =>
        if isBlank d then [c] :: words cs
        else
          match words cs with
          | [] => [[c]]
          | word :: more => (c :: word) :: more

/-- The blanks at the edges of a string are dropped. -/
def trimString (s : String) : String :=
  String.ofList (trim s.toList)

theorem splitAt_ne_nil (separator : Char) (cs : List Char) : splitAt separator cs ≠ [] := by
  cases cs with
  | nil => simp [splitAt]
  | cons c cs =>
    unfold splitAt
    split
    · simp
    · split <;> simp

end StyleInliner.Text
