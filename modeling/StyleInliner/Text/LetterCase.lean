/-
Letter case, for ASCII letters only.

Tag names, attribute names, property names and the HTML keywords are compared
without regard to case, and the comparison never looks beyond ASCII: `É` and `é`
are different names.
-/

namespace StyleInliner.Text

/-- The ASCII letters of a string, lower-cased. -/
def lower (s : String) : String :=
  s.map Char.toLower

/-- Whether two strings differ in the case of ASCII letters only. -/
def sameIgnoringCase (a b : String) : Bool :=
  lower a == lower b

/-- Whether a text starts with a keyword, letter case aside. -/
def startsIgnoringCase (keyword : String) (cs : List Char) : Bool :=
  let word := keyword.toList
  (cs.take word.length).map Char.toLower == word.map Char.toLower

/-- Whether a pattern occurs somewhere in a text. -/
def occursIn (pattern : List Char) : List Char → Bool
  | [] => pattern.isEmpty
  | c :: cs => pattern.isPrefixOf (c :: cs) || occursIn pattern cs

theorem sameIgnoringCase_comm (a b : String) : sameIgnoringCase a b = sameIgnoringCase b a := by
  simp [sameIgnoringCase, Bool.beq_comm]

end StyleInliner.Text
