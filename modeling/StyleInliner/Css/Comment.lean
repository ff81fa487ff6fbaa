/-
Comments of a stylesheet.

A line comment runs from two slashes up to the newline, which stays.  A block
comment runs from a slash and a star through the first closing pair that starts
after them; one that is never closed is no comment at all, and its opening
characters are ordinary text.  Whichever opens first wins.
-/

namespace StyleInliner.Css

/-- The text after the first star and slash, if there is such a pair. -/
def afterClosing : List Char → Option (List Char)
  | [] => none
  | '*' :: '/' :: rest => some rest
  | _ :: rest => afterClosing rest

theorem length_of_afterClosing {cs rest : List Char} (h : afterClosing cs = some rest) :
    rest.length < cs.length := by
  fun_induction afterClosing cs with
  | case1 => cases h
  | case2 =>
    cases h
    simp only [List.length_cons]
    omega
  | case3 _ _ _ ih =>
    have hlt := ih h
    simp only [List.length_cons]
    omega

/-- The text with every comment taken out. -/
def stripComments : List Char → List Char
  | [] => []
  | '/' :: '/' :: rest => stripComments (rest.dropWhile (· != '\n'))
  | '/' :: '*' :: rest =>
    match _h : afterClosing rest with
    | some after => stripComments after
    | none => '/' :: '*' :: stripComments rest
  | c :: rest => c :: stripComments rest
termination_by cs => cs.length
decreasing_by
  · have hle := (List.dropWhile_suffix (· != '\n') (l := rest)).length_le
    simp only [List.length_cons]
    omega
  · have hlt := length_of_afterClosing _h
    simp only [List.length_cons]
    omega
  all_goals simp only [List.length_cons]; omega

/-- The text of a stylesheet with its comments taken out. -/
def withoutComments (source : String) : String :=
  String.ofList (stripComments source.toList)

end StyleInliner.Css
