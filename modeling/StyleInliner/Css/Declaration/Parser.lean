/-
Reading declarations.

A declaration is split at its first colon, because values such as
`progid:X(a=1)` hold more of them.  A block is split at its semicolons, and
pieces with nothing but blanks are passed over.
-/
import StyleInliner.Css.Declaration
import StyleInliner.Text.Blank

namespace StyleInliner.Css

/-- The text on either side of the first colon. -/
def splitAtColon : List Char → Option (List Char × List Char)
  | [] => none
  | ':' :: rest => some ([], rest)
  | c :: rest => (splitAtColon rest).map fun (before, after) => (c :: before, after)

/-- A trimmed value without one semicolon at its end, and without the blanks before that. -/
def dropSemicolon (value : List Char) : List Char :=
  if value.getLast? = some ';' then Text.trimEnd value.dropLast else value

/-- Reads one declaration.  Its value may be empty, its property may not. -/
def parseDeclaration (source : String) : Except CssError Declaration :=
  match splitAtColon source.toList with
  | none => .error (.missingColon (Text.trimString source))
  | some (property, value) =>
    let value := dropSemicolon (Text.trim value)
    match Declaration.ofRead (String.ofList (Text.trim property)) (String.ofList value) with
    | .ok declaration => .ok declaration
    | .error _ => .error (.emptyDeclaration (Text.trimString source))

/-- Reads the declarations of a block, up to the first that is faulty. -/
def parseDeclarations (source : String) : Except CssError (List Declaration) :=
  ((Text.splitAt ';' source.toList).filter (!Text.allBlank ·)).mapM
    (parseDeclaration <| String.ofList ·)

end StyleInliner.Css
