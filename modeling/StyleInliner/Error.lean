/-
What can go wrong in a run: a fault of a stylesheet, or of a file.
-/
import StyleInliner.Css.Error

namespace StyleInliner

/-- Why a file could not be read or written. -/
inductive FileError where
  /-- The system refused, for a reason that it gives in words and as a number. -/
  | refused (reason : String) (code : Nat)
  /-- The bytes of the file are no UTF-8 text. -/
  | notText
  deriving DecidableEq, Repr, Inhabited

namespace FileError

/-- There is no such file. -/
def notFound : FileError :=
  refused "No such file or directory" 2

/-- Something that is no directory was taken for one. -/
def notDirectory : FileError :=
  refused "Not a directory" 20

/-- A directory was taken for a file. -/
def isDirectory : FileError :=
  refused "Is a directory" 21

/-- A path, or a part of one, has more bytes than it may have. -/
def nameTooLong : FileError :=
  refused "File name too long" 36

/-- The reason in one line. -/
def message : FileError → String
  | refused reason code => s!"{reason} (os error {code})"
  | notText => "stream did not contain valid UTF-8"

end FileError

/-- Why a run ended without a result. -/
inductive InlineError where
  | css (cause : CssError)
  | file (cause : FileError)
  deriving DecidableEq, Repr, Inhabited

/-- The reason in one line, behind a word about where it comes from. -/
def InlineError.message : InlineError → String
  | css cause => s!"CSS error: {cause.message}"
  | file cause => s!"IO error: {cause.message}"

/-- The text of a file that was read as bytes. -/
def decodeText (bytes : ByteArray) : Except FileError String :=
  match String.fromUTF8? bytes with
  | some text => .ok text
  | none => .error .notText

end StyleInliner
