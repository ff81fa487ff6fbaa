/-
The command line: what may be asked for, and what is done about it.

Arguments are looked at from left to right, and the first that has no meaning
ends the reading, as does the one that asks for help.  How files are reached is
left to the caller, so everything here is a pure function of that.
-/
import StyleInliner.Css.StyleSheet
import StyleInliner.Files
import StyleInliner.Html.Parser
import StyleInliner.Html.Writer
import StyleInliner.Inline.Document

namespace StyleInliner

/-- What the arguments have said so far. -/
structure Arguments where
  input : Option String := none
  output : Option String := none
  /-- The stylesheets from outside, in order. -/
  css : List String := []
  keepClasses : Bool := false
  keepStyleElements : Bool := false
  deriving DecidableEq, Repr, Inhabited

/-- How the reading of the arguments ends. -/
inductive Request where
  /-- To inline a file. -/
  | inline (input : String) (arguments : Arguments)
  | help
  /-- The arguments make no sense; the text says which one. -/
  | refused (reason : String)
  deriving DecidableEq, Repr, Inhabited

namespace Arguments

/-- The options that need a value. -/
inductive Valued where
  | output
  | css
  deriving DecidableEq, Repr, Inhabited

/-- Whether an argument begins an option, so that it can be no value. -/
def looksLikeOption (argument : String) : Bool :=
  match argument.toList with
  | '-' :: _ :: _ => true
  | _ => false

/-- Takes in the value of an option.  A path cannot be empty, and there is one output only. -/
def takeValue (a : Arguments) (option : Valued) (value : String) : Except String Arguments :=
  if value.isEmpty then .error "a path cannot be empty"
  else
    match option with
    | .css => .ok { a with css := a.css ++ [value] }
    | .output =>
      if a.output.isSome then .error "there is one output only"
      else .ok { a with output := some value }

/-- Takes in an argument that is no option.  There is one input only. -/
def takeInput (a : Arguments) (value : String) : Except String Arguments :=
  if value.isEmpty then .error "a path cannot be empty"
  else if a.input.isSome then .error s!"unexpected argument '{value}'"
  else .ok { a with input := some value }

/-- Takes in an option without value, if it is one and was not given before. -/
def takeFlag (a : Arguments) (argument : String) : Except String Arguments :=
  if argument = "--keep-classes" ∧ !a.keepClasses then .ok { a with keepClasses := true }
  else if argument = "--keep-style-elements" ∧ !a.keepStyleElements then
    .ok { a with keepStyleElements := true }
  else .error s!"unexpected argument '{argument}'"

/-- The option that an argument names, if its value has to be the next argument. -/
def valueFollows? (argument : String) : Option Valued :=
  if argument = "-o" ∨ argument = "--output" then some .output
  else if argument = "--css" then some .css
  else none

/-- The option that an argument names, with the value that it holds itself. -/
def heldValue? (argument : String) : Option (Valued × String) :=
  let letters := argument.toList
  let behind (start : String) : String := String.ofList (letters.drop start.length)
  if "--output=".toList.isPrefixOf letters then some (.output, behind "--output=")
  else if "--css=".toList.isPrefixOf letters then some (.css, behind "--css=")
  else if "-o=".toList.isPrefixOf letters then some (.output, behind "-o=")
  else if "-o".toList.isPrefixOf letters then some (.output, behind "-o")
  else none

/-- What the arguments ask for when they are over. -/
def finish (a : Arguments) : Request :=
  match a.input with
  | some input => .inline input a
  | none => .refused "there is no input"

/-- Goes on with what was taken in, unless it made no sense. -/
def andThen (next : Except String Arguments) (goOn : Arguments → Request) : Request :=
  match next with
  | .ok a => goOn a
  | .error reason => .refused reason

/-- Reads arguments none of which is an option. -/
def readInputs (a : Arguments) : List String → Request
  | [] => a.finish
  | argument :: rest => andThen (a.takeInput argument) fun a => readInputs a rest

/-- Reads arguments. -/
def read (a : Arguments) : List String → Request
  | [] => a.finish
  | argument :: rest =>
    if argument = "--" then a.readInputs rest
    else if !looksLikeOption argument then
      andThen (a.takeInput argument) fun a => read a rest
    else if argument = "--help" ∨ "-h".toList.isPrefixOf argument.toList then .help
    else
      match valueFollows? argument with
      | some option =>
        match rest with
        | [] => .refused s!"no value for '{argument}'"
        | value :: rest =>
          if looksLikeOption value then .refused s!"no value for '{argument}'"
          else andThen (a.takeValue option value) fun a => read a rest
      | none =>
        match heldValue? argument with
        | some (option, value) => andThen (a.takeValue option value) fun a => read a rest
        | none => andThen (a.takeFlag argument) fun a => read a rest

end Arguments

/-- What the arguments ask for. -/
def Request.ofArguments (arguments : List String) : Request :=
  Arguments.read {} arguments

/-! ### Doing it -/

/-- How a run ends: its exit code and what it printed. -/
structure Ending where
  code : Nat
  output : String
  errors : String
  deriving DecidableEq, Repr, Inhabited

/-- The summary of the command line. -/
def helpText : String :=
  "Inline CSS into HTML email markup\n\n" ++
  "Usage: tableize [OPTIONS] <INPUT>\n\n" ++
  "Arguments:\n" ++
  "  <INPUT>  Input HTML file\n\n" ++
  "Options:\n" ++
  "  -o, --output <OUTPUT>      Output file. Defaults to stdout\n" ++
  "      --css <FILE>           Extra stylesheet applied before the document's own <style> " ++
  "elements. May be given more than once\n" ++
  "      --keep-classes         Leave class attributes in place after inlining\n" ++
  "      --keep-style-elements  Leave <style> elements in the document head\n" ++
  "  -h, --help                 Print help\n"

variable {m : Type → Type} [Monad m]

/-- Reads stylesheets, each of which has to be faultless by itself, and joins their texts. -/
def readStylesheets (files : Files m) : List String → ExceptT InlineError m String
  | [] => return ""
  | path :: rest => do
    let bytes ← files.read path
    let sheet ← Css.StyleSheet.ofFile path bytes
    return sheet.source ++ "\n" ++ (← readStylesheets files rest)

/-- Inlines the file that the arguments name, and hands back what is to be printed. -/
def inlineFile (files : Files m) (input : String) (a : Arguments) :
    ExceptT InlineError m String := do
  let bytes ← files.read input
  let html ← ((bytes : Except FileError ByteArray).bind decodeText).mapError InlineError.file
  let css ← readStylesheets files a.css
  let options : InlineOptions :=
    ⟨if css.isEmpty then none else some css, !a.keepStyleElements, !a.keepClasses⟩
  let run := Inline.inlineDocument (Html.parse html) options
  let d ← run.toExcept.mapError InlineError.css
  let html := Html.writeDocument d
  match a.output with
  | none => return html ++ "\n"
  | some path =>
    let written ← files.write path html
    (written : Except FileError Unit).mapError InlineError.file
    return ""

/-- Does what the arguments ask for. -/
def runCommand (files : Files m) (arguments : List String) : m Ending := do
  match Request.ofArguments arguments with
  | .help => return ⟨0, helpText, ""⟩
  | .refused reason =>
    return ⟨2, "", s!"error: {reason}\n\nFor more information, try '--help'.\n"⟩
  | .inline input a =>
    match ← (inlineFile files input a).run with
    | .ok output => return ⟨0, output, ""⟩
    | .error e => return ⟨1, "", s!"Error inlining {input}: {e.message}\n"⟩

end StyleInliner
