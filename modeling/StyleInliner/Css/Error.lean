/-
What can be wrong with a stylesheet.

Reading a stylesheet is all or nothing: the first fault ends it, and the fault
carries the text that could not be read.  A fault inside a rule is wrapped by
the selector list or the declaration block it was found in.
-/

namespace StyleInliner

/-- The first fault of a stylesheet, a selector or a declaration. -/
inductive CssError where
  /-- A brace where a rule should begin. -/
  | bracketBeforeSelector (bracket : Char)
  /-- A selector list with a faulty selector. -/
  | selector (text : String) (cause : CssError)
  /-- A declaration block with a faulty declaration. -/
  | declarations (text : String) (cause : CssError)
  | missingColon (text : String)
  | emptyDeclaration (text : String)
  | unknownTag (name : String)
  | emptyStep (text : String)
  | unsupportedSelector (text : String)
  | emptySelector
  deriving DecidableEq, Repr, Inhabited

/-- One line for the reader of the error, the wrapped fault left out. -/
def CssError.message : CssError → String
  | .bracketBeforeSelector bracket => s!"selectors cannot begin with a bracket ('{bracket}')"
  | .selector text _ => s!"could not parse selector '{text}'"
  | .declarations text _ => s!"could not parse declarations '{text}'"
  | .missingColon text => s!"could not parse CSS declaration '{text}' because it had no ':'"
  | .emptyDeclaration text => s!"CSS declaration '{text}' has an empty property"
  | .unknownTag name => s!"'{name}' is not a known HTML tag name"
  | .emptyStep text => s!"selector '{text}' contains an empty step"
  | .unsupportedSelector text => s!"selector '{text}' uses an unsupported selector form"
  | .emptySelector => "selector text is empty"

/-- The fault that this one wraps. -/
def CssError.cause? : CssError → Option CssError
  | .selector _ cause => some cause
  | .declarations _ cause => some cause
  | _ => none

/-- A part that a declaration or a selector step cannot be made without. -/
inductive RequiredPart where
  | property
  | value
  | className
  | elementId
  | pseudoClass
  deriving DecidableEq, Repr, Inhabited

/-- How the part is called in a message. -/
def RequiredPart.label : RequiredPart → String
  | .property => "property"
  | .value => "value"
  | .className => "class name"
  | .elementId => "element id"
  | .pseudoClass => "pseudo-class"

/-- A value was built from parts of which one is empty. -/
structure ArgumentError where
  part : RequiredPart
  deriving DecidableEq, Repr, Inhabited

/-- One line for the reader of the error. -/
def ArgumentError.message (e : ArgumentError) : String :=
  s!"{e.part.label} must not be empty"

end StyleInliner
