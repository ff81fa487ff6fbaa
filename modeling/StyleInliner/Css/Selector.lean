/-
Selectors: chains of steps.

A step names an element, a class, an id or a pseudo-class.  Each step of a chain
but the last says how it is joined to the next one: written against it, as in
`td.field`, or with a gap between, as in `div .note`.  The last step has nothing
to be joined to, so it holds no joint, and chaining two selectors is appending
one list of steps to another.
-/
import StyleInliner.Css.Error
import StyleInliner.Css.KnownTag

namespace StyleInliner.Css

/-- What a selector step names. -/
inductive StepKind where
  | tagName
  | className
  | elementId
  | pseudoClass
  deriving DecidableEq, Repr, Inhabited

/-- The character written in front of a step of this kind, if one is. -/
def StepKind.directive? : StepKind → Option Char
  | .tagName => none
  | .className => some '.'
  | .elementId => some '#'
  | .pseudoClass => some ':'

/-- The kind of step that a directive character announces. -/
def StepKind.ofDirective? (c : Char) : Option StepKind :=
  if c = '.' then some .className
  else if c = '#' then some .elementId
  else if c = ':' then some .pseudoClass
  else none

/-- How a step is joined to the next one. -/
inductive Joint where
  /-- Both steps are about the same element, as in `p.warning`. -/
  | combination
  /-- The next step is about an element further down, as in `div p`. -/
  | descendant
  deriving DecidableEq, Repr, Inhabited

/-- The text between two steps joined this way. -/
def Joint.text : Joint → String
  | .combination => ""
  | .descendant => " "

/-- One step of a selector. -/
structure Step where
  kind : StepKind
  name : String
  deriving DecidableEq, Repr, Inhabited

/-- The step as it is written: its directive character, if any, and its name. -/
def Step.text (s : Step) : String :=
  match s.kind.directive? with
  | none => s.name
  | some directive => directive.toString ++ s.name

/-- A chain of one or more steps. -/
inductive Selector where
  | single (step : Step)
  | chain (step : Step) (joint : Joint) (rest : Selector)
  deriving DecidableEq, Repr, Inhabited

namespace Selector

/-- The first step of the chain. -/
def first : Selector → Step
  | single step => step
  | chain step _ _ => step

/-- The steps of the chain, each with its joint to the next one; the last counts as joined by
`combination`. -/
def steps : Selector → List (Step × Joint)
  | single step => [(step, .combination)]
  | chain step joint rest => (step, joint) :: rest.steps

/-- Whether the chain is a single step. -/
def isSimple : Selector → Bool
  | single _ => true
  | chain .. => false

/-- The selector as it is written. -/
def text : Selector → String
  | single step => step.text
  | chain step joint rest => step.text ++ joint.text ++ rest.text

/-- The chain of all steps of one selector and then all steps of another. -/
def append : Selector → Joint → Selector → Selector
  | single step, joint, next => chain step joint next
  | chain step inner rest, joint, next => chain step inner (rest.append joint next)

/-- The class that a lone class step names. -/
def className? : Selector → Option String
  | single ⟨.className, name⟩ => some name
  | _ => none

/-- The element that a lone tag step names. -/
def tagName? : Selector → Option String
  | single ⟨.tagName, name⟩ => some name
  | _ => none

end Selector

/-! ### Making single steps -/

/-- A step that names an element, by a known name in any letter case. -/
def Step.ofTag (name : String) : Except CssError Step :=
  if name.isEmpty then .error .emptySelector
  else if isKnownTag name then .ok ⟨.tagName, Text.lower name⟩
  else .error (.unknownTag name)

/-- The selector of all elements of one name. -/
def Selector.ofTag (name : String) : Except CssError Selector :=
  (Step.ofTag name).map .single

/-- A step of one of the other kinds; it needs a name, and any name will do. -/
def Selector.named (kind : StepKind) (part : RequiredPart) (name : String) :
    Except ArgumentError Selector :=
  if name.isEmpty then .error ⟨part⟩ else .ok (.single ⟨kind, name⟩)

/-- The selector of all elements of one class. -/
def Selector.ofClass (name : String) : Except ArgumentError Selector :=
  Selector.named .className .className name

/-- The selector of the element with one id. -/
def Selector.ofId (name : String) : Except ArgumentError Selector :=
  Selector.named .elementId .elementId name

/-- The selector of all elements in one state. -/
def Selector.ofPseudoClass (name : String) : Except ArgumentError Selector :=
  Selector.named .pseudoClass .pseudoClass name

end StyleInliner.Css
