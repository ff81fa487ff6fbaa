/-
Reading a selector.

The text is read once, from left to right.  A directive character begins a step,
a blank ends the one being read and marks it as followed by a gap, and any other
character belongs to the step being read or begins a tag step.  Only afterwards
are the names looked at, the last step first, so of several faulty names the last
one is reported.
-/
import StyleInliner.Css.Selector
import StyleInliner.Text.Blank

namespace StyleInliner.Css

/-- Characters of selector forms that are not supported. -/
def unsupportedCharacters : List Char :=
  ['*', '>', '+', '~', '[', ']', ',']

/-- A step as it was written: not yet checked. -/
structure RawStep where
  kind : StepKind
  name : List Char
  /-- How it is joined to a step that follows. -/
  joint : Joint
  deriving DecidableEq, Repr, Inhabited

/-- The steps written in a text.  The flag says whether the characters ahead may belong to a step
already begun; if so, the leading characters that do are handed back first.  The joint handed back
tells whether a blank comes before the next step. -/
def scanSteps : Bool → List Char → List Char × Joint × List RawStep
  | _, [] => ([], .combination, [])
  | begun, c :: cs =>
    match StepKind.ofDirective? c with
    | some kind =>
      let (name, joint, steps) := scanSteps true cs
      ([], .combination, ⟨kind, name, joint⟩ :: steps)
    | none =>
      if Text.isBlank c then
        let (_, _, steps) := scanSteps false cs
        ([], .descendant, steps)
      else
        let (name, joint, steps) := scanSteps true cs
        if begun then (c :: name, joint, steps)
        else ([], .combination, ⟨.tagName, c :: name, joint⟩ :: steps)

/-- The steps written in a text, as they stand there. -/
def rawSteps (cs : List Char) : List RawStep :=
  (scanSteps false cs).2.2

/-- Looks at the name of a step: a tag has to be known, any other name has to be there. -/
def RawStep.check (source : String) (step : RawStep) : Except CssError Step :=
  match step.kind with
  | .tagName => Step.ofTag (String.ofList step.name)
  | kind =>
    if step.name.isEmpty then .error (.emptyStep source)
    else .ok ⟨kind, String.ofList step.name⟩

/-- The chain of the steps, checked from the last one back; there is none without a step. -/
def linkSteps (source : String) : List RawStep → Except CssError (Option Selector)
  | [] => .ok none
  | step :: rest => do
    let tail ← linkSteps source rest
    let head ← step.check source
    match tail with
    | none => return some (.single head)
    | some tail => return some (.chain head step.joint tail)

/-- Reads one selector. -/
def parseSelector (source : String) : Except CssError Selector := do
  if source.toList.any (unsupportedCharacters.contains ·) then
    throw (.unsupportedSelector source)
  match ← linkSteps source (rawSteps source.toList) with
  | some selector => return selector
  | none => throw .emptySelector

/-- Reads selectors separated by commas.  Blank ones are passed over, but one has to remain. -/
def parseSelectors (source : String) : Except CssError (List Selector) := do
  let pieces := (Text.splitAt ',' source.toList).map Text.trim
  let selectors ← (pieces.filter (!·.isEmpty)).mapM (parseSelector <| String.ofList ·)
  if selectors.isEmpty then throw .emptySelector
  return selectors

end StyleInliner.Css
