/-
Declarations: a property and its value.

The property is kept lower-cased, the value as it was given.  Two declarations
count as the same when they are written the same, so where the colon falls does
not matter: `a` with value `b:c` is the same as `a:b` with value `c`.
-/
import StyleInliner.Css.Error
import StyleInliner.Text.LetterCase

namespace StyleInliner.Css

/-- One property with its value, such as `color` with `red`. -/
structure Declaration where
  property : String
  value : String
  deriving DecidableEq, Repr, Inhabited

namespace Declaration

/-- The declaration as it is written. -/
def text (d : Declaration) : String :=
  d.property ++ ":" ++ d.value ++ ";"

/-- Whether two declarations are written the same. -/
def sameText (a b : Declaration) : Bool :=
  a.text == b.text

/-- Whether this is a declaration of the property, whose name may come in any letter case. -/
def isOf (d : Declaration) (property : String) : Bool :=
  Text.sameIgnoringCase d.property property

/-- A declaration read from a stylesheet, where the value may be missing. -/
def ofRead (property value : String) : Except ArgumentError Declaration :=
  if property.isEmpty then .error ⟨.property⟩ else .ok ⟨Text.lower property, value⟩

/-- A declaration made of two parts, neither of which may be empty. -/
def ofParts (property value : String) : Except ArgumentError Declaration :=
  if value.isEmpty then .error ⟨.value⟩ else ofRead property value

end Declaration

/-! ### Properties with a meaning of their own -/

/-- The directive that turns an element into a table of one cell. -/
def tableDirective : String := "-tableize"

/-- What a property starts with that is written as the attribute named by the rest. -/
def attributeMarker : String := "-attr-"

end StyleInliner.Css
