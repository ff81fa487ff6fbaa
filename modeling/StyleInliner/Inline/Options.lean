/-
What may be chosen when a document is inlined.
-/

namespace StyleInliner

/-- The choices of one run. -/
structure InlineOptions where
  /-- A stylesheet that goes before those of the document. -/
  extraCss : Option String := none
  /-- Whether `style` elements in the head go once they are read. -/
  removeStyleElements : Bool := true
  /-- Whether class attributes go once their rules are applied. -/
  removeClassAttributes : Bool := true
  deriving DecidableEq, Repr, Inhabited

end StyleInliner
