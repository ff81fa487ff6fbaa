/-
Rules: declarations for the elements of one or more selectors.
-/
import StyleInliner.Css.Declaration
import StyleInliner.Css.Selector

namespace StyleInliner.Css

/-- Declarations and the selectors they are for.  A property may be declared several times;
nothing here decides which one holds. -/
structure Rule where
  selectors : List Selector
  declarations : List Declaration
  deriving DecidableEq, Repr, Inhabited

namespace Rule

/-- The selectors of a rule as they are written. -/
def selectorText (rule : Rule) : String :=
  ", ".intercalate (rule.selectors.map Selector.text)

/-- The rule on one line. -/
def text (rule : Rule) : String :=
  rule.selectorText ++ " \x7b" ++ String.join (rule.declarations.map Declaration.text) ++ "\x7d"

/-- Whether the rule has as many declarations as there are others, and all of those among its
own. -/
def hasDeclarations (rule : Rule) (others : List Declaration) : Bool :=
  rule.declarations.length == others.length &&
    others.all fun other => rule.declarations.any (·.sameText other)

/-- Whether two rules have the same selectors and, one by one, declarations written the same. -/
def same (a b : Rule) : Bool :=
  a.selectors == b.selectors &&
    a.declarations.map Declaration.text == b.declarations.map Declaration.text

end Rule

end StyleInliner.Css
