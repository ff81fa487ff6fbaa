/-
The rule dictionary: declarations by selector text.

Rules with a selector in common share one entry, and a rule with several
selectors adds to the entry of each.  A key is the text of a selector, so
selectors that are written the same share an entry however they were made.
-/
import StyleInliner.Css.Rule.Parser
import StyleInliner.Grouping

namespace StyleInliner.Css

/-- Declarations by selector text, in the order of the selectors' first use. -/
abbrev Dictionary := Grouping Declaration

namespace Dictionary

/-- The declarations of the rules for all elements of one class. -/
def getClass? (d : Dictionary) (name : String) : Option (List Declaration) :=
  d.get? ("." ++ name)

/-- Adds the declarations of a rule under each of its selectors. -/
def addRule (d : Dictionary) (rule : Rule) : Dictionary :=
  rule.selectors.foldl (fun d selector => d.add selector.text rule.declarations) d

/-- Adds rules, one after the other. -/
def addRules (d : Dictionary) (rules : List Rule) : Dictionary :=
  rules.foldl addRule d

/-- The dictionary of a list of rules. -/
def ofRules (rules : List Rule) : Dictionary :=
  addRules Grouping.empty rules

/-- The selectors that the keys are the texts of. -/
def selectors (d : Dictionary) : Except CssError (List Selector) :=
  d.names.mapM parseSelector

/-- The classes with an entry of their own, in the order of the entries. -/
def classNames (d : Dictionary) : Except CssError (List String) := do
  return (← d.selectors).filterMap Selector.className?

end Dictionary

/-- Reads a stylesheet straight into a dictionary. -/
def parseDictionary (source : String) : Except CssError Dictionary :=
  (parseRules source).map Dictionary.ofRules

end StyleInliner.Css
