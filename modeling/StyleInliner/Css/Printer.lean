/-
Writing rules as CSS text.

There are two layouts.  The compact one keeps a rule on one line; the pretty one
gives each declaration a line of its own, set in by a tab.
-/
import StyleInliner.Css.Dictionary

namespace StyleInliner.Css

/-- How CSS text is laid out. -/
inductive Layout where
  | compact
  | pretty
  deriving DecidableEq, Repr, Inhabited

namespace Layout

/-- One declaration. -/
def declaration (layout : Layout) (d : Declaration) : String :=
  match layout with
  | compact => d.text
  | pretty => "\t" ++ d.text ++ "\n"

/-- Declarations, one after the other. -/
def declarations (layout : Layout) (ds : List Declaration) : String :=
  String.join (ds.map layout.declaration)

/-- Declarations between braces, behind the text of their selectors. -/
def block (layout : Layout) (selectors : String) (ds : List Declaration) : String :=
  match layout with
  | compact => selectors ++ " \x7b" ++ layout.declarations ds ++ "\x7d "
  | pretty => selectors ++ "\n\x7b\n" ++ layout.declarations ds ++ "\x7d\n"

/-- Rules, one after the other. -/
def rules (layout : Layout) (rs : List Rule) : String :=
  String.join (rs.map fun rule => layout.block rule.selectorText rule.declarations)

/-- The entries of a dictionary, one after the other. -/
def dictionary (layout : Layout) (d : Dictionary) : String :=
  String.join (d.groups.map fun (key, ds) => layout.block key ds)

end Layout

/-- A stylesheet without its comments and the blanks that mean nothing. -/
def compactText (source : String) : Except CssError String :=
  (parseRules source).map Layout.compact.rules

end StyleInliner.Css
