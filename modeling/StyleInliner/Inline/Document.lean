/-
Inlining the styles of a document.

There are three passes over the elements of the document.  The first applies the
rules for tags, one tag after the other; the second applies, element by element,
the rules for the classes that it carries; the third turns the elements that
carry the table directive into tables.  Only selectors of a single step take
part; all others are kept in the dictionary and never applied.
-/
import StyleInliner.Css.Dictionary
import StyleInliner.Dom.Index
import StyleInliner.Inline.Application
import StyleInliner.Inline.Run
import StyleInliner.Inline.Stylesheet
import StyleInliner.Inline.TableConversion

namespace StyleInliner.Inline

open StyleInliner.Css StyleInliner.Dom

/-- The tags and the classes that a dictionary has rules for. -/
structure Matchable where
  tags : List String
  classes : List String
  deriving DecidableEq, Repr, Inhabited

/-- The selectors of a dictionary that elements are matched with, each once. -/
def Matchable.ofDictionary (rules : Dictionary) : Except CssError Matchable := do
  let selectors ← rules.selectors
  return ⟨(selectors.filterMap Selector.tagName?).eraseDups,
    (selectors.filterMap Selector.className?).eraseDups⟩

/-- Applies declarations to a node, if it is an element. -/
def applyTo (ds : List Declaration) (f : Forest) (n : NodeId) : Run Forest CssError :=
  match f.element? n with
  | none => Run.done f
  | some e => Run.step f ((applyDeclarations e ds).map fun e => f.setContent n (.element e))

/-! ### The passes -/

/-- Applies the rules for one tag. -/
def inlineTag (rules : Dictionary) (index : Index) (f : Forest) (tag : String) :
    Run Forest CssError :=
  match rules.get? tag with
  | none => Run.done f
  | some ds => Run.forEach (applyTo ds) f (index.byTag tag)

/-- Applies the rules for one class to a node. -/
def inlineClass (rules : Dictionary) (matchable : Matchable) (n : NodeId) (f : Forest)
    (name : String) : Run Forest CssError :=
  if matchable.classes.contains name then
    match rules.getClass? name with
    | none => Run.done f
    | some ds => applyTo ds f n
  else Run.done f

/-- The classes that a class attribute lists. -/
def classesOf (value : String) : List String :=
  (Text.words value.toList).map String.ofList

/-- Applies the rules for all classes of a node, and takes out its class attribute if asked to. -/
def inlineClasses (rules : Dictionary) (matchable : Matchable) (remove : Bool) (f : Forest)
    (n : NodeId) : Run Forest CssError :=
  let classes := classesOf (((f.element? n).bind (·.attribute? "class")).getD "")
  (Run.forEach (inlineClass rules matchable n) f classes).andThen fun f =>
    Run.done (if remove then f.modifyElement n (·.removeAttribute "class") else f)

/-- Whether an element carries the table directive: its style mentions it. -/
def isMarked (e : Element) : Bool :=
  (e.attribute? "style").any fun style => Text.occursIn tableDirective.toList style.toList

/-- Turns a node into a table if it carries the directive. -/
def convertMarked (f : Forest) (n : NodeId) : Run Forest CssError :=
  if (f.element? n).any isMarked then Run.step f ((convertToTable f n).map Prod.fst)
  else Run.done f

/-- Applies the rules of a dictionary.  The tags to match are taken in the order they are given
in. -/
def inlineRules (rules : Dictionary) (matchable : Matchable) (index : Index) (removeClass : Bool)
    (f : Forest) : Run Forest CssError :=
  (Run.forEach (inlineTag rules index) f matchable.tags).andThen fun f =>
    Run.forEach (inlineClasses rules matchable removeClass) f index.classed

/-- Reads a stylesheet and picks out what its rules can be matched with. -/
def readStylesheet (css : String) : Except CssError (Dictionary × Matchable) := do
  let rules ← parseDictionary css
  return (rules, ← Matchable.ofDictionary rules)

/-- The first two passes: applies the rules of a stylesheet to the elements of a document.  The set
of tags to match comes in no order of its own, so the order it is taken in is given. -/
def applyStylesheet (order : List String → List String) (css : String) (removeClass : Bool)
    (d : Document) : Run Document CssError :=
  match readStylesheet css with
  | .error e => ⟨d, some e⟩
  | .ok (rules, matchable) =>
    let run := inlineRules rules { matchable with tags := order matchable.tags }
      (Index.ofDocument d) removeClass d.forest
    ⟨{ d with forest := run.state }, run.fault⟩

/-- The third pass: turns every element of an index that carries the directive into a table. -/
def convertAll (index : Index) (d : Document) : Run Document CssError :=
  let run := Run.forEach convertMarked d.forest index.elements
  ⟨{ d with forest := run.state }, run.fault⟩

/-- Inlines the styles of a document, with the tags to match taken in a given order.  The index is
made before the passes, and the third one still goes by it. -/
def inlineDocumentIn (order : List String → List String) (d : Document) (options : InlineOptions) :
    Run Document CssError :=
  let (d, css) := collectStylesheet d options
  (applyStylesheet order css options.removeClassAttributes d).andThen
    (convertAll (Index.ofDocument d))

/-- Inlines the styles of a document. -/
def inlineDocument (d : Document) (options : InlineOptions) : Run Document CssError :=
  inlineDocumentIn id d options

end StyleInliner.Inline
