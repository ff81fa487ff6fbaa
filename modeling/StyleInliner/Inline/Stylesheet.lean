/-
The stylesheet of a document: the one given from outside, and then the text of
every `style` element in the head.  They are joined as texts, each with a
newline behind it.
-/
import StyleInliner.Dom.Document
import StyleInliner.Inline.Options
import StyleInliner.Text.Blank

namespace StyleInliner.Inline

open StyleInliner.Dom

/-- The stylesheet given from outside, unless there is nothing in it. -/
def outsideStylesheet (options : InlineOptions) : String :=
  match options.extraCss with
  | some css => if Text.allBlank css.toList then "" else css ++ "\n"
  | none => ""

/-- The `style` elements below a node. -/
def styleElements (f : Forest) (head : NodeId) : List NodeId :=
  (f.elements head).filter fun n => f.tag? n == some "style"

/-- Reads one `style` element, and takes it out of the tree if asked to. -/
def readStyleElement (remove : Bool) (read : Forest × String) (n : NodeId) : Forest × String :=
  let (f, css) := read
  (if remove then f.detach n else f, css ++ Text.trimString (f.textContent n) ++ "\n")

/-- The text of the whole stylesheet, and the document without the elements that were taken out. -/
def collectStylesheet (d : Document) (options : InlineOptions) : Document × String :=
  let outside := outsideStylesheet options
  match d.head? with
  | none => (d, outside)
  | some head =>
    let (f, css) := (styleElements d.forest head).foldl
      (readStyleElement options.removeStyleElements) (d.forest, outside)
    ({ d with forest := f }, css)

end StyleInliner.Inline
