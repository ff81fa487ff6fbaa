/-
Formatting elements.

An element such as `b` that a block is not nested in goes on behind the block:
it is kept in a list, and opened again before the next text.  An end tag in the
wrong place is sorted out by adoption: the block becomes a child of the element's
parent, and a copy of the element adopts the block's children.
-/
import StyleInliner.Html.Construction.State

namespace StyleInliner.Html

open StyleInliner.Dom

namespace FormatEntry

/-- The node of an entry. -/
def node? : FormatEntry → Option NodeId
  | marker => none
  | element n _ => some n

/-- Whether an entry is about a node. -/
def isAbout (entry : FormatEntry) (n : NodeId) : Bool :=
  entry.node? == some n

/-- Whether an entry is a marker. -/
def isMarker (entry : FormatEntry) : Bool :=
  entry.node?.isNone

/-- Whether an entry came from a tag of some name. -/
def isNamed (entry : FormatEntry) (name : String) : Bool :=
  match entry with
  | marker => false
  | element _ tag => tag.name == name

/-- Whether an entry came from a tag like the given one. -/
def isLike (entry : FormatEntry) (tag : Tag) : Bool :=
  match entry with
  | marker => false
  | element _ old => old.name == tag.name && old.attributes.isPerm tag.attributes

end FormatEntry

namespace Builder

/-- The formatting elements since the last marker. -/
def recentFormatting (b : Builder) : List FormatEntry :=
  b.formatting.takeWhile (!·.isMarker)

/-- Takes a node out of the formatting elements. -/
def forget (b : Builder) (n : NodeId) : Builder :=
  { b with formatting := b.formatting.eraseP (·.isAbout n) }

/-- Opens elements again, the oldest, which comes last, first. -/
def reopen (b : Builder) : List FormatEntry → Builder × List FormatEntry
  | [] => (b, [])
  | entry :: older =>
    let (b, older) := reopen b older
    match entry with
    | .marker => (b, entry :: older)
    | .element _ tag =>
      let (b, n) := b.openElement ⟨.html, tag.name, tag.attributes⟩
      (b, .element n tag :: older)

/-- Opens again the formatting elements that are not open, back to the last one that is. -/
def reconstruct (b : Builder) : Builder :=
  let isClosed (entry : FormatEntry) : Bool := entry.node?.any (!b.opened.contains ·)
  let rest := b.formatting.dropWhile isClosed
  let (b, fresh) := b.reopen (b.formatting.takeWhile isClosed)
  { b with formatting := fresh ++ rest }

/-- Takes out the last entry of which something holds, and keeps the others. -/
def eraseLast (p : FormatEntry → Bool) (entries : List FormatEntry) : List FormatEntry :=
  (entries.reverse.eraseP p).reverse

/-- Opens a formatting element.  No more than three like it are kept. -/
def openFormatting (b : Builder) (tag : Tag) : Builder :=
  let recent := b.recentFormatting
  let recent' := if 3 ≤ recent.countP (·.isLike tag) then eraseLast (·.isLike tag) recent
    else recent
  let rest := b.formatting.drop recent.length
  let (b, n) := b.openElement ⟨.html, tag.name, tag.attributes⟩
  { b with formatting := .element n tag :: recent' ++ rest }

/-- Closes the innermost element of a name and what is open in it, unless a special element stands
between. -/
def closeGeneric (b : Builder) (name : String) : Builder :=
  let rec find : List NodeId → Option NodeId
    | [] => none
    | n :: ns =>
      if b.satisfies (isHtml name) n then some n
      else if b.satisfies isSpecial n then none
      else find ns
  match find b.opened with
  | none => b
  | some n =>
    let b := b.closeImpliedBut name
    { b with opened := (b.opened.dropWhile (· != n)).tail }

/-! ### Adoption -/

/-- An adoption under way, while the elements between the block and the formatting element are
copied. -/
structure Adoption where
  builder : Builder
  /-- How many elements have been looked at. -/
  count : Nat
  /-- The node that the next copy takes in. -/
  last : NodeId
  /-- The first copy, behind which the formatting element goes in the list. -/
  bookmark : Option NodeId
  /-- The copies, innermost first. -/
  kept : List NodeId

/-- Looks at one element between the block and the formatting element: a formatting element is
replaced by a copy that takes in what is there so far; any other is closed.  Only three are
copied. -/
def Adoption.pass (a : Adoption) (n : NodeId) : Adoption :=
  let b := a.builder
  let count := a.count + 1
  if 3 < count then { a with builder := b.forget n, count }
  else
    match b.formatting.find? (·.isAbout n) with
    | some (.element _ tag) =>
      let (b, copy) := b.create (.element ⟨.html, tag.name, tag.attributes⟩)
      let formatting := b.formatting.map fun entry =>
        if entry.isAbout n then .element copy tag else entry
      let b := { b with formatting, forest := b.forest.appendChild copy a.last }
      ⟨b, count, copy, a.bookmark <|> some copy, a.kept ++ [copy]⟩
    | _ => { a with count }

/-- The list of formatting elements with a new entry in the place of an old one, or behind the one
of a bookmark. -/
def replaceEntry (bookmark : Option NodeId) (old : NodeId) (entry : FormatEntry)
    (entries : List FormatEntry) : List FormatEntry :=
  match bookmark with
  | none => entries.map fun e => if e.isAbout old then entry else e
  | some n =>
    (entries.flatMap fun e => if e.isAbout n then [entry, e] else [e]).eraseP (·.isAbout old)

/-- Sorts out a formatting element in which a special element is open.  The open elements are
given as those inside that block, the block, those between it and the formatting element, and
those further out. -/
def adopt (b : Builder) (formatted : NodeId) (tag : Tag) (inside : List NodeId) (block : NodeId)
    (between outside : List NodeId) : Builder :=
  let a := between.foldl Adoption.pass ⟨b, 0, block, none, []⟩
  let b := a.builder
  let b := { b with forest := b.forest.detach a.last }
  let b := b.insertUnder (outside.headD documentNode) (.node a.last)
  let (b, copy) := b.create (.element ⟨.html, tag.name, tag.attributes⟩)
  let forest := (b.forest.moveChildren block copy).appendChild block copy
  { b with
    forest
    formatting := replaceEntry a.bookmark formatted (.element copy tag) b.formatting
    opened := inside ++ copy :: block :: a.kept ++ outside }

/-- Sorts out the end tag of a formatting element, in at most so many rounds. -/
def adoptWithin (name : String) : Nat → Builder → Builder
  | 0, b => b
  | rounds + 1, b =>
    match b.recentFormatting.find? (·.isNamed name) with
    | some (.element n tag) =>
      if !b.opened.contains n then b.forget n
      else if !b.inScopeWhere endsScope (· == n) then b
      else
        let inner := b.opened.takeWhile (· != n)
        let outside := (b.opened.dropWhile (· != n)).tail
        -- the special element closest to the formatting element
        let between := (inner.reverse.takeWhile (!b.satisfies isSpecial ·)).reverse
        match (inner.reverse.dropWhile (!b.satisfies isSpecial ·)) with
        | [] => { b.forget n with opened := outside }
        | block :: inside =>
          adoptWithin name rounds (b.adopt n tag inside.reverse block between outside)
    | _ => b.closeGeneric name

/-- Treats the end tag of a formatting element. -/
def closeFormatting (b : Builder) (name : String) : Builder :=
  let innermostOnly := b.currentIs (isHtml name) && !b.formatting.any (·.isAbout b.current)
  if innermostOnly then b.pop else adoptWithin name 8 b

/-- Before another link is opened, closes the one that is open. -/
def closeOpenLink (b : Builder) : Builder :=
  match b.recentFormatting.find? fun e => e.node?.any (b.satisfies (isHtml "a")) with
  | some (.element n _) => ((b.closeFormatting "a").forget n).close n
  | _ => b

end Builder

end StyleInliner.Html
