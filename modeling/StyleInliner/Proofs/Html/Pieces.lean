/-
The pieces that written HTML is made of.

A tree is written piece by piece: tags of elements, and between them the texts,
comments and processing instructions, each written by itself (`write_eq_join`).
Whatever the elements are, void or raw, the pieces that are no tags are what the tree
has in it, in its order (`content_pieces`).
-/
import StyleInliner.Html.Writer

namespace StyleInliner

open StyleInliner.Dom

mutual

/-- The texts, comments and processing instructions of a tree, in document order. -/
def Dom.Tree.data : Tree → List Content
  | .node content children =>
    match content with
    | .document => Dom.Tree.allData children
    | .element _ => Dom.Tree.allData children
    | .text s => [.text s]
    | .comment s => [.comment s]
    | .instruction target data => [.instruction target data]

/-- The texts, comments and processing instructions of trees, one tree after the other. -/
def Dom.Tree.allData : List Tree → List Content
  | [] => []
  | tree :: trees => tree.data ++ Dom.Tree.allData trees

end

namespace Html

/-- A piece of written HTML: a tag, or something that is no element. -/
inductive Piece where
  | tag (text : String)
  | data (content : Content) (text : String)
  deriving DecidableEq, Repr

namespace Piece

/-- The piece as it is written. -/
def text : Piece → String
  | .tag text => text
  | .data _ text => text

/-- What was written, if it is no tag. -/
def content? : Piece → Option Content
  | .tag _ => none
  | .data content _ => some content

@[simp] theorem text_tag (s : String) : (tag s).text = s := rfl

@[simp] theorem text_data (content : Content) (s : String) : (data content s).text = s := rfl

@[simp] theorem content?_tag (s : String) : (tag s).content? = none := rfl

@[simp] theorem content?_data (content : Content) (s : String) :
    (data content s).content? = some content := rfl

end Piece

mutual

/-- The pieces of a tree. -/
def pieces (above : Surroundings) : Tree → List Piece
  | .node content children =>
    match content with
    | .document => piecesAll above children
    | .element e =>
      let inner := piecesAll (above.below e) children
      if above.muted then inner
      else .tag (startTag e) :: inner ++
        (if (above.below e).muted then [] else [.tag (endTag e)])
    | .text s => [.data (.text s) (write above (.node (.text s) []))]
    | .comment s => [.data (.comment s) (write above (.node (.comment s) []))]
    | .instruction target data =>
      [.data (.instruction target data) (write above (.node (.instruction target data) []))]

/-- The pieces of trees, one after the other. -/
def piecesAll (above : Surroundings) : List Tree → List Piece
  | [] => []
  | tree :: trees => pieces above tree ++ piecesAll above trees

end

mutual

/-- **What is written is its pieces,** one after the other. -/
theorem write_eq_join (above : Surroundings) :
    ∀ t, write above t = String.join ((pieces above t).map Piece.text)
  | .node content children => by
    cases content with
    | document => rw [write, pieces, writeAll_eq_join above children]
    | element e =>
        rw [write, pieces, writeAll_eq_join (above.below e) children]
        split
        · rfl
        · split <;> simp [String.append_assoc]
    | text s => simp [pieces, write]
    | comment s => simp [pieces, write]
    | instruction target data => simp [pieces, write]

theorem writeAll_eq_join (above : Surroundings) :
    ∀ ts, writeAll above ts = String.join ((piecesAll above ts).map Piece.text)
  | [] => rfl
  | t :: ts => by
    rw [writeAll, piecesAll, List.map_append, String.join_append, write_eq_join above t,
      writeAll_eq_join above ts]

end

mutual

/-- **The pieces that are no tags are what the tree has in it,** also below void elements. -/
theorem content_pieces (above : Surroundings) :
    ∀ t, (pieces above t).filterMap Piece.content? = t.data
  | .node content children => by
    cases content with
    | document => rw [pieces, Tree.data, content_piecesAll above children]
    | element e =>
        rw [pieces, Tree.data, ← content_piecesAll (above.below e) children]
        split
        · rfl
        · split <;> simp [List.filterMap_cons]
    | text s => simp [pieces, Tree.data]
    | comment s => simp [pieces, Tree.data]
    | instruction target data => simp [pieces, Tree.data]

theorem content_piecesAll (above : Surroundings) :
    ∀ ts, (piecesAll above ts).filterMap Piece.content? = Tree.allData ts
  | [] => by rw [piecesAll, Tree.allData, List.filterMap_nil]
  | t :: ts => by
    rw [piecesAll, Tree.allData, List.filterMap_append, content_pieces above t,
      content_piecesAll above ts]

end

end Html

end StyleInliner
