/-
Reading the rules of a stylesheet.

With its comments taken out, a stylesheet is a sequence of blocks: a selector
list up to an opening brace, and declarations up to a closing one.  What is left
at the end, a block that was never finished, is dropped without a word.  The
first fault ends the reading.
-/
import StyleInliner.Css.Comment
import StyleInliner.Css.Declaration.Parser
import StyleInliner.Css.Rule
import StyleInliner.Css.Selector.Parser

namespace StyleInliner.Css

/-- What comes next in a stylesheet. -/
inductive NextBlock where
  /-- Nothing but blanks, or a block that has no end. -/
  | nothing
  /-- A brace before any selector. -/
  | stray (bracket : Char)
  /-- The two texts of a block, and what follows it. -/
  | block (selectors declarations rest : List Char)
  deriving Repr, Inhabited

/-- Finds the next block of a stylesheet. -/
def nextBlock (cs : List Char) : NextBlock :=
  match Text.trimStart cs with
  | [] => .nothing
  | c :: cs =>
    if c = '\x7b' ∨ c = '\x7d' then .stray c
    else
      let selectors := c :: cs.takeWhile (· != '\x7b')
      match cs.dropWhile (· != '\x7b') with
      | [] => .nothing
      | _ :: body =>
        match body.dropWhile (· != '\x7d') with
        | [] => .nothing
        | _ :: rest => .block selectors (body.takeWhile (· != '\x7d')) rest

theorem length_of_nextBlock {cs selectors declarations rest : List Char}
    (h : nextBlock cs = .block selectors declarations rest) : rest.length < cs.length := by
  unfold nextBlock at h
  have htrim := (List.dropWhile_suffix Text.isBlank (l := cs)).length_le
  split at h
  · simp at h
  · rename_i c tail heq
    rw [Text.trimStart] at heq
    rw [heq, List.length_cons] at htrim
    split at h
    · simp at h
    · dsimp only at h
      split at h
      · simp at h
      · rename_i body hbody
        have h₁ := (List.dropWhile_suffix (· != '\x7b') (l := tail)).length_le
        rw [hbody, List.length_cons] at h₁
        split at h
        · simp at h
        · rename_i hrest
          have h₂ := (List.dropWhile_suffix (· != '\x7d') (l := body)).length_le
          rw [hrest, List.length_cons] at h₂
          simp only [NextBlock.block.injEq] at h
          rw [← h.2.2]
          omega

/-- Reads the two texts of a block, the selectors first. -/
def parseBlock (selectors declarations : String) : Except CssError Rule := do
  let selectorList ← (parseSelectors selectors).mapError (.selector selectors)
  let declarationList ← (parseDeclarations declarations).mapError (.declarations declarations)
  return ⟨selectorList, declarationList⟩

/-- Reads the rules of a text without comments. -/
def parseBlocks (cs : List Char) : Except CssError (List Rule) :=
  match _h : nextBlock cs with
  | .nothing => .ok []
  | .stray bracket => .error (.bracketBeforeSelector bracket)
  | .block selectors declarations rest => do
    let rule ← parseBlock (String.ofList (Text.trim selectors))
      (String.ofList (Text.trim declarations))
    let rules ← parseBlocks rest
    return rule :: rules
termination_by cs.length
decreasing_by exact length_of_nextBlock _h

/-- Reads the rules of a stylesheet, in the order they stand there. -/
def parseRules (source : String) : Except CssError (List Rule) :=
  parseBlocks (stripComments source.toList)

end StyleInliner.Css
