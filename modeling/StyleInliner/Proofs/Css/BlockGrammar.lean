/-
Which texts are stylesheets, and what is wrong with the others.

A stylesheet is a sequence of blocks with something unfinished behind them, once its
comments are taken out.  `Block` is one block as it stands in a text, and carries the
proofs that it is cut where it has to be; `Unfinished` is what may stand behind the last
one; `Fault` is what a text begins with if it begins with none of these, or with a block
that cannot be read.

`nextBlock` tells the three apart (`nextBlock_text_append`, `nextBlock_eq_nothing_iff`),
and blocks that can be read are passed over (`parseBlocks_append_of_readsAs`).  So what a
text is read as is decided where the first block stands that cannot be read, and by
nothing behind it.
-/
import StyleInliner.Proofs.Css.Joining

namespace StyleInliner.Css

open StyleInliner.Text

/-! ### Blocks -/

/-- A block as it stands in a stylesheet, with the blanks in front of it. -/
structure Block where
  gap : List Char
  selectors : List Char
  declarations : List Char
  allBlank_gap : allBlank gap = true
  selectors_ne : selectors ≠ []
  /-- The selectors begin where the gap ends. -/
  head_selectors : ∀ c ∈ selectors.head?, isBlank c = false ∧ c ≠ '\x7d'
  /-- The selectors end at the first opening brace. -/
  selectors_plain : '\x7b' ∉ selectors
  /-- The declarations end at the first closing brace. -/
  declarations_plain : '\x7d' ∉ declarations

namespace Block

/-- The block as it stands there. -/
def text (b : Block) : List Char :=
  b.gap ++ (b.selectors ++ '\x7b' :: (b.declarations ++ ['\x7d']))

/-- What is read as selectors. -/
def selectorText (b : Block) : String :=
  String.ofList (trim b.selectors)

/-- What is read as declarations. -/
def declarationText (b : Block) : String :=
  String.ofList (trim b.declarations)

/-- Both texts of a block can be read, and a rule is made of them. -/
def ReadsAs (b : Block) (rule : Rule) : Prop :=
  parseSelectors b.selectorText = .ok rule.selectors ∧
    parseDeclarations b.declarationText = .ok rule.declarations

end Block

theorem nextBlock_text_append (b : Block) (rest : List Char) :
    nextBlock (b.text ++ rest) = .block b.selectors b.declarations rest := by
  refine nextBlock_eq_block_iff.2 ⟨b.gap, b.allBlank_gap, ?_, b.selectors_ne, b.head_selectors,
    b.selectors_plain, b.declarations_plain⟩
  simp [Block.text]

theorem exists_block_of_nextBlock {cs s d rest : List Char} (h : nextBlock cs = .block s d rest) :
    ∃ b : Block, b.selectors = s ∧ b.declarations = d ∧ cs = b.text ++ rest := by
  obtain ⟨l, hl, hcs, hne, hhead, hopen, hclose⟩ := nextBlock_eq_block_iff.1 h
  refine ⟨⟨l, s, d, hl, hne, hhead, hopen, hclose⟩, rfl, rfl, ?_⟩
  rw [hcs]
  simp [Block.text]

/-! ### What may be left at the end -/

/-- Nothing, or the beginning of a block that is never finished: there is no closing brace behind
its first opening one, if it has one. -/
structure Unfinished (tail : List Char) : Prop where
  head : ∀ c ∈ tail.head?, isBlank c = false ∧ c ≠ '\x7b' ∧ c ≠ '\x7d'
  open_end : ∀ s d, tail = s ++ '\x7b' :: d → '\x7b' ∉ s → '\x7d' ∉ d

theorem nextBlock_eq_nothing_iff {cs : List Char} :
    nextBlock cs = .nothing ↔
      ∃ gap tail, cs = gap ++ tail ∧ allBlank gap = true ∧ Unfinished tail := by
  constructor
  · intro h
    obtain ⟨gap, hgap, hcs⟩ := exists_eq_trimStart cs
    have hblank : ∀ c ∈ (trimStart cs).head?, isBlank c = false := fun c hc => head_trimStart hc
    generalize trimStart cs = tail at hcs hblank
    have hbrace : ∀ c ∈ tail.head?, c ≠ '\x7b' ∧ c ≠ '\x7d' := by
      intro c hc
      obtain ⟨rest, rfl⟩ : ∃ rest, tail = c :: rest := List.head?_eq_some_iff.1 hc
      rw [← not_or]
      intro hbracket
      rw [nextBlock_eq_stray_iff.2 ⟨gap, rest, hgap, hcs, hbracket⟩] at h
      cases h
    refine ⟨gap, tail, hcs, hgap, ⟨fun c hc => ⟨hblank c hc, hbrace c hc⟩, ?_⟩⟩
    rintro s d rfl hopen hclose
    -- the closing brace would make it a block
    obtain ⟨d, rest, rfl, hclosed⟩ := List.eq_append_cons_of_mem hclose
    have hne : s ≠ [] := by
      rintro rfl
      exact (hbrace '\x7b' rfl).1 rfl
    have hhead : ∀ c ∈ s.head?, isBlank c = false ∧ c ≠ '\x7d' := by
      intro c hc
      have hc' : c ∈ (s ++ '\x7b' :: (d ++ '\x7d' :: rest)).head? := by
        rwa [List.head?_append_of_ne_nil _ hne]
      exact ⟨hblank c hc', (hbrace c hc').2⟩
    rw [nextBlock_eq_block_iff.2 ⟨gap, hgap, hcs, hne, hhead, hopen, hclosed⟩] at h
    cases h
  · rintro ⟨gap, tail, rfl, hgap, htail⟩
    have hstart := trimStart_append_of_head hgap fun c hc => (htail.head c hc).1
    cases hnext : nextBlock (gap ++ tail) with
    | nothing => rfl
    | stray bracket =>
        obtain ⟨l, rest, hl, hcs, hbracket⟩ := nextBlock_eq_stray_iff.1 hnext
        have hblank : ∀ c ∈ (bracket :: rest).head?, isBlank c = false := by
          rintro c hc
          obtain rfl := Option.some.inj hc
          rcases hbracket with rfl | rfl <;> rfl
        rw [hcs, trimStart_append_of_head hl hblank] at hstart
        obtain ⟨-, hne⟩ := htail.head bracket (by rw [← hstart]; rfl)
        rcases hbracket with rfl | rfl
        · exact absurd rfl hne.1
        · exact absurd rfl hne.2
    | block s d rest =>
        obtain ⟨l, hl, hcs, hne, hhead, hopen, -⟩ := nextBlock_eq_block_iff.1 hnext
        have hblank : ∀ c ∈ (s ++ '\x7b' :: (d ++ '\x7d' :: rest)).head?, isBlank c = false := by
          rw [List.head?_append_of_ne_nil _ hne]
          exact fun c hc => (hhead c hc).1
        rw [hcs, trimStart_append_of_head hl hblank] at hstart
        exact absurd (by simp) (htail.open_end s (d ++ '\x7d' :: rest) hstart.symm hopen)

/-! ### Reading blocks -/

/-- A block that can be read is passed over. -/
theorem parseBlocks_text_append (b : Block) (rest : List Char) :
    parseBlocks (b.text ++ rest) = (do
      let rule ← parseBlock b.selectorText b.declarationText
      return rule :: (← parseBlocks rest)) :=
  parseBlocks_of_block (nextBlock_text_append b rest)

/-- **Blocks that can be read are passed over,** whatever comes behind them. -/
theorem parseBlocks_append_of_readsAs {blocks : List Block} {rules : List Rule}
    (h : List.Forall₂ Block.ReadsAs blocks rules) (rest : List Char) :
    parseBlocks (blocks.flatMap Block.text ++ rest) = (parseBlocks rest).map (rules ++ ·) := by
  induction h with
  | nil =>
      rw [List.flatMap_nil, List.nil_append]
      cases parseBlocks rest <;> rfl
  | cons hb _ ih =>
      rw [List.flatMap_cons, List.append_assoc, parseBlocks_text_append, ih,
        parseBlock_eq_ok_iff.2 hb]
      cases parseBlocks rest <;> rfl

/-- The first thing in a text is wrong: a brace before any selector, or a block whose selectors
cannot be read, or whose declarations cannot although its selectors can. -/
inductive Fault : List Char → CssError → Prop
  | bracket {gap rest : List Char} {bracket : Char} (hgap : allBlank gap = true)
      (hbracket : bracket = '\x7b' ∨ bracket = '\x7d') :
      Fault (gap ++ bracket :: rest) (.bracketBeforeSelector bracket)
  | selectors {b : Block} {rest : List Char} {cause : CssError}
      (hcause : parseSelectors b.selectorText = .error cause) :
      Fault (b.text ++ rest) (.selector b.selectorText cause)
  | declarations {b : Block} {rest : List Char} {cause : CssError} {selectors : List Selector}
      (hselectors : parseSelectors b.selectorText = .ok selectors)
      (hcause : parseDeclarations b.declarationText = .error cause) :
      Fault (b.text ++ rest) (.declarations b.declarationText cause)

/-- The selectors of a block are read before its declarations. -/
theorem fault_of_parseBlock {b : Block} {e : CssError}
    (h : parseBlock b.selectorText b.declarationText = .error e) (rest : List Char) :
    Fault (b.text ++ rest) e := by
  rcases bind_eq_error_iff.1 h with h | ⟨selectors, hselectors, h⟩
  · obtain ⟨cause, hcause, rfl⟩ := mapError_eq_error_iff.1 h
    exact .selectors hcause
  · rcases bind_eq_error_iff.1 h with h | ⟨declarations, -, h⟩
    · obtain ⟨cause, hcause, rfl⟩ := mapError_eq_error_iff.1 h
      exact .declarations (mapError_eq_ok_iff.1 hselectors) hcause
    · cases h

/-- A fault at the start of a text is what reading the text reports. -/
theorem Fault.parseBlocks_eq {cs : List Char} {e : CssError} (h : Fault cs e) :
    parseBlocks cs = .error e := by
  cases h with
  | bracket hgap hbracket =>
      exact parseBlocks_of_stray (nextBlock_eq_stray_iff.2 ⟨_, _, hgap, rfl, hbracket⟩)
  | selectors hcause =>
      rw [parseBlocks_text_append, parseBlock, hcause]
      rfl
  | declarations hselectors hcause =>
      rw [parseBlocks_text_append, parseBlock, hselectors, hcause]
      rfl

/-- **A text is blocks that can be read, and then something unfinished or a fault.**  What reading
gives is decided by that. -/
theorem exists_blocks (cs : List Char) :
    ∃ blocks rules rest, cs = blocks.flatMap Block.text ++ rest ∧
      List.Forall₂ Block.ReadsAs blocks rules ∧
        (nextBlock rest = .nothing ∧ parseBlocks cs = .ok rules ∨
          ∃ e, Fault rest e ∧ parseBlocks cs = .error e) := by
  induction hlength : cs.length using Nat.strongRecOn generalizing cs with
  | _ length ih =>
      cases hnext : nextBlock cs with
      | nothing => exact ⟨[], [], cs, rfl, .nil, .inl ⟨hnext, parseBlocks_of_nothing hnext⟩⟩
      | stray bracket =>
          obtain ⟨gap, rest, hgap, rfl, hbracket⟩ := nextBlock_eq_stray_iff.1 hnext
          have hfault : Fault (gap ++ bracket :: rest) _ := .bracket hgap hbracket
          exact ⟨[], [], _, rfl, .nil, .inr ⟨_, hfault, hfault.parseBlocks_eq⟩⟩
      | block s d rest =>
          obtain ⟨b, -, -, rfl⟩ := exists_block_of_nextBlock hnext
          cases hblock : parseBlock b.selectorText b.declarationText with
          | error e =>
              have hfault := fault_of_parseBlock hblock rest
              exact ⟨[], [], _, rfl, .nil, .inr ⟨e, hfault, hfault.parseBlocks_eq⟩⟩
          | ok rule =>
              obtain ⟨blocks, rules, tail, hrest, hreads, hcases⟩ :=
                ih rest.length (hlength ▸ length_of_nextBlock hnext) rest rfl
              refine ⟨b :: blocks, rule :: rules, tail, ?_,
                .cons (parseBlock_eq_ok_iff.1 hblock) hreads, ?_⟩
              · rw [List.flatMap_cons, List.append_assoc, ← hrest]
              · rw [parseBlocks_text_append, hblock]
                refine hcases.imp (fun h => ⟨h.1, ?_⟩) fun ⟨e, hfault, he⟩ => ⟨e, hfault, ?_⟩
                · rw [h.2]
                  rfl
                · rw [he]
                  rfl

/-- **A stylesheet is read exactly if it keeps to the grammar of blocks, and of the others the first
fault is reported.**  With its comments taken out it has to be blocks that can be read, and behind
them blanks or a block that is not finished; its rules are those of the blocks, in their order.
Where blocks that can be read are followed by a fault, that fault is the error. -/
theorem parseRules_grammar (source : String) :
    (∀ rules, parseRules source = .ok rules ↔
      ∃ blocks gap tail, stripComments source.toList = blocks.flatMap Block.text ++ (gap ++ tail) ∧
        List.Forall₂ Block.ReadsAs blocks rules ∧ allBlank gap = true ∧ Unfinished tail) ∧
      ∀ e, parseRules source = .error e ↔
        ∃ blocks rules rest, stripComments source.toList = blocks.flatMap Block.text ++ rest ∧
          List.Forall₂ Block.ReadsAs blocks rules ∧ Fault rest e := by
  obtain ⟨blocks, rules, rest, hcs, hreads, hcases⟩ := exists_blocks (stripComments source.toList)
  refine ⟨fun found => ⟨fun h => ?_, ?_⟩, fun e => ⟨fun h => ?_, ?_⟩⟩
  · rcases hcases with ⟨hnothing, hread⟩ | ⟨e, -, he⟩
    · obtain rfl := Except.ok.inj (hread.symm.trans h)
      obtain ⟨gap, tail, rfl, hgap, htail⟩ := nextBlock_eq_nothing_iff.1 hnothing
      exact ⟨blocks, gap, tail, hcs, hreads, hgap, htail⟩
    · cases he.symm.trans h
  · rintro ⟨blocks, gap, tail, hcs, hreads, hgap, htail⟩
    have hnothing := nextBlock_eq_nothing_iff.2 ⟨gap, tail, rfl, hgap, htail⟩
    rw [parseRules, hcs, parseBlocks_append_of_readsAs hreads, parseBlocks_of_nothing hnothing]
    exact congrArg Except.ok (List.append_nil found)
  · rcases hcases with ⟨-, hread⟩ | ⟨e', hfault, he⟩
    · cases hread.symm.trans h
    · obtain rfl := Except.error.inj (he.symm.trans h)
      exact ⟨blocks, rules, rest, hcs, hreads, hfault⟩
  · rintro ⟨blocks, rules, rest, hcs, hreads, hfault⟩
    rw [parseRules, hcs, parseBlocks_append_of_readsAs hreads, hfault.parseBlocks_eq]
    rfl

end StyleInliner.Css
