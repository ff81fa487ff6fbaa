/-
Stylesheets that are joined as texts.

What a text leaves over is read together with the text behind it, and that is all
that one does to the other: `parseBlocks_append` holds whatever the texts are.  With
comments it is the same: what one leaves over is the comment that it does not close,
and all behind that (`stripComments_append_of_cut`).  If no later text closes it, each
loses its comments by itself (`stripComments_append`).

So a sheet is read as it is by itself if none in front of it runs over into it, by a
block that has no end or by a comment that is not closed (`parseRules_joinSheets`).
What the last one leaves over is dropped.
-/
import Mathlib.Data.List.Infix
import StyleInliner.Proofs.Css.Comment
import StyleInliner.Proofs.Css.Rule

namespace StyleInliner.Css

open StyleInliner.Text

/-! ### Comments -/

/-- Every comment that the text opens it closes, too. -/
def ClosesComments (cs : List Char) : Prop :=
  ¬ ['/', '*'] <:+: stripComments cs

instance (cs : List Char) : Decidable (ClosesComments cs) :=
  inferInstanceAs (Decidable (¬ _))

/-- A line comment ends where it did when a line is put behind the text. -/
theorem dropWhile_line_append (cs more : List Char) :
    (cs ++ '\n' :: more).dropWhile (· != '\n') = cs.dropWhile (· != '\n') ++ '\n' :: more := by
  rw [List.dropWhile_append]
  split
  · rename_i hempty
    rw [List.isEmpty_iff.1 hempty]
    rfl
  · rfl

theorem stripComments_closed {rest after : List Char} (h : afterClosing rest = some after) :
    stripComments ('/' :: '*' :: rest) = stripComments after := by
  rw [stripComments.eq_3]
  split
  · rename_i after' hafter'
    obtain rfl := Option.some.inj (h.symm.trans hafter')
    rfl
  · rename_i hnone
    rw [h] at hnone
    cases hnone

theorem stripComments_open {rest : List Char} (h : afterClosing rest = none) :
    stripComments ('/' :: '*' :: rest) = '/' :: '*' :: stripComments rest := by
  rw [stripComments.eq_3]
  split
  · rename_i hsome
    rw [h] at hsome
    cases hsome
  · rfl

/-- A character that opens no comment opens none when a line is put behind the text. -/
theorem stripComments_cons_append {c : Char} {rest : List Char}
    (hline : ∀ tail, c = '/' → rest = '/' :: tail → False)
    (hblock : ∀ tail, c = '/' → rest = '*' :: tail → False) (more : List Char) :
    stripComments (c :: (rest ++ '\n' :: more)) = c :: stripComments (rest ++ '\n' :: more) := by
  rw [stripComments.eq_4]
  · intro tail hc heq
    cases rest with
    | nil => cases heq
    | cons d rest => exact hline rest hc (by rw [(List.cons.inj heq).1])
  · intro tail hc heq
    cases rest with
    | nil => cases heq
    | cons d rest => exact hblock rest hc (by rw [(List.cons.inj heq).1])

/-- **Texts on different lines lose their comments each by itself,** unless the first one opens a
comment that the second one closes. -/
theorem stripComments_append {cs more : List Char}
    (h : ClosesComments cs ∨ afterClosing more = none) :
    stripComments (cs ++ '\n' :: more) = stripComments cs ++ '\n' :: stripComments more := by
  unfold ClosesComments at h
  fun_induction stripComments cs with
  | case1 => exact stripComments_cons_of_ne (by decide)
  | case2 rest ih =>
      rw [List.cons_append, List.cons_append, stripComments.eq_2, dropWhile_line_append, ih h]
  | case3 rest after hafter ih =>
      have hclosed := afterClosing_append hafter ('\n' :: more)
      rw [List.cons_append, List.cons_append, stripComments_closed hclosed, ih h]
  | case4 rest hafter ih =>
      have hmore : afterClosing more = none :=
        h.resolve_left fun hcloses => hcloses ⟨[], _, rfl⟩
      have hopen : afterClosing (rest ++ '\n' :: more) = none :=
        (afterClosing_append_cons_eq_none_iff (by decide)).2 ⟨hafter, hmore⟩
      rw [List.cons_append, List.cons_append, stripComments_open hopen, ih (Or.inr hmore)]
      rfl
  | case5 c rest hline hblock ih =>
      have hrest : ClosesComments rest ∨ afterClosing more = none :=
        h.imp_left fun hcloses hopens => hcloses (hopens.trans (List.suffix_cons c _).isInfix)
      rw [List.cons_append, stripComments_cons_append hline hblock, ih hrest]
      rfl

/-- A text without comments up to the first one that it opens and does not close, and what is there
from that one on, as it stands. -/
def cutAtOpen : List Char → List Char × List Char
  | [] => ([], [])
  | '/' :: '/' :: rest => cutAtOpen (rest.dropWhile (· != '\n'))
  | '/' :: '*' :: rest =>
    match _h : afterClosing rest with
    | some after => cutAtOpen after
    | none => ([], '/' :: '*' :: rest)
  | c :: rest => (c :: (cutAtOpen rest).1, (cutAtOpen rest).2)
termination_by cs => cs.length
decreasing_by
  · have hle := (List.dropWhile_suffix (· != '\n') (l := rest)).length_le
    simp only [List.length_cons]
    omega
  · have hlt := length_of_afterClosing _h
    simp only [List.length_cons]
    omega
  all_goals simp only [List.length_cons]; omega

/-- **When a text goes on, only its open comment is read anew,** which may be closed by then. -/
theorem stripComments_append_of_cut (cs more : List Char) :
    stripComments (cs ++ '\n' :: more) =
      (cutAtOpen cs).1 ++ stripComments ((cutAtOpen cs).2 ++ '\n' :: more) := by
  fun_induction cutAtOpen cs with
  | case1 => rfl
  | case2 rest ih =>
      rw [List.cons_append, List.cons_append, stripComments.eq_2, dropWhile_line_append, ih]
  | case3 rest after hafter ih =>
      have hclosed := afterClosing_append hafter ('\n' :: more)
      rw [List.cons_append, List.cons_append, stripComments_closed hclosed, ih]
  | case4 rest hafter => rfl
  | case5 c rest hline hblock ih =>
      rw [List.cons_append, stripComments_cons_append hline hblock, ih, List.cons_append]

/-! ### Blocks -/

/-- What is left of a text when its blocks are taken off: blanks, or a block that has no end. -/
def leftOver (cs : List Char) : List Char :=
  match _h : nextBlock cs with
  | .nothing => cs
  | .stray _ => cs
  | .block _ _ rest => leftOver rest
termination_by cs.length
decreasing_by exact length_of_nextBlock _h

theorem leftOver_of_block {cs s d rest : List Char} (h : nextBlock cs = .block s d rest) :
    leftOver cs = leftOver rest := by
  rw [leftOver]
  split <;> simp_all

theorem leftOver_eq_self {cs : List Char} (h : ∀ s d rest, nextBlock cs ≠ .block s d rest) :
    leftOver cs = cs := by
  rw [leftOver]
  split
  · rfl
  · rfl
  · rename_i hblock
    exact absurd hblock (h _ _ _)

theorem nextBlock_append {cs s d rest : List Char} (h : nextBlock cs = .block s d rest)
    (more : List Char) : nextBlock (cs ++ more) = .block s d (rest ++ more) := by
  obtain ⟨l, hl, rfl, hblock⟩ := nextBlock_eq_block_iff.1 h
  exact nextBlock_eq_block_iff.2 ⟨l, hl, by simp, hblock⟩

/-- Where a brace stands before any selector. -/
theorem nextBlock_eq_stray_iff {cs : List Char} {bracket : Char} :
    nextBlock cs = .stray bracket ↔
      ∃ l rest, allBlank l = true ∧ cs = l ++ bracket :: rest ∧
        (bracket = '\x7b' ∨ bracket = '\x7d') := by
  constructor
  · intro h
    obtain ⟨l, hl, hcs⟩ := exists_eq_trimStart cs
    unfold nextBlock at h
    split at h
    · cases h
    · rename_i c tail htrim
      rw [htrim] at hcs
      split at h
      · rename_i hbrace
        obtain rfl := NextBlock.stray.inj h
        exact ⟨l, tail, hl, hcs, hbrace⟩
      · dsimp only at h
        split at h
        · cases h
        · split at h <;> cases h
  · rintro ⟨l, rest, hl, rfl, hbracket⟩
    have hblank : isBlank bracket = false := by
      rcases hbracket with rfl | rfl <;> rfl
    have hstart : trimStart (l ++ bracket :: rest) = bracket :: rest := by
      rw [trimStart_append hl]
      simp [trimStart, hblank]
    unfold nextBlock
    rw [hstart]
    exact if_pos hbracket

/-- Blanks in front of a text make no difference. -/
theorem nextBlock_blank_append {l : List Char} (hl : allBlank l = true) (cs : List Char) :
    nextBlock (l ++ cs) = nextBlock cs := by
  unfold nextBlock
  rw [trimStart_append hl]

/-- Blanks behind a text complete no block. -/
theorem nextBlock_append_blank {cs r : List Char} (hr : allBlank r = true)
    (h : nextBlock cs = .nothing) : nextBlock (cs ++ r) = .nothing := by
  -- a character that is no blank stands in the longer text where it stands in the shorter one
  have hpeel : ∀ {l rest : List Char} {c : Char}, isBlank c = false → cs ++ r = l ++ c :: rest →
      ∃ rest', cs = l ++ c :: rest' := by
    intro l rest c hc heq
    rcases List.append_eq_append_iff.1 heq with ⟨l', rfl, hr'⟩ | ⟨rest', rfl, hrest⟩
    · have hmem : c ∈ r := by simp [hr']
      rw [List.all_eq_true.1 hr c hmem] at hc
      cases hc
    · cases rest' with
      | nil =>
          have hmem : c ∈ r := by simp [show r = c :: rest from hrest.symm]
          rw [List.all_eq_true.1 hr c hmem] at hc
          cases hc
      | cons x rest' =>
          obtain rfl := (List.cons.inj hrest).1
          exact ⟨rest', rfl⟩
  cases hnext : nextBlock (cs ++ r) with
  | nothing => rfl
  | stray bracket =>
      obtain ⟨l, rest, hl, hcs, hbracket⟩ := nextBlock_eq_stray_iff.1 hnext
      have hblank : isBlank bracket = false := by
        rcases hbracket with rfl | rfl <;> rfl
      obtain ⟨rest', hcs⟩ := hpeel hblank hcs
      rw [nextBlock_eq_stray_iff.2 ⟨l, rest', hl, hcs, hbracket⟩] at h
      cases h
  | block s d rest =>
      obtain ⟨l, hl, hcs, hblock⟩ := nextBlock_eq_block_iff.1 hnext
      have hassoc : cs ++ r = (l ++ (s ++ '\x7b' :: d)) ++ '\x7d' :: rest := by simpa using hcs
      obtain ⟨rest', hcs⟩ := hpeel rfl hassoc
      rw [nextBlock_eq_block_iff.2 ⟨l, hl, by simpa using hcs, hblock⟩] at h
      cases h

theorem parseBlocks_of_stray {cs : List Char} {bracket : Char} (h : nextBlock cs = .stray bracket) :
    parseBlocks cs = .error (.bracketBeforeSelector bracket) := by
  rw [parseBlocks]
  split <;> simp_all

theorem parseBlocks_of_nothing {cs : List Char} (h : nextBlock cs = .nothing) :
    parseBlocks cs = .ok [] := by
  rw [parseBlocks]
  split <;> simp_all

/-- **What a text leaves over is read with the text behind it,** and nothing else is. -/
theorem parseBlocks_append (cs more : List Char) :
    parseBlocks (cs ++ more) = (do
      let rules ← parseBlocks cs
      return rules ++ (← parseBlocks (leftOver cs ++ more))) := by
  induction hlength : cs.length using Nat.strongRecOn generalizing cs with
  | _ length ih =>
      cases hnext : nextBlock cs with
      | nothing =>
          rw [parseBlocks_of_nothing hnext, leftOver_eq_self (by simp [hnext])]
          cases parseBlocks (cs ++ more) <;> rfl
      | stray bracket =>
          obtain ⟨l, rest, hl, rfl, hbracket⟩ := nextBlock_eq_stray_iff.1 hnext
          have hstray : nextBlock (l ++ bracket :: rest ++ more) = .stray bracket :=
            nextBlock_eq_stray_iff.2 ⟨l, rest ++ more, hl, by simp, hbracket⟩
          rw [parseBlocks_of_stray hnext, parseBlocks_of_stray hstray]
          rfl
      | block s d rest =>
          have hlt := length_of_nextBlock hnext
          rw [parseBlocks_of_block hnext, parseBlocks_of_block (nextBlock_append hnext more),
            leftOver_of_block hnext, ih rest.length (hlength ▸ hlt) rest rfl]
          cases parseBlock (String.ofList (trim s)) (String.ofList (trim d)) with
          | error fault => rfl
          | ok rule =>
              cases parseBlocks rest with
              | error fault => rfl
              | ok rules =>
                  cases parseBlocks (leftOver rest ++ more) with
                  | error fault => rfl
                  | ok later => rfl

theorem parseBlocks_blank_append {l : List Char} (hl : allBlank l = true) (cs : List Char) :
    parseBlocks (l ++ cs) = parseBlocks cs := by
  have hsame := nextBlock_blank_append hl cs
  cases hnext : nextBlock cs with
  | nothing => rw [parseBlocks_of_nothing hnext, parseBlocks_of_nothing (hsame.trans hnext)]
  | stray bracket => rw [parseBlocks_of_stray hnext, parseBlocks_of_stray (hsame.trans hnext)]
  | block s d rest => rw [parseBlocks_of_block hnext, parseBlocks_of_block (hsame.trans hnext)]

/-- What is left over of a text that can be read holds no block. -/
theorem nextBlock_leftOver {cs : List Char} {rules : List Rule} (h : parseBlocks cs = .ok rules) :
    nextBlock (leftOver cs) = .nothing := by
  induction hlength : cs.length using Nat.strongRecOn generalizing cs rules with
  | _ length ih =>
      cases hnext : nextBlock cs with
      | nothing => rwa [leftOver_eq_self (by simp [hnext])]
      | stray bracket =>
          rw [parseBlocks_of_stray hnext] at h
          cases h
      | block s d rest =>
          rw [parseBlocks_of_block hnext] at h
          obtain ⟨rule, -, h⟩ := bind_eq_ok_iff.1 h
          obtain ⟨more, hmore, -⟩ := bind_eq_ok_iff.1 h
          rw [leftOver_of_block hnext]
          exact ih rest.length (hlength ▸ length_of_nextBlock hnext) hmore rfl

/-! ### Sheets -/

/-- Sheets joined to one text, each with a newline behind it. -/
def joinSheets (sheets : List String) : String :=
  String.join (sheets.map (· ++ "\n"))

theorem joinSheets_cons (sheet : String) (sheets : List String) :
    joinSheets (sheet :: sheets) = sheet ++ "\n" ++ joinSheets sheets := by
  rw [joinSheets, List.map_cons, String.join_cons, joinSheets]

theorem joinSheets_append (sheets later : List String) :
    joinSheets (sheets ++ later) = joinSheets sheets ++ joinSheets later := by
  rw [joinSheets, List.map_append, String.join_append]
  rfl

theorem toList_append_newline (sheet text : String) :
    (sheet ++ "\n" ++ text).toList = sheet.toList ++ '\n' :: text.toList := by
  simp

/-- Behind the last block of the sheet there are only blanks. -/
def Ends (sheet : String) : Prop :=
  allBlank (leftOver (stripComments sheet.toList)) = true

instance (sheet : String) : Decidable (Ends sheet) :=
  inferInstanceAs (Decidable (_ = true))

/-- A sheet does not run over into a later one: if there is anything in that one at all, it
completes no block of the sheet and closes no comment. -/
def Apart (sheet later : String) : Prop :=
  allBlank later.toList = true ∨
    Ends sheet ∧ (ClosesComments sheet.toList ∨ afterClosing later.toList = none)

instance (sheet later : String) : Decidable (Apart sheet later) :=
  inferInstanceAs (Decidable (_ ∨ _ ∧ _))

theorem afterClosing_of_allBlank {cs : List Char} (h : allBlank cs = true) :
    afterClosing cs = none := by
  fun_induction afterClosing cs with
  | case1 => rfl
  | case2 => cases h
  | case3 c cs _ ih => exact ih (Bool.and_eq_true_iff.1 h).2

theorem stripComments_of_allBlank {cs : List Char} (h : allBlank cs = true) :
    stripComments cs = cs := by
  induction cs with
  | nil => rw [stripComments]
  | cons c cs ih =>
      obtain ⟨hc, hcs⟩ := Bool.and_eq_true_iff.1 h
      rw [stripComments_cons_of_ne (by rintro rfl; cases hc), ih hcs]

theorem allBlank_joinSheets {sheets : List String}
    (h : ∀ sheet ∈ sheets, allBlank sheet.toList = true) :
    allBlank (joinSheets sheets).toList = true := by
  induction sheets with
  | nil => rfl
  | cons sheet sheets ih =>
      rw [joinSheets_cons, toList_append_newline, allBlank, List.all_append, List.all_cons]
      exact Bool.and_eq_true_iff.2 ⟨h sheet (by simp),
        Bool.and_eq_true_iff.2 ⟨rfl, ih fun s hs => h s (List.mem_cons_of_mem sheet hs)⟩⟩

theorem afterClosing_joinSheets {sheets : List String}
    (h : ∀ sheet ∈ sheets, afterClosing sheet.toList = none) :
    afterClosing (joinSheets sheets).toList = none := by
  induction sheets with
  | nil => rfl
  | cons sheet sheets ih =>
      rw [joinSheets_cons, toList_append_newline]
      refine (afterClosing_append_cons_eq_none_iff (by decide)).2 ⟨h sheet (by simp), ?_⟩
      exact ih fun s hs => h s (List.mem_cons_of_mem sheet hs)

/-- There is no rule in a sheet of blanks. -/
theorem parseRules_of_allBlank {sheet : String} (h : allBlank sheet.toList = true) :
    parseRules sheet = .ok [] := by
  have hnothing : nextBlock ([] ++ sheet.toList) = .nothing := nextBlock_append_blank h rfl
  rw [parseRules, stripComments_of_allBlank h]
  exact parseBlocks_of_nothing hnothing

/-- A sheet of blanks does not run over into any other. -/
theorem Apart.of_allBlank {sheet : String} (h : allBlank sheet.toList = true) (later : String) :
    Apart sheet later := by
  have hnothing : nextBlock ([] ++ sheet.toList) = .nothing := nextBlock_append_blank h rfl
  refine Or.inr ⟨?_, Or.inl fun hopens => ?_⟩
  · rw [Ends, stripComments_of_allBlank h, leftOver_eq_self]
    · exact h
    · intro s d rest hblock
      cases hnothing.symm.trans hblock
  · rw [stripComments_of_allBlank h] at hopens
    cases List.all_eq_true.1 h '/' (hopens.subset (by simp))

/-- **What a sheet adds to the text behind it is what it leaves over.** -/
theorem parseRules_append {sheet text : String}
    (h : ClosesComments sheet.toList ∨ afterClosing text.toList = none) :
    parseRules (sheet ++ "\n" ++ text) = (do
      let rules ← parseRules sheet
      return rules ++ (← parseBlocks
        (leftOver (stripComments sheet.toList) ++ '\n' :: stripComments text.toList))) := by
  rw [parseRules, toList_append_newline, stripComments_append h, parseBlocks_append]
  rfl

/-- **What a sheet leaves over is read with the text behind it:** what stands behind its last block,
and the comment that it opens and does not close. -/
theorem parseRules_append_of_cut (sheet text : String) :
    parseRules (sheet ++ "\n" ++ text) = (do
      let rules ← parseBlocks (cutAtOpen sheet.toList).1
      return rules ++ (← parseBlocks (leftOver (cutAtOpen sheet.toList).1 ++
        stripComments ((cutAtOpen sheet.toList).2 ++ '\n' :: text.toList)))) := by
  rw [parseRules, toList_append_newline, stripComments_append_of_cut, parseBlocks_append]

/-- A sheet that leaves nothing over adds nothing to the text behind it. -/
theorem parseRules_append_of_ends {sheet text : String} (hends : Ends sheet)
    (h : ClosesComments sheet.toList ∨ afterClosing text.toList = none) :
    parseRules (sheet ++ "\n" ++ text) = (do
      let rules ← parseRules sheet
      return rules ++ (← parseRules text)) := by
  have hblank : allBlank (leftOver (stripComments sheet.toList) ++ ['\n']) = true := by
    rw [allBlank, List.all_append]
    exact Bool.and_eq_true_iff.2 ⟨hends, rfl⟩
  have hrest := parseBlocks_blank_append hblank (stripComments text.toList)
  rw [List.append_assoc, List.singleton_append] at hrest
  rw [parseRules_append h, hrest]
  rfl

/-- What a sheet leaves over is dropped if nothing comes behind it. -/
theorem parseRules_append_blank {sheet text : String} {rules : List Rule}
    (hblank : allBlank text.toList = true) (h : parseRules sheet = .ok rules) :
    parseRules (sheet ++ "\n" ++ text) = .ok rules := by
  have hnewline : allBlank ('\n' :: text.toList) = true := Bool.and_eq_true_iff.2 ⟨rfl, hblank⟩
  have hdropped := parseBlocks_of_nothing
    (nextBlock_append_blank hnewline (nextBlock_leftOver h))
  rw [parseRules_append (Or.inr (afterClosing_of_allBlank hblank)),
    stripComments_of_allBlank hblank, hdropped, h]
  exact congrArg Except.ok (List.append_nil rules)

/-- **Joined sheets hold the rules of each, one after the other,** if none runs over into a later
one. -/
theorem parseRules_joinSheets {sheets : List String} {blocks : List (List Rule)}
    (hread : sheets.mapM parseRules = .ok blocks) (hapart : sheets.Pairwise Apart) :
    parseRules (joinSheets sheets) = .ok blocks.flatten := by
  induction sheets generalizing blocks with
  | nil =>
      obtain rfl := Except.ok.inj hread
      exact parseRules_of_allBlank rfl
  | cons sheet sheets ih =>
      rw [List.mapM_cons] at hread
      obtain ⟨rules, hrules, hread⟩ := bind_eq_ok_iff.1 hread
      obtain ⟨more, hmore, hread⟩ := bind_eq_ok_iff.1 hread
      obtain rfl := Except.ok.inj hread
      obtain ⟨hlater, hapart⟩ := List.pairwise_cons.1 hapart
      have hrest := ih hmore hapart
      rw [joinSheets_cons]
      by_cases hblank : ∀ later ∈ sheets, allBlank later.toList = true
      · have hall := allBlank_joinSheets hblank
        rw [parseRules_of_allBlank hall] at hrest
        rw [parseRules_append_blank hall hrules, List.flatten_cons, ← Except.ok.inj hrest,
          List.append_nil]
      · -- there is a later sheet with something in it, so this one has to end
        obtain ⟨later, hmem, hblank⟩ : ∃ later ∈ sheets, allBlank later.toList ≠ true := by
          simpa using hblank
        have hends := ((hlater later hmem).resolve_left hblank).1
        have hcomments : ClosesComments sheet.toList ∨
            afterClosing (joinSheets sheets).toList = none := by
          by_cases hcloses : ClosesComments sheet.toList
          · exact Or.inl hcloses
          · refine Or.inr (afterClosing_joinSheets fun s hs => ?_)
            rcases hlater s hs with hs | ⟨-, hs⟩
            · exact afterClosing_of_allBlank hs
            · exact hs.resolve_left hcloses
        rw [parseRules_append_of_ends hends hcomments, hrules, hrest]
        rfl

end StyleInliner.Css
