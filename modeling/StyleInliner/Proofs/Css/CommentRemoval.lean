/-
What is left of a stylesheet when its comments are taken out.

`Remains` says it in the words of the notation: read from the left, a comment goes and
any other character stays.  Where a comment is ahead is told by the text alone
(`opensComment_iff`), so what remains of a text is one text and no other, and it is the
one that the scan gives (`remains_iff`).

Taking a comment out brings what stood around it together.  That this makes no comment
of it is because nothing that could open one is left in front of a comment: two slashes
would have opened a comment earlier, and what closes a comment closes every one that
was open in front of it.  That is `commentFree_stripComments`; here it is said of the
characters themselves (`commentFree_iff_uncommented`).
-/
import StyleInliner.Proofs.Css.Comment

namespace StyleInliner.Css

open StyleInliner.Text

/-! ### Comments -/

/-- Two slashes and what follows them, up to a newline or to the end of the text. -/
def IsLineComment (comment rest : List Char) : Prop :=
  ∃ body, comment = '/' :: '/' :: body ∧ '\n' ∉ body ∧ ∀ c ∈ rest.head?, c = '\n'

/-- A slash and a star, through the first closing pair behind them. -/
def IsBlockComment (comment : List Char) : Prop :=
  ∃ body, comment = '/' :: '*' :: (body ++ ['*', '/']) ∧ ¬ ['*', '/'] <:+: body

/-- A text that goes on with `rest` behind `comment` begins with the comment `comment`. -/
def CommentAhead (comment rest : List Char) : Prop :=
  IsLineComment comment rest ∨ IsBlockComment comment

/-- `Remains cs out`: reading `cs` from the left, `out` is left when each comment is taken out. -/
inductive Remains : List Char → List Char → Prop
  | nil : Remains [] []
  | removed {comment rest out : List Char} (h : CommentAhead comment rest)
      (hrest : Remains rest out) : Remains (comment ++ rest) out
  | kept {c : Char} {rest out : List Char}
      (h : ∀ comment behind, CommentAhead comment behind → comment ++ behind ≠ c :: rest)
      (hrest : Remains rest out) : Remains (c :: rest) (c :: out)

/-- No two slashes stand in the text, and no slash and star with a closing pair behind them. -/
structure Uncommented (cs : List Char) : Prop where
  no_line : ¬ ['/', '/'] <:+: cs
  no_block : ∀ before body after, cs ≠ before ++ '/' :: '*' :: body ++ '*' :: '/' :: after

/-! ### Where a comment is ahead -/

/-- A comment is closed by the first closing pair. -/
theorem afterClosing_eq_some_iff {cs rest : List Char} :
    afterClosing cs = some rest ↔
      ∃ body, cs = body ++ '*' :: '/' :: rest ∧ ¬ ['*', '/'] <:+: body := by
  fun_induction afterClosing cs with
  | case1 => simp
  | case2 after =>
      constructor
      · rintro ⟨⟩
        exact ⟨[], rfl, by simp⟩
      · rintro ⟨body, hcs, hfirst⟩
        cases body with
        | nil => cases hcs; rfl
        | cons d body =>
            -- the slash of the pair is the star of the later one, or in the body
            cases body with
            | nil => cases hcs
            | cons d' body =>
                cases hcs
                exact absurd ⟨[], body, rfl⟩ hfirst
  | case3 c cs hpair ih =>
      rw [ih]
      constructor
      · rintro ⟨body, rfl, hfirst⟩
        refine ⟨c :: body, rfl, ?_⟩
        rw [List.infix_cons_iff, not_or]
        refine ⟨?_, hfirst⟩
        rintro ⟨more, hmore⟩
        cases hmore
        exact hpair _ rfl rfl
      · rintro ⟨body, hcs, hfirst⟩
        cases body with
        | nil => cases hcs; exact absurd rfl (hpair _ rfl)
        | cons d body =>
            cases hcs
            exact ⟨body, rfl, fun h => hfirst (h.trans (List.suffix_cons _ _).isInfix)⟩

theorem opensComment_iff {cs : List Char} :
    opensComment cs = true ↔ ∃ comment rest, CommentAhead comment rest ∧ comment ++ rest = cs := by
  constructor
  · intro h
    unfold opensComment at h
    split at h
    · rename_i rest
      refine ⟨'/' :: '/' :: rest.takeWhile (· != '\n'), rest.dropWhile (· != '\n'), Or.inl ?_, ?_⟩
      · refine ⟨_, rfl, fun hm => ?_, fun c hc => ?_⟩
        · simpa using List.all_eq_true.1 List.all_takeWhile '\n' hm
        · have hne : rest.dropWhile (· != '\n') ≠ [] := by
            rintro he
            simp [he] at hc
          have hhead := List.head_dropWhile_not (· != '\n') hne
          rw [List.head?_eq_some_head hne, Option.mem_some_iff] at hc
          simpa [hc] using hhead
      · simp
    · rename_i rest
      obtain ⟨after, hafter⟩ := Option.isSome_iff_exists.1 h
      obtain ⟨body, rfl, hfirst⟩ := afterClosing_eq_some_iff.1 hafter
      exact ⟨_, after, Or.inr ⟨body, rfl, hfirst⟩, by simp⟩
    · cases h
  · rintro ⟨comment, rest, ⟨body, rfl, -, -⟩ | ⟨body, rfl, hfirst⟩, rfl⟩
    · rfl
    · simp [opensComment, afterClosing_eq_some_iff.2 ⟨body, rfl, hfirst⟩]

theorem opensComment_eq_false_iff {cs : List Char} :
    opensComment cs = false ↔
      ∀ comment rest, CommentAhead comment rest → comment ++ rest ≠ cs := by
  rw [← Bool.not_eq_true, opensComment_iff]
  simp

theorem CommentAhead.length_pos {comment rest : List Char} (h : CommentAhead comment rest) :
    0 < comment.length := by
  rcases h with ⟨body, rfl, -, -⟩ | ⟨body, rfl, -⟩ <;> simp

/-! ### What remains -/

theorem stripComments_append_of_ahead {comment rest : List Char} (h : CommentAhead comment rest) :
    stripComments (comment ++ rest) = stripComments rest := by
  rcases h with ⟨body, rfl, hbody, hend⟩ | ⟨body, rfl, hfirst⟩
  · have hdrop : (body ++ rest).dropWhile (· != '\n') = rest := by
      have hplain : ∀ c ∈ body, (c != '\n') = true := by
        intro c hc
        rw [bne_iff_ne]
        rintro rfl
        exact hbody hc
      rw [List.dropWhile_append_of_pos hplain]
      cases rest with
      | nil => rfl
      | cons c rest => simp [hend c (by simp)]
    rw [List.cons_append, List.cons_append, stripComments.eq_2, hdrop]
  · have hafter : afterClosing (body ++ '*' :: '/' :: rest) = some rest :=
      afterClosing_eq_some_iff.2 ⟨body, rfl, hfirst⟩
    have hcs : '/' :: '*' :: (body ++ ['*', '/']) ++ rest =
        '/' :: '*' :: (body ++ '*' :: '/' :: rest) := by
      simp
    rw [hcs, stripComments.eq_3]
    split
    · rename_i after hsome
      rw [hafter] at hsome
      rw [Option.some.inj hsome]
    · rename_i hnone
      rw [hafter] at hnone
      cases hnone

theorem stripComments_cons_of_not_opens {c : Char} {cs : List Char}
    (h : opensComment (c :: cs) = false) : stripComments (c :: cs) = c :: stripComments cs := by
  by_cases hblock : c = '/' ∧ ∃ rest, cs = '*' :: rest
  · obtain ⟨rfl, rest, rfl⟩ := hblock
    have hafter : afterClosing rest = none := by simpa [opensComment] using h
    rw [stripComments_cons_of_ne (c := '*') (by decide), stripComments.eq_3]
    split
    · rename_i after hsome
      rw [hafter] at hsome
      cases hsome
    · rfl
  · rw [stripComments.eq_4]
    · rintro rest rfl rfl
      cases h
    · exact fun rest hc hcs => hblock ⟨hc, rest, hcs⟩

/-- **What remains is told by the text, and it is what the scan gives.** -/
theorem remains_iff {cs out : List Char} : Remains cs out ↔ out = stripComments cs := by
  constructor
  · intro h
    induction h with
    | nil => simp [stripComments]
    | removed h _ ih => rw [ih, stripComments_append_of_ahead h]
    | kept h _ ih =>
        rw [ih, stripComments_cons_of_not_opens (opensComment_eq_false_iff.2 h)]
  · rintro rfl
    induction hlength : cs.length using Nat.strongRecOn generalizing cs with
    | _ length ih =>
        cases hopens : opensComment cs with
        | true =>
            obtain ⟨comment, rest, hahead, rfl⟩ := opensComment_iff.1 hopens
            rw [stripComments_append_of_ahead hahead]
            refine .removed hahead (ih rest.length ?_ rfl)
            have hpos := hahead.length_pos
            rw [List.length_append] at hlength
            omega
        | false =>
            cases cs with
            | nil => simpa [stripComments] using Remains.nil
            | cons c rest =>
                rw [stripComments_cons_of_not_opens hopens]
                refine .kept (opensComment_eq_false_iff.1 hopens) (ih rest.length ?_ rfl)
                rw [List.length_cons] at hlength
                omega

/-! ### Texts without comments -/

theorem commentFree_iff_uncommented {cs : List Char} : CommentFree cs ↔ Uncommented cs := by
  constructor
  · refine fun h => ⟨h.line_notMem, ?_⟩
    rintro before body after rfl
    have hopens := h ('/' :: '*' :: (body ++ '*' :: '/' :: after)) ⟨before, by simp⟩
    have hclosed : afterClosing (body ++ '*' :: '/' :: after) = none := by
      simpa [opensComment] using hopens
    exact afterClosing_eq_none_iff.1 hclosed ⟨body, after, by simp⟩
  · rintro h t ⟨before, rfl⟩
    rw [opensComment_eq_false_iff]
    rintro comment rest (⟨body, rfl, -, -⟩ | ⟨body, rfl, -⟩) rfl
    · exact h.no_line ⟨before, body ++ rest, by simp⟩
    · exact h.no_block before body rest (by simp)

/-- **Comments are taken out of a text, and nothing else.**  What is left is what remains when the
text is read from the left and each comment that comes is skipped; it has no comment in it, so
taking comments out once more changes nothing.  The texts that are left alone are those without
comments. -/
theorem withoutComments_remains (source : String) :
    (∀ out, Remains source.toList out ↔ out = (withoutComments source).toList) ∧
      Uncommented (withoutComments source).toList ∧
      withoutComments (withoutComments source) = withoutComments source ∧
      (withoutComments source = source ↔ Uncommented source.toList) := by
  have hstrip : (withoutComments source).toList = stripComments source.toList :=
    String.toList_ofList
  have hfree : CommentFree (withoutComments source).toList := by
    rw [hstrip]
    exact commentFree_stripComments _
  have hkept : ∀ text : String, CommentFree text.toList → withoutComments text = text := by
    intro text htext
    rw [withoutComments, stripComments_of_commentFree htext, String.ofList_toList]
  refine ⟨fun out => ?_, commentFree_iff_uncommented.1 hfree, hkept _ hfree, ?_⟩
  · rw [remains_iff, hstrip]
  · rw [← commentFree_iff_uncommented]
    constructor
    · intro hsame
      rwa [hsame] at hfree
    · exact hkept source

/-- A closing pair has to start behind the opening one, and a line comment may hold either. -/
example : withoutComments "a/*/b/**/c//d/*\n*/e/*" = "ac\n*/e/*" := by decide +kernel

end StyleInliner.Css
