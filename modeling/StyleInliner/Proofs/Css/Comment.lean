/-
What taking comments out leaves, and what keeps it free of comments.

A text is free of comments when none opens anywhere in it.  Such a text is left
alone (`stripComments_of_commentFree`), and what comments were taken out of is
such a text (`commentFree_stripComments`): a comment that is gone leaves a newline
or a character that opens none in front of what comes next.  Texts behind one another
that end in neutral characters hold the comments of each, and those that one opens and
a later one closes (`commentFree_flatten_iff`).

Reading and writing a stylesheet keeps the order of its characters but not the
gaps between them.  `Excerpt` is that relation: characters of a text in their
order, where something else stands wherever any were left out.  Two characters
that are neighbours in an excerpt and could open or close a comment were
neighbours before, so an excerpt of a text free of comments is free of them too
(`Excerpt.commentFree`), although every block comment spans an unbounded part of
the text.
-/
import Mathlib.Data.List.Basic
import StyleInliner.Css.Comment
import StyleInliner.Proofs.Text

namespace StyleInliner.Css

open StyleInliner.Text

/-- Whether a text begins with a comment. -/
def opensComment : List Char → Bool
  | '/' :: '/' :: _ => true
  | '/' :: '*' :: rest => (afterClosing rest).isSome
  | _ => false

/-- No comment opens anywhere in the text. -/
def CommentFree (cs : List Char) : Prop :=
  ∀ t, t <:+ cs → opensComment t = false

/-- Whether a character neither opens nor closes a comment, nor takes part in it. -/
def Neutral (c : Char) : Prop :=
  c ≠ '/' ∧ c ≠ '*'

instance (c : Char) : Decidable (Neutral c) :=
  inferInstanceAs (Decidable (_ ∧ _))

theorem not_neutral_iff {c : Char} : ¬ Neutral c ↔ c = '/' ∨ c = '*' := by
  unfold Neutral
  tauto

theorem commentFree_nil : CommentFree [] := by
  intro t ht
  rw [List.suffix_nil.1 ht]
  rfl

theorem commentFree_cons_iff {c : Char} {cs : List Char} :
    CommentFree (c :: cs) ↔ opensComment (c :: cs) = false ∧ CommentFree cs := by
  constructor
  · intro h
    exact ⟨h _ (List.suffix_refl _), fun t ht => h t (ht.trans (List.suffix_cons c cs))⟩
  · rintro ⟨hhead, htail⟩ t ht
    rcases List.suffix_cons_iff.1 ht with rfl | ht
    · exact hhead
    · exact htail t ht

theorem opensComment_of_ne {c : Char} {cs : List Char} (hc : c ≠ '/') :
    opensComment (c :: cs) = false := by
  unfold opensComment
  split <;> simp_all

theorem opensComment_of_head_ne {c d : Char} {cs : List Char} (hd : d ≠ '/' ∧ d ≠ '*') :
    opensComment (c :: d :: cs) = false := by
  unfold opensComment
  split <;> simp_all

/-! ### Closing a comment -/

/-- Nothing closes a comment in a text when nothing does so behind its first character, and that
one is no star in front of a slash. -/
theorem afterClosing_cons_eq_none_iff {c : Char} {cs : List Char} :
    afterClosing (c :: cs) = none ↔
      afterClosing cs = none ∧ (c = '*' → ∀ rest, cs ≠ '/' :: rest) := by
  by_cases hpair : c = '*' ∧ ∃ rest, cs = '/' :: rest
  · obtain ⟨rfl, rest, rfl⟩ := hpair
    simp [afterClosing]
  · have hne : ∀ rest, c = '*' → cs = '/' :: rest → False := fun rest hc hcs =>
      hpair ⟨hc, rest, hcs⟩
    rw [afterClosing.eq_3 _ _ hne]
    exact ⟨fun h => ⟨h, fun hc rest hcs => hne rest hc hcs⟩, And.left⟩

theorem afterClosing_eq_none_of_suffix {cs t : List Char} (h : afterClosing cs = none)
    (ht : t <:+ cs) : afterClosing t = none := by
  induction cs with
  | nil => rwa [List.suffix_nil.1 ht]
  | cons c cs ih =>
      rcases List.suffix_cons_iff.1 ht with rfl | ht
      · exact h
      · exact ih (afterClosing_cons_eq_none_iff.1 h).1 ht

theorem suffix_of_afterClosing {cs rest : List Char} (h : afterClosing cs = some rest) :
    rest <:+ cs := by
  fun_induction afterClosing cs with
  | case1 => cases h
  | case2 =>
      cases h
      exact (List.suffix_cons _ _).trans (List.suffix_cons _ _)
  | case3 c cs _ ih => exact (ih h).trans (List.suffix_cons c cs)

theorem afterClosing_append {cs rest : List Char} (h : afterClosing cs = some rest)
    (more : List Char) : afterClosing (cs ++ more) = some (rest ++ more) := by
  fun_induction afterClosing cs with
  | case1 => cases h
  | case2 =>
      cases h
      rfl
  | case3 c cs hne ih =>
      cases cs with
      | nil => cases h
      | cons d cs =>
          rw [List.cons_append, afterClosing.eq_3]
          · exact ih h
          · rintro rest rfl heq
            exact hne cs rfl (by rw [(List.cons.inj heq).1])

/-! ### Taking comments out -/

/-- A text free of comments is left alone. -/
theorem stripComments_of_commentFree {cs : List Char} (h : CommentFree cs) :
    stripComments cs = cs := by
  fun_induction stripComments cs with
  | case1 => rfl
  | case2 rest ih => simpa [opensComment] using h _ (List.suffix_refl _)
  | case3 rest after hafter ih =>
      have hopens := h _ (List.suffix_refl _)
      simp [opensComment, hafter] at hopens
  | case4 rest hafter ih =>
      rw [ih (commentFree_cons_iff.1 (commentFree_cons_iff.1 h).2).2]
  | case5 c rest _ _ ih => rw [ih (commentFree_cons_iff.1 h).2]

theorem stripComments_cons_of_ne {c : Char} {cs : List Char} (hc : c ≠ '/') :
    stripComments (c :: cs) = c :: stripComments cs := by
  rw [stripComments.eq_4] <;> simp [hc]

/-- Taking comments out brings no slash to the front. -/
theorem stripComments_ne_slash {cs : List Char} (h : ∀ rest, cs ≠ '/' :: rest) (rest : List Char) :
    stripComments cs ≠ '/' :: rest := by
  cases cs with
  | nil => simp [stripComments]
  | cons c cs =>
      have hc : c ≠ '/' := fun he => h cs (by rw [he])
      rw [stripComments_cons_of_ne hc]
      exact fun he => hc (List.cons.inj he).1

/-- Taking comments out does not close one that was open. -/
theorem afterClosing_stripComments {cs : List Char} (h : afterClosing cs = none) :
    afterClosing (stripComments cs) = none := by
  fun_induction stripComments cs with
  | case1 => rfl
  | case2 rest ih =>
      refine ih (afterClosing_eq_none_of_suffix h ?_)
      exact (List.dropWhile_suffix _).trans ((List.suffix_cons _ _).trans (List.suffix_cons _ _))
  | case3 rest after hafter ih =>
      refine ih (afterClosing_eq_none_of_suffix h ?_)
      exact (suffix_of_afterClosing hafter).trans
        ((List.suffix_cons _ _).trans (List.suffix_cons _ _))
  | case4 rest hafter ih =>
      have hstar := (afterClosing_cons_eq_none_iff.1 h).1
      have hslash := (afterClosing_cons_eq_none_iff.1 hstar).2 rfl
      rw [afterClosing_cons_eq_none_iff, afterClosing_cons_eq_none_iff]
      exact ⟨⟨ih hafter, fun _ => stripComments_ne_slash hslash⟩, by simp⟩
  | case5 c rest _ _ ih =>
      obtain ⟨hrest, hslash⟩ := afterClosing_cons_eq_none_iff.1 h
      rw [afterClosing_cons_eq_none_iff]
      exact ⟨ih hrest, fun hc => stripComments_ne_slash (hslash hc)⟩

/-- **What comments were taken out of is free of them.** -/
theorem commentFree_stripComments (cs : List Char) : CommentFree (stripComments cs) := by
  fun_induction stripComments cs with
  | case1 => exact commentFree_nil
  | case2 rest ih => exact ih
  | case3 rest after hafter ih => exact ih
  | case4 rest hafter ih =>
      refine commentFree_cons_iff.2 ⟨?_, commentFree_cons_iff.2 ⟨opensComment_of_ne (by simp), ih⟩⟩
      simp [opensComment, afterClosing_stripComments hafter]
  | case5 c rest hline hblock ih =>
      refine commentFree_cons_iff.2 ⟨?_, ih⟩
      by_cases hc : c = '/'
      · subst hc
        cases rest with
        | nil => simp [stripComments, opensComment]
        | cons d rest =>
            have hslash : d ≠ '/' := fun he => hline rest rfl (by rw [he])
            have hstar : d ≠ '*' := fun he => hblock rest rfl (by rw [he])
            rw [stripComments_cons_of_ne hslash]
            exact opensComment_of_head_ne ⟨hslash, hstar⟩
      · exact opensComment_of_ne hc

/-! ### Texts behind one another -/

theorem opensComment_append {cs : List Char} (h : opensComment cs = true) (more : List Char) :
    opensComment (cs ++ more) = true := by
  unfold opensComment at h
  split at h
  · rfl
  · rename_i rest
    obtain ⟨after, hafter⟩ := Option.isSome_iff_exists.1 h
    simp [opensComment, afterClosing_append hafter]
  · cases h

/-- A part of a text free of comments is free of them. -/
theorem CommentFree.of_infix {t cs : List Char} (h : CommentFree cs) (ht : t <:+: cs) :
    CommentFree t := by
  intro s hs
  obtain ⟨l, r, rfl⟩ := ht
  by_contra hopens
  have hmore := opensComment_append (by simpa using hopens) r
  rw [h (s ++ r) ?_] at hmore
  · cases hmore
  · rw [List.append_assoc]
    exact ((List.suffix_append_inj_of_length_eq rfl).2 ⟨hs, rfl⟩).trans (List.suffix_append _ _)

/-- A pair of characters does not go across a third one. -/
theorem pair_infix_append_cons_iff {x y g : Char} (hx : g ≠ x) (hy : g ≠ y) {a b : List Char} :
    [x, y] <:+: a ++ g :: b ↔ [x, y] <:+: a ∨ [x, y] <:+: b := by
  induction a with
  | nil => simp [List.infix_cons_iff, List.cons_prefix_cons, hx.symm]
  | cons c a ih =>
      have hprefix : [x, y] <+: c :: (a ++ g :: b) ↔ [x, y] <+: c :: a := by
        cases a with
        | nil => simp [List.cons_prefix_cons, hy.symm]
        | cons d a => simp [List.cons_prefix_cons]
      rw [List.cons_append, List.infix_cons_iff, List.infix_cons_iff, ih, hprefix, or_assoc]

theorem afterClosing_eq_none_iff {cs : List Char} :
    afterClosing cs = none ↔ ¬ ['*', '/'] <:+: cs := by
  induction cs with
  | nil => simp [afterClosing]
  | cons c cs ih =>
      have hprefix : ['*', '/'] <+: c :: cs ↔ c = '*' ∧ ∃ rest, cs = '/' :: rest := by
        cases cs with
        | nil => simp
        | cons d cs => simp [List.cons_prefix_cons, eq_comm]
      rw [afterClosing_cons_eq_none_iff, List.infix_cons_iff, ih, hprefix]
      simp only [not_or, not_and, not_exists]
      tauto

theorem CommentFree.line_notMem {cs : List Char} (h : CommentFree cs) : ¬ ['/', '/'] <:+: cs := by
  rintro ⟨l, r, rfl⟩
  have hopens := h ('/' :: '/' :: r) ⟨l, by simp⟩
  cases hopens

/-- A pair that closes a comment does not go across a neutral character. -/
theorem afterClosing_append_cons_eq_none_iff {g : Char} (hg : Neutral g) {a b : List Char} :
    afterClosing (a ++ g :: b) = none ↔ afterClosing a = none ∧ afterClosing b = none := by
  rw [afterClosing_eq_none_iff, afterClosing_eq_none_iff, afterClosing_eq_none_iff,
    pair_infix_append_cons_iff hg.2 hg.1, not_or]

theorem commentFree_of_neutral {cs : List Char} (h : ∀ c ∈ cs, Neutral c) : CommentFree cs := by
  induction cs with
  | nil => exact commentFree_nil
  | cons c cs ih =>
      obtain ⟨hc, hcs⟩ := List.forall_mem_cons.1 h
      exact commentFree_cons_iff.2 ⟨opensComment_of_ne hc.1, ih hcs⟩

/-- A comment that opens in front of a neutral character is closed there or behind it. -/
theorem opensComment_append_cons {g : Char} (hg : Neutral g) {a b : List Char} :
    opensComment (a ++ g :: b) = false ↔
      opensComment a = false ∧ (['/', '*'] <+: a → afterClosing b = none) := by
  cases a with
  | nil => simp [opensComment_of_ne hg.1, show opensComment [] = false from rfl]
  | cons c a =>
      by_cases hc : c = '/'
      · subst hc
        cases a with
        | nil => simp [opensComment_of_head_ne hg, show opensComment ['/'] = false from rfl]
        | cons d a =>
            by_cases hd : Neutral d
            · have hstar : d ≠ '*' := hd.2
              simp [opensComment_of_head_ne hd, List.cons_prefix_cons, hstar.symm]
            · rcases not_neutral_iff.1 hd with rfl | rfl
              · simp [opensComment]
              · simp [opensComment, afterClosing_append_cons_eq_none_iff hg]
      · have hslash : ¬ ['/', '*'] <+: c :: a := by
          rw [List.cons_prefix_cons]
          exact fun h => hc h.1.symm
        simp [opensComment_of_ne hc, hslash]

/-- **A comment in two texts with a neutral character between them** is a comment in one of them,
or opens in the first and closes in the second. -/
theorem commentFree_append_cons_iff {g : Char} (hg : Neutral g) {a b : List Char} :
    CommentFree (a ++ g :: b) ↔
      CommentFree a ∧ CommentFree b ∧ (['/', '*'] <:+: a → afterClosing b = none) := by
  induction a with
  | nil =>
      rw [List.nil_append, commentFree_cons_iff]
      simp [opensComment_of_ne hg.1, commentFree_nil]
  | cons c a ih =>
      rw [List.cons_append, commentFree_cons_iff, commentFree_cons_iff, ih, ← List.cons_append,
        opensComment_append_cons hg, List.infix_cons_iff]
      tauto

/-- The text ends in a neutral character, if it does not end at once. -/
def EndsNeutral (cs : List Char) : Prop :=
  ∀ c ∈ cs.getLast?, Neutral c

theorem endsNeutral_of_neutral {cs : List Char} (h : ∀ c ∈ cs, Neutral c) : EndsNeutral cs :=
  fun c hc => h c (List.mem_of_getLast? hc)

theorem endsNeutral_concat {g : Char} (hg : Neutral g) (cs : List Char) :
    EndsNeutral (cs ++ [g]) := by
  intro c hc
  obtain rfl : g = c := by simpa using hc
  exact hg

theorem endsNeutral_cases {cs : List Char} (h : EndsNeutral cs) :
    cs = [] ∨ ∃ a g, Neutral g ∧ cs = a ++ [g] := by
  rcases List.eq_nil_or_concat cs with rfl | ⟨a, g, rfl⟩
  · exact Or.inl rfl
  · exact Or.inr ⟨a, g, h g (by simp), List.concat_eq_append⟩

section Flatten

variable {texts : List (List Char)} (htexts : ∀ t ∈ texts, EndsNeutral t)
include htexts

theorem pair_infix_flatten_iff {x y : Char} (hx : ¬ Neutral x) (hy : ¬ Neutral y) :
    [x, y] <:+: texts.flatten ↔ ∃ t ∈ texts, [x, y] <:+: t := by
  induction texts with
  | nil => simp
  | cons t texts ih =>
      have hrest := ih fun u hu => htexts u (by simp [hu])
      rcases endsNeutral_cases (htexts t (by simp)) with rfl | ⟨a, g, hg, rfl⟩
      · simp [hrest]
      · have hgx : g ≠ x := fun h => hx (h ▸ hg)
        have hgy : g ≠ y := fun h => hy (h ▸ hg)
        rw [List.flatten_cons, List.append_assoc, List.singleton_append,
          pair_infix_append_cons_iff hgx hgy, hrest]
        simp [pair_infix_append_cons_iff hgx hgy]

/-- **Comments of texts behind one another:** those of one text, and those that open in one and
close in a later one. -/
theorem commentFree_flatten_iff :
    CommentFree texts.flatten ↔ (∀ t ∈ texts, CommentFree t) ∧
      texts.Pairwise fun a b => ['/', '*'] <:+: a → ¬ ['*', '/'] <:+: b := by
  induction texts with
  | nil => exact ⟨fun _ => ⟨by simp, .nil⟩, fun _ => commentFree_nil⟩
  | cons t texts ih =>
      have hmore : ∀ u ∈ texts, EndsNeutral u := fun u hu => htexts u (by simp [hu])
      have hcloses : afterClosing texts.flatten = none ↔ ∀ u ∈ texts, ¬ ['*', '/'] <:+: u := by
        rw [afterClosing_eq_none_iff, pair_infix_flatten_iff hmore (by decide) (by decide)]
        simp
      rw [List.flatten_cons, List.forall_mem_cons, List.pairwise_cons]
      rcases endsNeutral_cases (htexts t (by simp)) with rfl | ⟨a, g, hg, rfl⟩
      · simp [ih hmore, commentFree_nil]
      · have hopens : ['/', '*'] <:+: a ++ [g] ↔ ['/', '*'] <:+: a := by
          rw [pair_infix_append_cons_iff hg.1 hg.2]
          simp
        have hfree : CommentFree (a ++ [g]) ↔ CommentFree a := by
          rw [commentFree_append_cons_iff hg]
          simp [commentFree_nil, afterClosing]
        rw [List.append_assoc, List.singleton_append, commentFree_append_cons_iff hg, ih hmore,
          hcloses, hopens, hfree]
        tauto

end Flatten

/-! ### Counting slashes -/

/-- Where comments are taken out, slashes are. -/
theorem count_stripComments (cs : List Char) :
    stripComments cs = cs ∨ (stripComments cs).count '/' < cs.count '/' := by
  have hle : ∀ {t out : List Char}, out = t ∨ out.count '/' < t.count '/' →
      out.count '/' ≤ t.count '/' := by
    rintro t out (rfl | hlt)
    · exact Nat.le_refl _
    · exact Nat.le_of_lt hlt
  fun_induction stripComments cs with
  | case1 => exact Or.inl rfl
  | case2 rest ih =>
      have hrest := (List.dropWhile_suffix (· != '\n') (l := rest)).sublist.count_le '/'
      have hstrip := hle ih
      simp only [List.count_cons_self]
      omega
  | case3 rest after hafter ih =>
      have hrest := (suffix_of_afterClosing hafter).sublist.count_le '/'
      have hstrip := hle ih
      have hstar : ('*' :: rest).count '/' = rest.count '/' := List.count_cons_of_ne (by decide)
      simp only [List.count_cons_self, hstar]
      omega
  | case4 rest hafter ih =>
      rcases ih with ih | ih
      · exact Or.inl (by rw [ih])
      · have hstar : ∀ t : List Char, ('*' :: t).count '/' = t.count '/' := fun t =>
          List.count_cons_of_ne (by decide)
        right
        simp only [List.count_cons_self, hstar]
        omega
  | case5 c rest _ _ ih =>
      rcases ih with ih | ih
      · exact Or.inl (by rw [ih])
      · right
        simp only [List.count_cons]
        omega

/-! ### Excerpts -/

/-- Neutral characters, at least one of them. -/
def Marks (w : List Char) : Prop :=
  w ≠ [] ∧ ∀ c ∈ w, Neutral c

instance (w : List Char) : Decidable (Marks w) :=
  @instDecidableAnd _ _ inferInstance (List.decidableBAll Neutral w)

theorem Marks.append {w w' : List Char} (h : Marks w) (h' : ∀ c ∈ w', Neutral c) :
    Marks (w ++ w') := by
  refine ⟨by simp [h.1], ?_⟩
  intro c hc
  rcases List.mem_append.1 hc with hc | hc
  · exact h.2 c hc
  · exact h' c hc

/-- `Excerpt joined src out`: `out` holds characters of `src` in their order, some of them
lower-cased, and something neutral wherever characters in between are left out.  `joined` tells
whether a character of `src` may come right at the start of `out`. -/
inductive Excerpt : Bool → List Char → List Char → Prop
  /-- Whatever is left of the text may be left out. -/
  | stop {joined : Bool} {src : List Char} : Excerpt joined src []
  /-- Behind a character that is left out, something neutral has to come first. -/
  | skip {joined : Bool} {c : Char} {src out : List Char} (h : Excerpt false src out) :
      Excerpt joined (c :: src) out
  | keep {c k : Char} {src out : List Char} (hk : k = c ∨ k = c.toLower)
      (h : Excerpt true src out) : Excerpt true (c :: src) (k :: out)
  | mark {joined : Bool} {g : Char} {src out : List Char} (hg : Neutral g)
      (h : Excerpt true src out) : Excerpt joined src (g :: out)

namespace Excerpt

theorem eq_of_kept {c k : Char} (hk : k = c ∨ k = c.toLower) (h : NoLetter k) : c = k := by
  rcases hk with hk | hk
  · exact hk.symm
  · exact (toLower_eq_iff h).1 hk.symm

variable {joined : Bool} {src src' out out' : List Char} {c : Char}

theorem weaken (h : Excerpt false src out) : Excerpt joined src out := by
  cases h with
  | stop => exact stop
  | skip h => exact skip h
  | mark hg h => exact mark hg h

theorem skip_append (l : List Char) (h : Excerpt false src out) :
    Excerpt joined (l ++ src) out := by
  induction l generalizing joined with
  | nil => exact h.weaken
  | cons c l ih => exact skip ih

/-- Excerpts of two texts make one of both, if the second may come behind a gap. -/
theorem append (h : Excerpt joined src out) (h' : Excerpt false src' out') :
    Excerpt joined (src ++ src') (out ++ out') := by
  induction h with
  | stop => exact skip_append _ h'
  | skip _ ih => exact skip ih
  | keep hk _ ih => exact keep hk ih
  | mark hg _ ih => exact mark hg ih

theorem keep_map {k : Char → Char} (hk : ∀ c, k c = c ∨ k c = c.toLower) (w : List Char)
    (h : Excerpt true src out) : Excerpt true (w ++ src) (w.map k ++ out) := by
  induction w with
  | nil => exact h
  | cons c w ih => exact keep (hk c) ih

theorem mark_append {w : List Char} (hw : Marks w) (h : Excerpt true src out) :
    Excerpt joined src (w ++ out) := by
  have hall : ∀ {w : List Char}, (∀ c ∈ w, Neutral c) → Excerpt true src (w ++ out) := by
    intro w hw
    induction w with
    | nil => exact h
    | cons c w ih => exact mark (hw c (by simp)) (ih fun d hd => hw d (by simp [hd]))
  obtain ⟨hne, hneutral⟩ := hw
  obtain ⟨c, w, rfl⟩ := List.exists_cons_of_ne_nil hne
  exact mark (hneutral c (by simp)) (hall fun d hd => hneutral d (by simp [hd]))

/-- What is trimmed off is left out. -/
theorem of_trim {cs : List Char} (h : Excerpt false (trim cs) out) : Excerpt false cs out := by
  obtain ⟨l, r, -, -, hcs⟩ := exists_eq_trim cs
  have hrest : Excerpt false (trim cs ++ r) (out ++ []) := h.append stop
  have hpad : Excerpt false (l ++ (trim cs ++ r)) (out ++ []) := skip_append l hrest
  rwa [List.append_nil, ← List.append_assoc, ← hcs] at hpad

theorem trim_map {k : Char → Char} (hk : ∀ c, k c = c ∨ k c = c.toLower) {w : List Char}
    (hw : Marks w) (cs : List Char) : Excerpt false cs (w ++ (trim cs).map k) := by
  have hkeep : Excerpt true (trim cs ++ []) ((trim cs).map k ++ []) := keep_map hk _ stop
  rw [List.append_nil, List.append_nil] at hkeep
  exact (mark_append hw hkeep).of_trim

/-- A character that is not neutral at the start of an excerpt stands at the start of the text. -/
theorem eq_cons_of_not_neutral (h : Excerpt joined src (c :: out)) (hc : ¬ Neutral c) :
    joined = true ∧ ∃ rest, src = c :: rest ∧ Excerpt true rest out := by
  generalize htext : c :: out = text at h
  induction h with
  | stop => cases htext
  | skip h ih => exact absurd (ih htext).1 (by simp)
  | @keep d k src out hk h ih =>
      cases htext
      have hletter : NoLetter c := by
        rcases not_neutral_iff.1 hc with rfl | rfl <;> decide
      exact ⟨rfl, src, by rw [eq_of_kept hk hletter], h⟩
  | mark hg h ih =>
      cases htext
      exact absurd hg hc

theorem afterClosing_eq_none (h : Excerpt joined src out) (hsrc : afterClosing src = none) :
    afterClosing out = none := by
  induction h with
  | stop => rfl
  | skip _ ih => exact ih (afterClosing_cons_eq_none_iff.1 hsrc).1
  | @keep c k src out hk h ih =>
      obtain ⟨hrest, hslash⟩ := afterClosing_cons_eq_none_iff.1 hsrc
      refine afterClosing_cons_eq_none_iff.2 ⟨ih hrest, ?_⟩
      rintro rfl rest rfl
      have hc : c = '*' := eq_of_kept hk (by decide)
      obtain ⟨-, t, rfl, -⟩ := h.eq_cons_of_not_neutral (by decide)
      exact hslash hc t rfl
  | mark hg _ ih =>
      refine afterClosing_cons_eq_none_iff.2 ⟨ih hsrc, ?_⟩
      exact fun he => absurd he hg.2

/-- No slash in an excerpt is of its own making. -/
theorem count_slash_le (h : Excerpt joined src out) : out.count '/' ≤ src.count '/' := by
  induction h with
  | stop => simp
  | @skip _ c src out _ ih =>
      rw [List.count_cons]
      omega
  | @keep c k src out hk _ ih =>
      by_cases hslash : k = '/'
      · subst hslash
        obtain rfl := eq_of_kept hk (by decide)
        simpa using ih
      · rw [List.count_cons_of_ne hslash, List.count_cons]
        omega
  | mark hg _ ih => rwa [List.count_cons_of_ne hg.1]

/-- **An excerpt of a text free of comments is free of comments.** -/
theorem commentFree (h : Excerpt joined src out) (hsrc : CommentFree src) : CommentFree out := by
  induction h with
  | stop => exact commentFree_nil
  | skip _ ih => exact ih (commentFree_cons_iff.1 hsrc).2
  | @keep c k src out hk h ih =>
      obtain ⟨hopens, hrest⟩ := commentFree_cons_iff.1 hsrc
      refine commentFree_cons_iff.2 ⟨?_, ih hrest⟩
      by_cases hslash : k = '/'
      · subst hslash
        obtain rfl : c = '/' := eq_of_kept hk (by decide)
        -- the two characters that would open a comment are neighbours in the text, too
        cases out with
        | nil => rfl
        | cons d out =>
            by_cases hd : Neutral d
            · exact opensComment_of_head_ne hd
            · obtain ⟨-, t, rfl, ht⟩ := h.eq_cons_of_not_neutral hd
              by_cases hline : d = '/'
              · subst hline
                simp [opensComment] at hopens
              · obtain rfl : d = '*' := (not_neutral_iff.1 hd).resolve_left hline
                simp only [opensComment, Option.isSome_eq_false_iff, Option.isNone_iff_eq_none]
                  at hopens ⊢
                exact ht.afterClosing_eq_none hopens
      · exact opensComment_of_ne hslash
  | mark hg _ ih => exact commentFree_cons_iff.2 ⟨opensComment_of_ne hg.1, ih hsrc⟩

end Excerpt

end StyleInliner.Css
