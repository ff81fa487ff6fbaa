/-
The longest runs of characters of one kind.

A run is maximal when the characters right before it and right behind it are not of
its kind.  Words are the maximal runs of what is not blank (`mem_words_iff`), all of
them in the order in which they stand (`runsOf_words`), and a number is a maximal run
of digits.  Numbers are found as words, with all but digits
blanked out; what is true of words then carries over by `isMaximalRun_map_iff`.
-/
import StyleInliner.Proofs.Text

namespace StyleInliner.Text

/-- A run of characters of one kind in a text, with none of that kind right before or behind it. -/
def IsMaximalRun (kind : Char → Bool) (run cs : List Char) : Prop :=
  run ≠ [] ∧ (∀ c ∈ run, kind c = true) ∧ ∃ before behind, cs = before ++ run ++ behind ∧
    (∀ c ∈ before.getLast?, kind c = false) ∧ ∀ c ∈ behind.head?, kind c = false

/-- The runs of one kind that a text has, in order.  Between any two of them, before the first one and
behind the last one there is nothing of that kind. -/
inductive RunsOf (kind : Char → Bool) : List Char → List (List Char) → Prop
  | none {gap : List Char} (hgap : ∀ c ∈ gap, kind c = false) : RunsOf kind gap []
  | run {gap run rest : List Char} {runs : List (List Char)} (hgap : ∀ c ∈ gap, kind c = false)
      (hne : run ≠ []) (hrun : ∀ c ∈ run, kind c = true)
      (hrest : ∀ c ∈ rest.head?, kind c = false) (h : RunsOf kind rest runs) :
      RunsOf kind (gap ++ run ++ rest) (run :: runs)

/-- The digits of a text with blanks for all other characters. -/
def digitsOnly (cs : List Char) : List Char :=
  cs.map fun c => if c.isDigit then c else ' '

/-- The numbers in a text, in order. -/
def numbers (cs : List Char) : List (List Char) :=
  words (digitsOnly cs)

/-! ### Words -/

theorem IsMaximalRun.cons {kind : Char → Bool} {b : Char} {run cs : List Char}
    (hb : kind b = false) (h : IsMaximalRun kind run cs) : IsMaximalRun kind run (b :: cs) := by
  obtain ⟨hne, hrun, before, behind, rfl, hbefore, hbehind⟩ := h
  refine ⟨hne, hrun, b :: before, behind, by simp, ?_, hbehind⟩
  intro c hc
  cases before with
  | nil =>
      obtain rfl : b = c := by simpa using hc
      exact hb
  | cons d before => exact hbefore c (by rwa [List.getLast?_cons_cons] at hc)

/-- A run further behind is none that goes on from the text before it. -/
theorem IsMaximalRun.append {kind : Char → Bool} {first run cs : List Char}
    (hcs : ∀ c ∈ cs.head?, kind c = false) (h : IsMaximalRun kind run cs) :
    IsMaximalRun kind run (first ++ cs) := by
  obtain ⟨hne, hrun, before, behind, rfl, hbefore, hbehind⟩ := h
  refine ⟨hne, hrun, first ++ before, behind, by simp, ?_, hbehind⟩
  -- the text before the run is not empty, since it begins with another kind
  have hlead : before ≠ [] := by
    rintro rfl
    obtain ⟨c, rest, rfl⟩ := List.exists_cons_of_ne_nil hne
    have hc := hcs c (by simp)
    rw [hrun c (by simp)] at hc
    cases hc
  rw [List.getLast?_append_of_ne_nil _ hlead]
  exact hbefore

/-- What ends in a blank is read on its own. -/
theorem words_append_of_blank {before : List Char}
    (hbefore : ∀ c ∈ before.getLast?, isBlank c = true) (rest : List Char) :
    words (before ++ rest) = words before ++ words rest := by
  induction before using words_induction with
  | nil => rfl
  | blank b cs hb ih =>
      rw [List.cons_append, words_cons_of_isBlank hb, words_cons_of_isBlank hb]
      refine ih fun c hc => hbefore c ?_
      cases cs with
      | nil => simp at hc
      | cons d cs => rwa [List.getLast?_cons_cons]
  | word w cs hne hw hcs ih =>
      have hlead : cs ≠ [] := by
        rintro rfl
        have hlast := hbefore (w.getLast hne) (by simp [List.getLast?_eq_some_getLast hne])
        rw [hw _ (List.getLast_mem hne)] at hlast
        cases hlast
      obtain ⟨d, cs, rfl⟩ := List.exists_cons_of_ne_nil hlead
      rw [List.append_assoc, words_append hne hw hcs,
        words_append hne hw fun b hb => hcs b (by simpa using hb), List.cons_append]
      refine congrArg _ (ih fun c hc => hbefore c ?_)
      rwa [List.getLast?_append_of_ne_nil _ (List.cons_ne_nil d cs)]

/-- **The words of a text are its maximal runs of characters that are not blank.** -/
theorem mem_words_iff {w cs : List Char} :
    w ∈ words cs ↔ IsMaximalRun (fun c => !isBlank c) w cs := by
  constructor
  · intro h
    induction cs using words_induction with
    | nil => simp [words] at h
    | blank b cs hb ih =>
        rw [words_cons_of_isBlank hb] at h
        exact (ih h).cons (by simpa using hb)
    | word run rest hne hrun hrest ih =>
        rw [words_append hne hrun hrest, List.mem_cons] at h
        rcases h with rfl | h
        · exact ⟨hne, by simpa using hrun, [], rest, by simp, by simp, by simpa using hrest⟩
        · exact (ih h).append (by simpa using hrest)
  · rintro ⟨hne, hw, before, behind, rfl, hbefore, hbehind⟩
    rw [List.append_assoc, words_append_of_blank (by simpa using hbefore),
      words_append hne (by simpa using hw) (by simpa using hbehind)]
    simp

/-! ### Runs in order -/

theorem RunsOf.cons {kind : Char → Bool} {b : Char} {cs : List Char} {runs : List (List Char)}
    (hb : kind b = false) (h : RunsOf kind cs runs) : RunsOf kind (b :: cs) runs := by
  cases h with
  | none hgap => exact .none (List.forall_mem_cons.2 ⟨hb, hgap⟩)
  | @run gap _ _ _ hgap hne hrun hrest h =>
      have hlonger : ∀ c ∈ b :: gap, kind c = false := List.forall_mem_cons.2 ⟨hb, hgap⟩
      exact .run hlonger hne hrun hrest h

/-- **The words of a text are its runs of characters that are not blank, in order.** -/
theorem runsOf_words (cs : List Char) : RunsOf (fun c => !isBlank c) cs (words cs) := by
  induction cs using words_induction with
  | nil => exact .none (by simp)
  | blank b cs hb ih =>
      rw [words_cons_of_isBlank hb]
      exact ih.cons (by simpa using hb)
  | word w rest hne hw hrest ih =>
      rw [words_append hne hw hrest]
      have hgap : ∀ c ∈ ([] : List Char), (!isBlank c) = false := by simp
      exact .run hgap hne (by simpa using hw) (by simpa using hrest) ih

theorem filter_splitOnP_append {p : Char → Bool} {gap : List Char} (hgap : ∀ c ∈ gap, p c = true)
    (cs : List Char) :
    ((gap ++ cs).splitOnP p).filter (· ≠ []) = (cs.splitOnP p).filter (· ≠ []) := by
  induction gap with
  | nil => rfl
  | cons c gap ih =>
      rw [List.cons_append, List.splitOnP_cons_eq_if_modifyHead, if_pos (hgap c (by simp)),
        List.filter_cons_of_neg (by simp), ih fun d hd => hgap d (by simp [hd])]

/-- There is one list of runs only: the pieces that are left when the text is cut at all other
characters, without the empty ones. -/
theorem RunsOf.eq_filter_splitOnP {kind : Char → Bool} {cs : List Char} {runs : List (List Char)}
    (h : RunsOf kind cs runs) : runs = (cs.splitOnP fun c => !kind c).filter (· ≠ []) := by
  induction h with
  | @none gap hgap =>
      have hall : ((gap ++ []).splitOnP fun c => !kind c).filter (· ≠ []) = [[]].filter (· ≠ []) :=
        filter_splitOnP_append (by simpa using hgap) []
      rw [List.append_nil] at hall
      rw [hall]
      rfl
  | @run gap run rest runs hgap hne hrun hrest h ih =>
      have hplain : ∀ c ∈ run, (!kind c) = false := by simpa using hrun
      rw [List.append_assoc, filter_splitOnP_append (by simpa using hgap), ih]
      cases rest with
      | nil =>
          rw [List.append_nil, List.splitOnP_eq_singleton hplain]
          simp [hne]
      | cons c rest =>
          have hc : (!kind c) = true := by simpa using hrest c (by simp)
          rw [List.splitOnP_append_cons_of_forall_mem hplain c hc,
            List.splitOnP_cons_eq_if_modifyHead, if_pos hc]
          simp [hne]

/-- Nothing but blanks is lost. -/
theorem flatten_words (cs : List Char) : (words cs).flatten = cs.filter fun c => !isBlank c := by
  induction cs using words_induction with
  | nil => rfl
  | blank b cs hb ih => rw [words_cons_of_isBlank hb, ih, List.filter_cons_of_neg (by simp [hb])]
  | word w rest hne hw hrest ih =>
      have hself : w.filter (fun c => !isBlank c) = w :=
        List.filter_eq_self.2 fun c hc => by simp [hw c hc]
      rw [words_append hne hw hrest, List.flatten_cons, ih, List.filter_append, hself]

/-! ### Numbers -/

/-- Characters may be changed as long as those of the kind stay and no others come to be of it. -/
theorem isMaximalRun_map_iff {kind kind' : Char → Bool} {change : Char → Char}
    (hkind : ∀ c, kind (change c) = kind' c) (hkept : ∀ c, kind' c = true → change c = c)
    {run cs : List Char} :
    IsMaximalRun kind run (cs.map change) ↔ IsMaximalRun kind' run cs := by
  constructor
  · rintro ⟨hne, hrun, before, behind, hsplit, hbefore, hbehind⟩
    obtain ⟨front, after, rfl, hfront, rfl⟩ := List.map_eq_append_iff.1 hsplit
    obtain ⟨left, middle, rfl, rfl, rfl⟩ := List.map_eq_append_iff.1 hfront
    have hmiddle : ∀ c ∈ middle, kind' c = true := fun c hc =>
      (hkind c).symm.trans (hrun _ (List.mem_map_of_mem hc))
    have hsame : middle.map change = middle :=
      (List.map_congr_left fun c hc => hkept c (hmiddle c hc)).trans (List.map_id _)
    rw [hsame] at hne ⊢
    refine ⟨hne, hmiddle, left, after, rfl, fun c hc => ?_, fun c hc => ?_⟩
    · rw [← hkind]
      exact hbefore _ (by simpa using ⟨c, hc, rfl⟩)
    · rw [← hkind]
      exact hbehind _ (by simpa using ⟨c, hc, rfl⟩)
  · rintro ⟨hne, hrun, before, behind, rfl, hbefore, hbehind⟩
    have hsame : run.map change = run :=
      (List.map_congr_left fun c hc => hkept c (hrun c hc)).trans (List.map_id _)
    refine ⟨hne, fun c hc => ?_, before.map change, behind.map change, by simp [hsame], ?_, ?_⟩
    · rw [← hkept c (hrun c hc), hkind]
      exact hrun c hc
    · intro c hc
      obtain ⟨d, hd, rfl⟩ : ∃ d ∈ before.getLast?, change d = c := by simpa using hc
      rw [hkind]
      exact hbefore d hd
    · intro c hc
      obtain ⟨d, hd, rfl⟩ : ∃ d ∈ behind.head?, change d = c := by simpa using hc
      rw [hkind]
      exact hbehind d hd

theorem isBlank_of_isDigit {c : Char} (h : c.isDigit = true) : isBlank c = false := by
  have hdigits : ∀ n < 10, isBlank (Char.ofNat (48 + n)) = false := by decide
  obtain ⟨hlow, hhigh⟩ : 48 ≤ c.toNat ∧ c.toNat ≤ 57 := by
    simpa [Char.isDigit, UInt32.le_iff_toNat_le] using h
  have hc := hdigits (c.toNat - 48) (by omega)
  rwa [Nat.add_sub_cancel' hlow, Char.ofNat_toNat] at hc

/-- **The numbers in a text are its maximal runs of digits.** -/
theorem mem_numbers_iff {run cs : List Char} :
    run ∈ numbers cs ↔ IsMaximalRun Char.isDigit run cs := by
  rw [numbers, mem_words_iff, digitsOnly]
  refine isMaximalRun_map_iff (fun c => ?_) fun c hc => if_pos hc
  cases hc : c.isDigit with
  | true => simp [isBlank_of_isDigit hc]
  | false => exact (by decide : (!isBlank ' ') = false)

/-- Run together, the numbers are all the digits of the text. -/
theorem flatten_numbers (cs : List Char) : (numbers cs).flatten = cs.filter Char.isDigit := by
  rw [numbers, flatten_words, digitsOnly]
  induction cs with
  | nil => rfl
  | cons c cs ih =>
      have hblank : isBlank ' ' = true := by decide
      cases hc : c.isDigit with
      | true => simp [hc, isBlank_of_isDigit hc, ih]
      | false => simp [hc, hblank, ih]

/-- The digits of a text make up one of its numbers only if there is no other. -/
theorem flatten_numbers_mem_iff (cs : List Char) :
    (numbers cs).flatten ∈ numbers cs ↔ (numbers cs).length = 1 := by
  constructor
  · intro h
    have hne : ∀ part ∈ numbers cs, part ≠ [] := fun part hpart => (mem_numbers_iff.1 hpart).1
    obtain ⟨before, behind, hsplit⟩ := List.append_of_mem h
    have hlength := congrArg List.length (congrArg List.flatten hsplit)
    rw [List.flatten_append, List.flatten_cons, List.length_append, List.length_append] at hlength
    -- nothing is left for the numbers before it and behind it
    have hnone : ∀ parts : List (List Char), parts ⊆ numbers cs → parts.flatten.length = 0 →
        parts = [] := by
      intro parts hparts hzero
      refine List.eq_nil_iff_forall_not_mem.2 fun part hpart => hne part (hparts hpart) ?_
      exact List.flatten_eq_nil_iff.1 (List.length_eq_zero_iff.1 hzero) part hpart
    have hbefore : before = [] := by
      refine hnone before (fun part hpart => ?_) (by omega)
      rw [hsplit]
      exact List.mem_append_left _ hpart
    have hbehind : behind = [] := by
      refine hnone behind (fun part hpart => ?_) (by omega)
      rw [hsplit]
      exact List.mem_append_right _ (List.mem_cons_of_mem _ hpart)
    rw [hsplit, hbefore, hbehind]
    rfl
  · intro h
    obtain ⟨part, hpart⟩ := List.length_eq_one_iff.1 h
    simp [hpart]

end StyleInliner.Text
