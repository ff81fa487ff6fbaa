/-
Edges, pieces and letter case of a text.

Reading a stylesheet trims at every turn, so what is proved about reading holds
up to blanks at the edges.  `trim` is pinned down by two facts: a text is its
trimmed form between two runs of blanks (`exists_eq_trim`), and such runs make no
difference to the trimmed form (`trim_append_append`).  Splitting at a separator
is pinned down by where it cuts (`splitAt_append`), and `pieces_induction` is the
induction on the pieces of a text that follows from it.
-/
import Mathlib.Data.List.Basic
import Mathlib.Tactic.Common
import StyleInliner.Text.Blank
import StyleInliner.Text.LetterCase

namespace StyleInliner.Text

/-! ### Edges -/

theorem trimEnd_append {cs r : List Char} (hr : allBlank r = true) :
    trimEnd (cs ++ r) = trimEnd cs := by
  have hr' : ∀ c ∈ r.reverse, isBlank c = true := by
    simpa [allBlank] using hr
  unfold trimEnd
  rw [List.reverse_append, List.dropWhile_append_of_pos hr']

theorem trimStart_append {l t : List Char} (hl : allBlank l = true) :
    trimStart (l ++ t) = trimStart t := by
  have hl' : ∀ c ∈ l, isBlank c = true := by simpa [allBlank] using hl
  exact List.dropWhile_append_of_pos hl'

theorem exists_eq_trimStart (cs : List Char) :
    ∃ l, allBlank l = true ∧ cs = l ++ trimStart cs := by
  refine ⟨cs.takeWhile isBlank, ?_, List.takeWhile_append_dropWhile.symm⟩
  simp [allBlank]

theorem exists_eq_trimEnd (cs : List Char) :
    ∃ r, allBlank r = true ∧ cs = trimEnd cs ++ r := by
  obtain ⟨l, hl, hcs⟩ := exists_eq_trimStart cs.reverse
  refine ⟨l.reverse, by simpa [allBlank] using hl, ?_⟩
  have h := congrArg List.reverse hcs
  rw [List.reverse_reverse, List.reverse_append] at h
  exact h

/-- A text is its trimmed form between two runs of blanks. -/
theorem exists_eq_trim (cs : List Char) :
    ∃ l r, allBlank l = true ∧ allBlank r = true ∧ cs = l ++ trim cs ++ r := by
  obtain ⟨l, hl, hcs⟩ := exists_eq_trimStart cs
  obtain ⟨r, hr, htrim⟩ := exists_eq_trimEnd (trimStart cs)
  refine ⟨l, r, hl, hr, ?_⟩
  rw [List.append_assoc, trim, ← htrim]
  exact hcs

theorem head_trimStart {t : List Char} {c : Char} (h : c ∈ (trimStart t).head?) :
    isBlank c = false := by
  have hne : List.dropWhile isBlank t ≠ [] := by
    rintro he
    simp [trimStart, he] at h
  have hhead := List.head_dropWhile_not isBlank hne
  rw [trimStart, List.head?_eq_some_head hne, Option.mem_some_iff] at h
  rwa [h] at hhead

/-- Where blanks end is told by the first character that is none. -/
theorem trimStart_append_of_head {l t : List Char} (hl : allBlank l = true)
    (ht : ∀ c ∈ t.head?, isBlank c = false) : trimStart (l ++ t) = t := by
  rw [trimStart_append hl]
  cases t with
  | nil => rfl
  | cons c t => simp [trimStart, ht c (by simp)]

theorem trimEnd_eq_trim {cs : List Char} (h : ∀ c ∈ cs.head?, isBlank c = false) :
    trimEnd cs = trim cs := by
  have hstart : trimStart cs = cs := trimStart_append_of_head (l := []) rfl h
  rw [trim, hstart]

/-- Neither edge is a blank. -/
def Trimmed (cs : List Char) : Prop :=
  (∀ c ∈ cs.head?, isBlank c = false) ∧ ∀ c ∈ cs.getLast?, isBlank c = false

theorem trimmed_of_forall {cs : List Char} (h : ∀ c ∈ cs, isBlank c = false) : Trimmed cs :=
  ⟨fun c hc => h c (List.mem_of_head? hc), fun c hc => h c (List.mem_of_getLast? hc)⟩

theorem Trimmed.append {a m b : List Char} (ha : Trimmed a) (hb : Trimmed b) (hane : a ≠ [])
    (hbne : b ≠ []) : Trimmed (a ++ m ++ b) := by
  constructor
  · rw [List.append_assoc, List.head?_append_of_ne_nil _ hane]
    exact ha.1
  · rw [List.getLast?_append_of_ne_nil _ hbne]
    exact hb.2

theorem trim_of_trimmed {cs : List Char} (h : Trimmed cs) : trim cs = cs := by
  have hstart : trimStart cs = cs := by
    cases cs with
    | nil => rfl
    | cons c cs => simp [trimStart, h.1 c (by simp)]
  have hend : trimEnd cs = cs := by
    unfold trimEnd
    cases hrev : cs.reverse with
    | nil => simpa using hrev.symm
    | cons c rest =>
        have hlast : isBlank c = false := by
          refine h.2 c ?_
          rw [← List.head?_reverse, hrev]
          simp
        rw [List.dropWhile_cons, hlast, ← hrev]
        simp
  rw [trim, hstart, hend]

theorem trimmed_trim (cs : List Char) : Trimmed (trim cs) := by
  constructor
  · intro c hc
    obtain ⟨r, -, hr⟩ := exists_eq_trimEnd (trimStart cs)
    refine head_trimStart (t := cs) ?_
    rw [hr]
    cases hcase : trimEnd (trimStart cs) with
    | nil => simp [trim, hcase] at hc
    | cons d rest => simpa [trim, hcase] using hc
  · intro c hc
    refine head_trimStart (t := (trimStart cs).reverse) ?_
    rw [trim, trimEnd, List.getLast?_reverse] at hc
    exact hc

theorem trimStart_eq_nil {cs : List Char} (h : allBlank cs = true) : trimStart cs = [] := by
  have happ := trimStart_append (t := []) h
  rwa [List.append_nil] at happ

/-- Blanks at the edges make no difference to the trimmed form. -/
theorem trim_append_append {l t r : List Char} (hl : allBlank l = true)
    (hr : allBlank r = true) : trim (l ++ t ++ r) = trim t := by
  rw [trim, List.append_assoc, trimStart_append hl]
  obtain ⟨k, hk, ht⟩ := exists_eq_trimStart t
  rw [ht, List.append_assoc, trimStart_append hk, trim, trimStart_append hk]
  cases hcase : trimStart t with
  | nil => rw [List.nil_append, trimStart_eq_nil hr, trimStart_eq_nil rfl]
  | cons d rest =>
      have hd : isBlank d = false := head_trimStart (t := t) (by simp [hcase])
      have hkeep : ∀ u, trimStart (d :: u) = d :: u := fun u => by simp [trimStart, hd]
      rw [List.cons_append, hkeep, hkeep, ← List.cons_append, trimEnd_append hr]

theorem trim_eq_nil_iff {cs : List Char} : trim cs = [] ↔ allBlank cs = true := by
  constructor
  · intro h
    obtain ⟨l, r, hl, hr, hcs⟩ := exists_eq_trim cs
    rw [hcs, h]
    simp [allBlank] at hl hr ⊢
    exact ⟨hl, hr⟩
  · intro h
    have htrim := trim_append_append (l := cs) (t := []) (r := []) h rfl
    simpa [trim, trimStart, trimEnd] using htrim

theorem mem_of_mem_trim {c : Char} {cs : List Char} (h : c ∈ trim cs) : c ∈ cs := by
  obtain ⟨l, r, -, -, hcs⟩ := exists_eq_trim cs
  rw [hcs]
  simp [h]

/-! ### Pieces -/

theorem splitAt_of_notMem {separator : Char} {cs : List Char} (h : separator ∉ cs) :
    splitAt separator cs = [cs] := by
  induction cs with
  | nil => rfl
  | cons c cs ih =>
      have hc : c ≠ separator := fun he => h (by simp [he])
      rw [splitAt, if_neg hc, ih fun hm => h (by simp [hm])]

/-- Splitting cuts at every separator. -/
theorem splitAt_append (separator : Char) (a b : List Char) :
    splitAt separator (a ++ separator :: b) = splitAt separator a ++ splitAt separator b := by
  induction a with
  | nil => simp [splitAt]
  | cons c a ih =>
      rw [List.cons_append, splitAt, splitAt]
      by_cases hc : c = separator
      · rw [if_pos hc, if_pos hc, ih, List.cons_append]
      · rw [if_neg hc, if_neg hc, ih]
        cases hcase : splitAt separator a with
        | nil => exact absurd hcase (splitAt_ne_nil separator a)
        | cons piece pieces => rfl

/-- Induction on the pieces of a text: it has no separator, or one behind its first piece. -/
theorem pieces_induction {motive : List Char → Prop} (separator : Char)
    (last : ∀ cs, separator ∉ cs → motive cs)
    (more : ∀ piece rest, separator ∉ piece → motive rest →
      motive (piece ++ separator :: rest)) (cs : List Char) : motive cs := by
  have key : ∀ (cs piece : List Char), separator ∉ piece → motive (piece ++ cs) := by
    intro cs
    induction cs with
    | nil => intro piece hp; rw [List.append_nil]; exact last piece hp
    | cons c cs ih =>
        intro piece hp
        by_cases hc : c = separator
        · subst hc
          exact more piece cs hp (ih [] (by simp))
        · have hp' : separator ∉ piece ++ [c] := by
            simp [hp, Ne.symm hc]
          simpa using ih (piece ++ [c]) hp'
  exact key cs [] (by simp)

theorem mem_of_mem_splitAt {separator : Char} {cs piece : List Char}
    (h : piece ∈ splitAt separator cs) : ∀ c ∈ piece, c ∈ cs ∧ c ≠ separator := by
  induction cs using pieces_induction separator with
  | last cs hcs =>
      rw [splitAt_of_notMem hcs, List.mem_singleton] at h
      subst h
      exact fun c hc => ⟨hc, fun he => hcs (he ▸ hc)⟩
  | more first rest hfirst ih =>
      rw [splitAt_append, splitAt_of_notMem hfirst] at h
      rcases List.mem_append.1 h with h | h
      · rw [List.mem_singleton] at h
        subst h
        exact fun c hc => ⟨by simp [hc], fun he => hfirst (he ▸ hc)⟩
      · exact fun c hc => ⟨by simp [(ih h c hc).1], (ih h c hc).2⟩

/-! ### Words -/

/-- A blank in front of a text belongs to no word. -/
theorem words_cons_of_isBlank {b : Char} (hb : isBlank b = true) (cs : List Char) :
    words (b :: cs) = words cs := by
  rw [words.eq_def]
  exact if_pos hb

/-- A run that has no blank in it and none missing behind it is a word. -/
theorem words_append {w rest : List Char} (hne : w ≠ []) (hw : ∀ c ∈ w, isBlank c = false)
    (hrest : ∀ b ∈ rest.head?, isBlank b = true) : words (w ++ rest) = w :: words rest := by
  induction w with
  | nil => exact absurd rfl hne
  | cons c w ih =>
      have hc : isBlank c = false := hw c (by simp)
      cases w with
      | nil =>
          cases rest with
          | nil => simp [words, hc]
          | cons b rest =>
              have hb : isBlank b = true := hrest b (by simp)
              simp [words, hc, hb]
      | cons d w =>
          have hd : isBlank d = false := hw d (by simp)
          have hmore := ih (by simp) fun x hx => hw x (by simp [hx])
          rw [List.cons_append, List.cons_append, words, ← List.cons_append, hmore]
          simp [hc, hd]

/-- Induction on the words of a text: it is empty, or begins with a blank or with a whole word. -/
theorem words_induction {motive : List Char → Prop} (nil : motive [])
    (blank : ∀ b cs, isBlank b = true → motive cs → motive (b :: cs))
    (word : ∀ w rest, w ≠ [] → (∀ c ∈ w, isBlank c = false) →
      (∀ b ∈ rest.head?, isBlank b = true) → motive rest → motive (w ++ rest))
    (cs : List Char) : motive cs := by
  induction hlength : cs.length using Nat.strongRecOn generalizing cs with
  | _ length ih =>
      cases cs with
      | nil => exact nil
      | cons c cs =>
          by_cases hc : isBlank c = true
          · refine blank c cs hc (ih cs.length ?_ cs rfl)
            rw [← hlength, List.length_cons]
            omega
          · have hlt : ((c :: cs).dropWhile (!isBlank ·)).length < length := by
              have hle := (List.dropWhile_suffix (!isBlank ·) (l := cs)).length_le
              rw [List.dropWhile_cons, if_pos (by simpa using hc), ← hlength, List.length_cons]
              omega
            rw [← List.takeWhile_append_dropWhile (p := (!isBlank ·)) (l := c :: cs)]
            refine word _ _ ?_ ?_ ?_ (ih _ hlt _ rfl)
            · rw [List.takeWhile_cons, if_pos (by simpa using hc)]
              exact List.cons_ne_nil _ _
            · intro x hx
              simpa using List.all_eq_true.1 List.all_takeWhile x hx
            · intro b hb
              have hne : (c :: cs).dropWhile (!isBlank ·) ≠ [] := by
                intro he
                simp [he] at hb
              have hhead := List.head_dropWhile_not (!isBlank ·) hne
              rw [List.head?_eq_some_head hne, Option.mem_some_iff] at hb
              simpa [hb] using hhead

theorem mem_words {cs w : List Char} (h : w ∈ words cs) :
    w ≠ [] ∧ ∀ c ∈ w, isBlank c = false := by
  induction cs using words_induction with
  | nil => simp [words] at h
  | blank b cs hb ih => exact ih (by rwa [words_cons_of_isBlank hb] at h)
  | word run rest hne hrun hrest ih =>
      rw [words_append hne hrun hrest, List.mem_cons] at h
      rcases h with rfl | h
      · exact ⟨hne, hrun⟩
      · exact ih h

/-- There are no words where there are only blanks. -/
theorem words_eq_nil_iff {cs : List Char} : words cs = [] ↔ ∀ c ∈ cs, isBlank c = true := by
  induction cs using words_induction with
  | nil => simp [words]
  | blank b cs hb ih => rw [words_cons_of_isBlank hb, ih, List.forall_mem_cons, and_iff_right hb]
  | word run rest hne hrun hrest ih =>
      rw [words_append hne hrun hrest]
      obtain ⟨c, run, rfl⟩ := List.exists_cons_of_ne_nil hne
      have hc : isBlank c = false := hrun c (by simp)
      simp [hc]

/-! ### The first of a character -/

theorem cut_append {x : Char} {a : List Char} (b : List Char) (h : x ∉ a) :
    (a ++ x :: b).takeWhile (· != x) = a ∧ (a ++ x :: b).dropWhile (· != x) = x :: b := by
  have hne : ∀ c ∈ a, (c != x) = true := by
    intro c hc
    exact bne_iff_ne.2 fun he => h (he ▸ hc)
  rw [List.takeWhile_append_of_pos hne, List.dropWhile_append_of_pos hne]
  simp

theorem eq_append_of_dropWhile_ne {x y : Char} {cs rest : List Char}
    (h : cs.dropWhile (· != x) = y :: rest) :
    cs = cs.takeWhile (· != x) ++ x :: rest ∧ x ∉ cs.takeWhile (· != x) := by
  have hnot := List.head_dropWhile_not (· != x) (l := cs) (by rw [h]; simp)
  simp only [h, List.head_cons, bne_eq_false_iff_eq] at hnot
  obtain rfl : x = y := hnot.symm
  refine ⟨by rw [← h, List.takeWhile_append_dropWhile], ?_⟩
  intro hm
  simpa using List.all_eq_true.1 List.all_takeWhile x hm

/-! ### Letter case -/

@[simp] theorem toList_lower (s : String) : (lower s).toList = s.toList.map Char.toLower :=
  String.toList_map

/-- On code points, lower-casing adds 32 between `A` and `Z`. -/
theorem toNat_toLower (c : Char) :
    c.toLower.toNat = if 65 ≤ c.toNat ∧ c.toNat ≤ 90 then c.toNat + 32 else c.toNat := by
  have hiff : (c.val ≥ 'A'.val ∧ c.val ≤ 'Z'.val) ↔ 65 ≤ c.toNat ∧ c.toNat ≤ 90 := by
    simp [UInt32.le_iff_toNat_le]
  unfold Char.toLower
  split
  · rename_i h
    have hle := hiff.1 h
    rw [if_pos hle]
    show (c.val + (97 - 65)).toNat = _
    rw [UInt32.toNat_add]
    show (c.toNat + 32) % 4294967296 = _
    omega
  · rename_i h
    rw [if_neg fun hle => h (hiff.2 hle)]

/-- No ASCII letter, in either case. -/
def NoLetter (c : Char) : Prop :=
  c.toNat < 65 ∨ (90 < c.toNat ∧ c.toNat < 97) ∨ 122 < c.toNat

instance (c : Char) : Decidable (NoLetter c) :=
  inferInstanceAs (Decidable (_ ∨ _))

/-- Lower-casing neither makes nor unmakes a character that is no letter. -/
theorem toLower_eq_iff {c d : Char} (hd : NoLetter d) : c.toLower = d ↔ c = d := by
  unfold NoLetter at hd
  rw [← Char.toNat_inj, ← Char.toNat_inj, toNat_toLower]
  split <;> omega

theorem mem_map_toLower {c : Char} (hc : NoLetter c) {cs : List Char} :
    c ∈ cs.map Char.toLower ↔ c ∈ cs := by
  simp [toLower_eq_iff hc]

theorem toLower_toLower (c : Char) : c.toLower.toLower = c.toLower := by
  rw [← Char.toNat_inj, toNat_toLower c.toLower]
  have h := toNat_toLower c
  split at h <;> rw [if_neg] <;> omega

theorem isBlank_toLower (c : Char) : isBlank c.toLower = isBlank c := by
  have hbeq : ∀ d : Char, NoLetter d → (c.toLower == d) = (c == d) := by
    intro d hd
    rw [Bool.eq_iff_iff]
    simpa using toLower_eq_iff hd
  have hrange : ∀ lo hi : Char, hi.toNat < 65 ∨ 122 < lo.toNat →
      (decide (lo ≤ c.toLower) && decide (c.toLower ≤ hi))
        = (decide (lo ≤ c) && decide (c ≤ hi)) := by
    intro lo hi hout
    have hle : ∀ a b : Char, a ≤ b ↔ a.toNat ≤ b.toNat := fun a b => UInt32.le_iff_toNat_le
    rw [Bool.eq_iff_iff]
    simp only [Bool.and_eq_true, decide_eq_true_eq, hle, toNat_toLower]
    split <;> omega
  unfold isBlank
  rw [hrange _ _ (by decide), hrange _ _ (by decide), hbeq _ (by decide), hbeq _ (by decide),
    hbeq _ (by decide), hbeq _ (by decide), hbeq _ (by decide), hbeq _ (by decide),
    hbeq _ (by decide), hbeq _ (by decide), hbeq _ (by decide)]

theorem trimmed_map_toLower {cs : List Char} (h : Trimmed cs) :
    Trimmed (cs.map Char.toLower) := by
  constructor
  · intro c hc
    rw [List.head?_map, Option.mem_def, Option.map_eq_some_iff] at hc
    obtain ⟨b, hb, rfl⟩ := hc
    rw [isBlank_toLower]
    exact h.1 b hb
  · intro c hc
    rw [List.getLast?_map, Option.mem_def, Option.map_eq_some_iff] at hc
    obtain ⟨b, hb, rfl⟩ := hc
    rw [isBlank_toLower]
    exact h.2 b hb

theorem lower_lower (s : String) : lower (lower s) = lower s := by
  apply String.toList_injective
  rw [toList_lower, toList_lower, List.map_map]
  exact List.map_congr_left fun c _ => toLower_toLower c

theorem lower_append (a b : String) : lower (a ++ b) = lower a ++ lower b := by
  apply String.toList_injective
  simp only [toList_lower, String.toList_append, List.map_append]

/-! ### Joining -/

/-- Texts joined group by group. -/
theorem join_flatMap {α : Type} (l : List α) (g : α → List String) :
    String.join (l.flatMap g) = String.join (l.map fun a => String.join (g a)) := by
  induction l with
  | nil => rfl
  | cons a l ih =>
      rw [List.flatMap_cons, String.join_append, List.map_cons, String.join_cons, ih]

/-! ### Occurrences -/

theorem occursIn_iff {pattern cs : List Char} : occursIn pattern cs = true ↔ pattern <:+: cs := by
  induction cs with
  | nil => simp [occursIn]
  | cons c cs ih =>
      rw [occursIn, Bool.or_eq_true, List.isPrefixOf_iff_prefix, ih, List.infix_cons_iff]

end StyleInliner.Text
