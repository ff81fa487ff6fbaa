/-
Selectors and the texts they are read from.

Reading accepts many spellings of a selector and keeps one.  `Selector.Canonical`
says which selectors reading gives: names are made of name characters only, tags
are known and lower-cased, and no tag is written against the step before it.  That
last condition is what makes the written text unambiguous, since a tag has no
directive character to begin with.  `parseSelector_text` is the way back from a
text to the selector, and `text_injective` follows from it: canonical selectors
that are written the same are the same.

Reading goes through raw steps, so both directions are proved for those: what
`scanSteps` guarantees of them (`scanned_scanSteps`), and what they are when the
text is that of a canonical selector (`scanSteps_text`).
-/
import Mathlib.Data.List.Chain
import StyleInliner.Css.Selector.Parser
import StyleInliner.Proofs.Run
import StyleInliner.Proofs.Text

namespace StyleInliner.Css

open StyleInliner.Text

/-- Whether a character ends the step it stands behind: a directive or a blank. -/
def endsStep (c : Char) : Bool :=
  (StepKind.ofDirective? c).isSome || isBlank c

/-- Whether a character may stand in a name. -/
def isNameCharacter (c : Char) : Bool :=
  !endsStep c && !unsupportedCharacters.contains c

/-- A step as reading gives it. -/
structure Step.Canonical (s : Step) : Prop where
  name_ne : s.name.toList ≠ []
  name_plain : ∀ c ∈ s.name.toList, isNameCharacter c = true
  /-- Tags are known, and lower-cased. -/
  tag : s.kind = .tagName → isKnownTag s.name = true ∧ lower s.name = s.name

/-- A selector as reading gives it. -/
def Selector.Canonical : Selector → Prop
  | .single step => step.Canonical
  | .chain step joint rest =>
    step.Canonical ∧ (joint = .combination → rest.first.kind ≠ .tagName) ∧ rest.Canonical

/-! ### Characters -/

theorem ofDirective?_eq_some_iff {c : Char} {kind : StepKind} :
    StepKind.ofDirective? c = some kind ↔ kind.directive? = some c := by
  unfold StepKind.ofDirective? StepKind.directive?
  split
  · subst_vars; cases kind <;> simp
  · split
    · subst_vars; cases kind <;> simp
    · split
      · subst_vars; cases kind <;> simp
      · cases kind <;> simp [eq_comm, *]

theorem directive?_ne_none {kind : StepKind} (h : kind ≠ .tagName) : kind.directive? ≠ none := by
  cases kind <;> simp [StepKind.directive?] at h ⊢

theorem ofDirective?_ne_tagName {c : Char} {kind : StepKind}
    (h : StepKind.ofDirective? c = some kind) : kind ≠ .tagName := by
  rintro rfl
  rw [ofDirective?_eq_some_iff] at h
  simp [StepKind.directive?] at h

theorem isNameCharacter_toLower (c : Char) : isNameCharacter c.toLower = isNameCharacter c := by
  have heq : ∀ d : Char, NoLetter d → (c.toLower = d) = (c = d) := fun d hd =>
    propext (toLower_eq_iff hd)
  have hdir : (StepKind.ofDirective? c.toLower) = StepKind.ofDirective? c := by
    unfold StepKind.ofDirective?
    simp only [heq '.' (by decide), heq '#' (by decide), heq ':' (by decide)]
  have hun : unsupportedCharacters.contains c.toLower = unsupportedCharacters.contains c := by
    rw [Bool.eq_iff_iff, List.contains_iff_mem, List.contains_iff_mem]
    simp only [unsupportedCharacters, List.mem_cons, List.not_mem_nil, heq '*' (by decide),
      heq '>' (by decide), heq '+' (by decide), heq '~' (by decide), heq '[' (by decide),
      heq ']' (by decide), heq ',' (by decide)]
  rw [isNameCharacter, isNameCharacter, endsStep, endsStep, hdir, isBlank_toLower, hun]

/-! ### Scanning -/

section Scanning

variable {c : Char} {cs : List Char} {begun : Bool}

theorem scanSteps_directive {kind : StepKind} (h : StepKind.ofDirective? c = some kind) :
    scanSteps begun (c :: cs) =
      ([], .combination, ⟨kind, (scanSteps true cs).1, (scanSteps true cs).2.1⟩ ::
        (scanSteps true cs).2.2) := by
  rw [scanSteps, h]

theorem scanSteps_blank (h : StepKind.ofDirective? c = none) (hb : isBlank c = true) :
    scanSteps begun (c :: cs) = ([], .descendant, (scanSteps false cs).2.2) := by
  rw [scanSteps, h]
  simp [hb]

theorem scanSteps_begun (h : endsStep c = false) :
    scanSteps true (c :: cs) =
      (c :: (scanSteps true cs).1, (scanSteps true cs).2.1, (scanSteps true cs).2.2) := by
  simp only [endsStep, Bool.or_eq_false_iff, Option.isSome_eq_false_iff,
    Option.isNone_iff_eq_none] at h
  rw [scanSteps, h.1]
  simp [h.2]

theorem scanSteps_fresh (h : endsStep c = false) :
    scanSteps false (c :: cs) =
      ([], .combination, ⟨.tagName, c :: (scanSteps true cs).1, (scanSteps true cs).2.1⟩ ::
        (scanSteps true cs).2.2) := by
  simp only [endsStep, Bool.or_eq_false_iff, Option.isSome_eq_false_iff,
    Option.isNone_iff_eq_none] at h
  rw [scanSteps, h.1]
  simp [h.2]

/-- The four ways in which a character is taken. -/
theorem scan_cases (c : Char) :
    (∃ kind, StepKind.ofDirective? c = some kind) ∨
      (StepKind.ofDirective? c = none ∧ isBlank c = true) ∨ endsStep c = false := by
  unfold endsStep
  cases StepKind.ofDirective? c with
  | some kind => exact Or.inl ⟨kind, rfl⟩
  | none =>
      cases isBlank c with
      | true => exact Or.inr (Or.inl ⟨rfl, rfl⟩)
      | false => exact Or.inr (Or.inr rfl)

end Scanning

/-- No tag step stands against the step before it. -/
def Separated (a b : RawStep) : Prop :=
  a.joint = .combination → b.kind ≠ .tagName

/-- What scanning guarantees: names are made of characters of the text that end no step, and no
tag stands against what comes before it. -/
structure Scanned (cs : List Char) (begun : Bool) (scan : List Char × Joint × List RawStep) :
    Prop where
  name : ∀ c ∈ scan.1, c ∈ cs ∧ endsStep c = false
  steps : ∀ step ∈ scan.2.2, ∀ c ∈ step.name, c ∈ cs ∧ endsStep c = false
  separated : scan.2.2.IsChain Separated
  head : begun = true → scan.2.1 = .combination →
    ∀ step ∈ scan.2.2.head?, step.kind ≠ .tagName

theorem Scanned.isChain_cons {cs : List Char} {scan : List Char × Joint × List RawStep}
    (h : Scanned cs true scan) (kind : StepKind) (name : List Char) :
    List.IsChain Separated (⟨kind, name, scan.2.1⟩ :: scan.2.2) := by
  rw [List.isChain_cons]
  exact ⟨fun step hstep hjoint => h.head rfl hjoint step hstep, h.separated⟩

theorem scanned_scanSteps (begun : Bool) (cs : List Char) :
    Scanned cs begun (scanSteps begun cs) := by
  have hmore : ∀ {c : Char} {cs : List Char} {x : Char}, x ∈ cs ∧ endsStep x = false →
      x ∈ c :: cs ∧ endsStep x = false := fun h => ⟨List.mem_cons_of_mem _ h.1, h.2⟩
  induction cs generalizing begun with
  | nil =>
      exact ⟨by simp [scanSteps], by simp [scanSteps], by simp [scanSteps], by simp [scanSteps]⟩
  | cons c cs ih =>
      rcases scan_cases c with ⟨kind, hkind⟩ | ⟨hnone, hblank⟩ | hplain
      · have hrest := ih true
        rw [scanSteps_directive hkind]
        refine ⟨by simp, ?_, hrest.isChain_cons kind _, ?_⟩
        · intro step hstep x hx
          rcases List.mem_cons.1 hstep with rfl | hstep
          · exact hmore (hrest.name x hx)
          · exact hmore (hrest.steps step hstep x hx)
        · intro _ _ step hstep
          cases hstep
          exact ofDirective?_ne_tagName hkind
      · have hrest := ih false
        rw [scanSteps_blank hnone hblank]
        exact ⟨by simp, fun step hstep x hx => hmore (hrest.steps step hstep x hx),
          hrest.separated, by simp⟩
      · have hrest := ih true
        cases begun with
        | true =>
            rw [scanSteps_begun hplain]
            refine ⟨?_, fun step hstep x hx => hmore (hrest.steps step hstep x hx),
              hrest.separated, hrest.head⟩
            intro x hx
            rcases List.mem_cons.1 hx with rfl | hx
            · exact ⟨by simp, hplain⟩
            · exact hmore (hrest.name x hx)
        | false =>
            rw [scanSteps_fresh hplain]
            refine ⟨by simp, ?_, hrest.isChain_cons .tagName _, by simp⟩
            intro step hstep x hx
            rcases List.mem_cons.1 hstep with rfl | hstep
            · rcases List.mem_cons.1 hx with rfl | hx
              · exact ⟨by simp, hplain⟩
              · exact hmore (hrest.name x hx)
            · exact hmore (hrest.steps step hstep x hx)

/-! ### Linking -/

/-- A raw step as it is written once it is checked. -/
def RawStep.written (step : RawStep) : List Char :=
  step.kind.directive?.toList ++
    if step.kind = .tagName then step.name.map Char.toLower else step.name

/-- Raw steps as they are written once they are checked and linked. -/
def writtenSteps : List RawStep → List Char
  | [] => []
  | [step] => step.written
  | step :: next :: rest => step.written ++ step.joint.text.toList ++ writtenSteps (next :: rest)

theorem isKnownTag_lower (name : String) : isKnownTag (lower name) = isKnownTag name := by
  simp [isKnownTag, sameIgnoringCase, lower_lower]

/-- A step that passes its check is canonical, if its name holds name characters only. -/
theorem canonical_of_check {source : String} {raw : RawStep} {step : Step}
    (h : raw.check source = .ok step) (hname : ∀ c ∈ raw.name, isNameCharacter c = true) :
    step.Canonical ∧ step.kind = raw.kind ∧ step.text.toList = raw.written := by
  obtain ⟨kind, name, joint⟩ := raw
  unfold RawStep.check at h
  split at h
  · rename_i hkind
    obtain rfl : kind = .tagName := hkind
    unfold Step.ofTag at h
    split at h
    · cases h
    · rename_i hne
      split at h
      · rename_i hknown
        cases h
        refine ⟨⟨?_, ?_, ?_⟩, rfl, ?_⟩
        · simpa using hne
        · intro c hc
          rw [toList_lower, String.toList_ofList, List.mem_map] at hc
          obtain ⟨b, hb, rfl⟩ := hc
          rw [isNameCharacter_toLower]
          exact hname b hb
        · exact fun _ => ⟨(isKnownTag_lower _).trans hknown, lower_lower _⟩
        · simp [Step.text, StepKind.directive?, RawStep.written]
      · cases h
  · rename_i hkind
    have hkind' : kind ≠ .tagName := hkind
    split at h
    · cases h
    · rename_i hne
      cases h
      refine ⟨⟨by simpa using hne, by simpa using hname, fun he => absurd he hkind'⟩, rfl, ?_⟩
      cases hdir : kind.directive? with
      | none => exact absurd hdir (directive?_ne_none hkind')
      | some c => simp [Step.text, RawStep.written, hdir, hkind']

/-- Linking checked steps gives a canonical selector, written as the steps are. -/
theorem canonical_of_linkSteps {source : String} {raws : List RawStep} {found : Option Selector}
    (h : linkSteps source raws = .ok found)
    (hname : ∀ raw ∈ raws, ∀ c ∈ raw.name, isNameCharacter c = true)
    (hsep : raws.IsChain Separated) :
    (found = none → raws = []) ∧ ∀ s ∈ found, s.Canonical ∧
      raws.head?.map RawStep.kind = some s.first.kind ∧ s.text.toList = writtenSteps raws := by
  induction raws generalizing found with
  | nil =>
      cases h
      simp
  | cons raw rest ih =>
      obtain ⟨tail, htail, h⟩ := bind_eq_ok_iff.1 h
      obtain ⟨head, hhead, h⟩ := bind_eq_ok_iff.1 h
      obtain ⟨hcanon, hkind, htext⟩ := canonical_of_check hhead (hname raw (by simp))
      rw [List.isChain_cons] at hsep
      obtain ⟨hnone, hsome⟩ := ih htail (fun r hr => hname r (by simp [hr])) hsep.2
      cases tail with
      | none =>
          cases h
          obtain rfl := hnone rfl
          refine ⟨by simp, ?_⟩
          intro s hs
          cases hs
          exact ⟨hcanon, by simp [Selector.first, hkind], by simpa [Selector.text, writtenSteps]⟩
      | some tail =>
          cases h
          obtain ⟨hcanon', hfirst, htext'⟩ := hsome tail rfl
          refine ⟨by simp, ?_⟩
          intro s hs
          cases hs
          cases rest with
          | nil => simp at hfirst
          | cons next rest =>
              rw [List.head?_cons, Option.map_some, Option.some.injEq] at hfirst
              refine ⟨⟨hcanon, ?_, hcanon'⟩, by simp [Selector.first, hkind], ?_⟩
              · rw [← hfirst]
                exact hsep.1 next (by simp)
              · simp [Selector.text, writtenSteps, htext, htext']

/-- A text is read as a selector when no character in it is of an unsupported form and its steps
link up. -/
theorem parseSelector_eq_ok_iff {source : String} {s : Selector} :
    parseSelector source = .ok s ↔
      source.toList.any (unsupportedCharacters.contains ·) = false ∧
        linkSteps source (rawSteps source.toList) = .ok (some s) := by
  unfold parseSelector
  constructor
  · intro h
    split at h
    · cases h
    · rename_i hany
      obtain ⟨found, hfound, h⟩ := bind_eq_ok_iff.1 h
      cases found with
      | none => cases h
      | some t =>
          cases h
          exact ⟨by simpa using hany, hfound⟩
  · rintro ⟨hany, hfound⟩
    rw [if_neg (by simp only [hany]; exact Bool.false_ne_true), hfound]
    rfl

/-- What is known of a selector that was read. -/
theorem canonical_of_parseSelector {source : String} {s : Selector}
    (h : parseSelector source = .ok s) :
    s.Canonical ∧ s.text.toList = writtenSteps (rawSteps source.toList) := by
  obtain ⟨hsupported, h⟩ := parseSelector_eq_ok_iff.1 h
  have hscan := scanned_scanSteps false source.toList
  have hname : ∀ raw ∈ rawSteps source.toList, ∀ c ∈ raw.name, isNameCharacter c = true := by
    intro raw hraw c hc
    obtain ⟨hmem, hends⟩ := hscan.steps raw hraw c hc
    rw [List.any_eq_false] at hsupported
    simp only [isNameCharacter, hends, Bool.not_false, Bool.true_and, Bool.not_eq_true']
    simpa using hsupported c hmem
  obtain ⟨-, hsome⟩ := canonical_of_linkSteps h hname hscan.separated
  obtain ⟨hcanon, -, htext⟩ := hsome s rfl
  exact ⟨hcanon, htext⟩

/-! ### The way back -/

/-- A selector as raw steps. -/
def Selector.raw : Selector → List RawStep
  | .single step => [⟨step.kind, step.name.toList, .combination⟩]
  | .chain step joint rest => ⟨step.kind, step.name.toList, joint⟩ :: rest.raw

theorem endsStep_of_isNameCharacter {c : Char} (h : isNameCharacter c = true) :
    endsStep c = false := by
  simp only [isNameCharacter, Bool.and_eq_true, Bool.not_eq_true'] at h
  exact h.1

theorem scanSteps_name {name : List Char} (hname : ∀ c ∈ name, endsStep c = false)
    (cs : List Char) :
    scanSteps true (name ++ cs) =
      (name ++ (scanSteps true cs).1, (scanSteps true cs).2.1, (scanSteps true cs).2.2) := by
  induction name with
  | nil => rfl
  | cons c name ih =>
      rw [List.cons_append, scanSteps_begun (hname c (by simp)),
        ih fun x hx => hname x (by simp [hx])]
      rfl

/-- A written step is scanned as that step, unless it is a tag and something is open before it. -/
theorem scanSteps_step {step : Step} (hstep : step.Canonical) {begun : Bool}
    (hbegun : begun = true → step.kind ≠ .tagName) (cs : List Char) :
    scanSteps begun (step.text.toList ++ cs) =
      ([], .combination, ⟨step.kind, step.name.toList ++ (scanSteps true cs).1,
        (scanSteps true cs).2.1⟩ :: (scanSteps true cs).2.2) := by
  have hplain : ∀ c ∈ step.name.toList, endsStep c = false := fun c hc =>
    endsStep_of_isNameCharacter (hstep.name_plain c hc)
  cases hdir : step.kind.directive? with
  | some c =>
      have htext : step.text.toList = c :: step.name.toList := by
        simp [Step.text, hdir]
      rw [htext, List.cons_append, scanSteps_directive (ofDirective?_eq_some_iff.2 hdir),
        scanSteps_name hplain]
  | none =>
      have hkind : step.kind = .tagName := by
        by_contra hne
        exact directive?_ne_none hne hdir
      have hfresh : begun = false := by
        cases begun with
        | false => rfl
        | true => exact absurd hkind (hbegun rfl)
      have htext : step.text = step.name := by
        simp [Step.text, hdir]
      obtain ⟨c, name, hcons⟩ := List.exists_cons_of_ne_nil hstep.name_ne
      rw [hcons] at hplain
      rw [htext, hcons, hfresh, List.cons_append, scanSteps_fresh (hplain c (by simp)),
        scanSteps_name fun x hx => hplain x (by simp [hx]), hkind]
      rfl

theorem scanSteps_text {s : Selector} (hs : s.Canonical) {begun : Bool}
    (hbegun : begun = true → s.first.kind ≠ .tagName) :
    scanSteps begun s.text.toList = ([], .combination, s.raw) := by
  induction s generalizing begun with
  | single step =>
      have h := scanSteps_step hs hbegun []
      rw [List.append_nil] at h
      rw [Selector.text, h]
      simp [scanSteps, Selector.raw]
  | chain step joint rest ih =>
      obtain ⟨hstep, hjoint, hrest⟩ := hs
      rw [Selector.text, String.toList_append, String.toList_append, List.append_assoc,
        scanSteps_step hstep hbegun]
      cases joint with
      | combination =>
          rw [show Joint.combination.text.toList = [] from rfl, List.nil_append,
            ih hrest fun _ => hjoint rfl]
          simp [Selector.raw]
      | descendant =>
          rw [show Joint.descendant.text.toList = [' '] from rfl, List.singleton_append,
            scanSteps_blank rfl rfl, ih hrest (by simp)]
          simp [Selector.raw]

theorem check_raw {source : String} {step : Step} (hstep : step.Canonical) (joint : Joint) :
    RawStep.check source ⟨step.kind, step.name.toList, joint⟩ = .ok step := by
  have hne := hstep.name_ne
  obtain ⟨kind, name⟩ := step
  unfold RawStep.check
  split
  · rename_i hkind
    obtain rfl : kind = .tagName := hkind
    obtain ⟨hknown, hlower⟩ := hstep.tag rfl
    rw [String.ofList_toList, Step.ofTag, if_neg (by simpa using hne), if_pos hknown, hlower]
  · rw [if_neg (by simpa using hne), String.ofList_toList]

theorem linkSteps_raw {source : String} {s : Selector} (hs : s.Canonical) :
    linkSteps source s.raw = .ok (some s) := by
  induction s with
  | single step =>
      rw [Selector.raw, linkSteps, check_raw hs]
      rfl
  | chain step joint rest ih =>
      obtain ⟨hstep, -, hrest⟩ := hs
      rw [Selector.raw, linkSteps, ih hrest, check_raw hstep]
      rfl

theorem unsupported_notMem_text {s : Selector} (hs : s.Canonical) :
    ∀ c ∈ s.text.toList, unsupportedCharacters.contains c = false := by
  have hstep : ∀ {step : Step}, step.Canonical → ∀ c ∈ step.text.toList,
      unsupportedCharacters.contains c = false := by
    intro step hstep c hc
    have hname : c ∈ step.name.toList → unsupportedCharacters.contains c = false := by
      intro hm
      have hplain := hstep.name_plain c hm
      simp only [isNameCharacter, Bool.and_eq_true, Bool.not_eq_true'] at hplain
      exact hplain.2
    obtain ⟨kind, name⟩ := step
    cases kind
    · exact hname hc
    all_goals
      rcases List.mem_cons.1 (by simpa [Step.text, StepKind.directive?] using hc) with rfl | hm
      · decide
      · exact hname hm
  induction s with
  | single step => exact hstep hs
  | chain step joint rest ih =>
      obtain ⟨hfirst, -, hrest⟩ := hs
      intro c hc
      rw [Selector.text, String.toList_append, String.toList_append] at hc
      rcases List.mem_append.1 hc with hc | hc
      · rcases List.mem_append.1 hc with hc | hc
        · exact hstep hfirst c hc
        · cases joint with
          | combination => simp [Joint.text] at hc
          | descendant =>
              obtain rfl : c = ' ' := by simpa [Joint.text] using hc
              decide
      · exact ih hrest c hc

/-- **A canonical selector is read back from its text.** -/
theorem parseSelector_text {s : Selector} (hs : s.Canonical) :
    parseSelector s.text = .ok s := by
  have hany : s.text.toList.any (unsupportedCharacters.contains ·) = false := by
    rw [List.any_eq_false]
    intro c hc
    simpa using unsupported_notMem_text hs c hc
  rw [parseSelector_eq_ok_iff, rawSteps, scanSteps_text hs (by simp), linkSteps_raw hs]
  exact ⟨hany, rfl⟩

/-- Canonical selectors that are written the same are the same. -/
theorem text_injective {s t : Selector} (hs : s.Canonical) (ht : t.Canonical)
    (h : s.text = t.text) : s = t := by
  have hread := parseSelector_text hs
  rw [h, parseSelector_text ht] at hread
  exact (Except.ok.inj hread).symm

/-! ### Characters of a canonical text -/

theorem plain_of_knownTag {name : String} (hknown : isKnownTag name = true)
    (hlower : lower name = name) : '\x7b' ∉ name.toList ∧ '\x7d' ∉ name.toList := by
  have hall : knownTags.all (fun tag => tag.toList.all (· < '\x7b')) = true := by decide +kernel
  obtain ⟨tag, htag, hsame⟩ := List.any_eq_true.1 hknown
  have heq : lower tag = name := by
    rw [← hlower]
    exact beq_iff_eq.1 hsame
  have hbelow : ∀ c ∈ tag.toList, c < '\x7b' := by
    simpa using List.all_eq_true.1 hall tag htag
  rw [← heq, toList_lower, mem_map_toLower (by decide), mem_map_toLower (by decide)]
  exact ⟨fun hm => absurd (hbelow _ hm) (by decide), fun hm => absurd (hbelow _ hm) (by decide)⟩

/-- A step is written without blanks, and does not begin with a brace. -/
theorem text_step {step : Step} (h : step.Canonical) :
    (∀ c ∈ step.text.toList, isBlank c = false) ∧ step.text.toList ≠ [] ∧
      ∀ c ∈ step.text.toList.head?, c ≠ '\x7b' ∧ c ≠ '\x7d' := by
  have hname : ∀ c ∈ step.name.toList, isBlank c = false := by
    intro c hc
    have hends := endsStep_of_isNameCharacter (h.name_plain c hc)
    rw [endsStep, Bool.or_eq_false_iff] at hends
    exact hends.2
  obtain ⟨kind, name⟩ := step
  cases kind
  · have hplain := plain_of_knownTag (h.tag rfl).1 (h.tag rfl).2
    refine ⟨hname, h.name_ne, ?_⟩
    intro c hc
    have hmem : c ∈ name.toList := List.mem_of_head? hc
    exact ⟨fun he => hplain.1 (he ▸ hmem), fun he => hplain.2 (he ▸ hmem)⟩
  all_goals
    refine ⟨?_, by simp [Step.text, StepKind.directive?], ?_⟩
    · intro c hc
      rcases List.mem_cons.1 (by simpa [Step.text, StepKind.directive?] using hc) with rfl | hm
      · decide
      · exact hname c hm
    · intro c hc
      obtain rfl : _ = c := by simpa [Step.text, StepKind.directive?] using hc
      decide

theorem text_ne_nil {s : Selector} (hs : s.Canonical) : s.text.toList ≠ [] := by
  cases s with
  | single step => exact (text_step hs).2.1
  | chain step joint rest => simp [Selector.text, (text_step hs.1).2.1]

theorem head_text {s : Selector} (hs : s.Canonical) :
    ∀ c ∈ s.text.toList.head?, c ≠ '\x7b' ∧ c ≠ '\x7d' := by
  cases s with
  | single step => exact (text_step hs).2.2
  | chain step joint rest =>
      intro c hc
      obtain ⟨-, hne, hhead⟩ := text_step hs.1
      refine hhead c ?_
      rw [Selector.text, String.toList_append, String.toList_append, List.append_assoc,
        List.head?_append_of_ne_nil _ hne] at hc
      exact hc

theorem trimmed_text {s : Selector} (hs : s.Canonical) : Trimmed s.text.toList := by
  induction s with
  | single step => exact trimmed_of_forall (text_step hs).1
  | chain step joint rest ih =>
      rw [Selector.text, String.toList_append, String.toList_append]
      exact (trimmed_of_forall (text_step hs.1).1).append (ih hs.2.2) (text_step hs.1).2.1
        (text_ne_nil hs.2.2)

theorem mem_writtenSteps {raws : List RawStep} {c : Char} (hc : c ∈ writtenSteps raws) :
    c = ' ' ∨ (StepKind.ofDirective? c).isSome = true ∨
      ∃ raw ∈ raws, c ∈ raw.name ∨ c ∈ raw.name.map Char.toLower := by
  have hwritten : ∀ {raw : RawStep}, c ∈ raw.written → (StepKind.ofDirective? c).isSome = true ∨
      c ∈ raw.name ∨ c ∈ raw.name.map Char.toLower := by
    intro raw hm
    rcases List.mem_append.1 hm with hm | hm
    · rw [Option.mem_toList] at hm
      exact Or.inl (by rw [ofDirective?_eq_some_iff.2 hm]; rfl)
    · split at hm
      · exact Or.inr (Or.inr hm)
      · exact Or.inr (Or.inl hm)
  induction raws using writtenSteps.induct with
  | case1 => simp [writtenSteps] at hc
  | case2 raw =>
      rcases hwritten hc with h | h
      · exact Or.inr (Or.inl h)
      · exact Or.inr (Or.inr ⟨raw, by simp, h⟩)
  | case3 raw next rest ih =>
      rw [writtenSteps, List.mem_append, List.mem_append] at hc
      rcases hc with (hc | hc) | hc
      · rcases hwritten hc with h | h
        · exact Or.inr (Or.inl h)
        · exact Or.inr (Or.inr ⟨raw, by simp, h⟩)
      · cases hjoint : raw.joint with
        | combination => simp [hjoint, Joint.text] at hc
        | descendant => exact Or.inl (by simpa [hjoint, Joint.text] using hc)
      · rcases ih hc with h | h | ⟨found, hfound, h⟩
        · exact Or.inl h
        · exact Or.inr (Or.inl h)
        · exact Or.inr (Or.inr ⟨found, List.mem_cons_of_mem _ hfound, h⟩)

/-- Reading brings in no opening brace. -/
theorem brace_notMem_of_parseSelector {source : String} {s : Selector}
    (h : parseSelector source = .ok s) (hsource : '\x7b' ∉ source.toList) :
    '\x7b' ∉ s.text.toList := by
  rw [(canonical_of_parseSelector h).2]
  intro hm
  rcases mem_writtenSteps hm with hc | hc | ⟨raw, hraw, hc⟩
  · exact absurd hc (by decide)
  · exact absurd hc (by decide)
  · rw [mem_map_toLower (by decide), or_self] at hc
    exact hsource ((scanned_scanSteps false source.toList).steps raw hraw _ hc).1

end StyleInliner.Css
