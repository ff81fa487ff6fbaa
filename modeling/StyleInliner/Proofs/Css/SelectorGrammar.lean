/-
Which texts are selectors, and which selector each of them is.

The grammar speaks of the words of a text, the runs between its blanks.  `Compound.ofRun`
cuts a run at its directive characters, `Compound.WellFormed` says which runs are
allowed, and `chainSteps` is the chain that compounds stand for: inside a compound the
steps are about one element, and from one compound to the next about another.

Reading goes over the characters one by one and knows nothing of words.  What it has
read of a run is a step that is still open, so the induction is on the run with any step
in front of it (`scanSteps_run`), and from there on the words of the text
(`exists_rawSteps_eq`).  The joint of the last step is whatever the scan left there,
and linking drops it; that is why `linkedSteps` and not the raw steps are compared.
-/
import StyleInliner.Proofs.Css.Selector

namespace StyleInliner.Css

open StyleInliner.Text

/-! ### Compounds -/

/-- A run of characters cut at its directive characters: what stands before the first of them, and
what stands behind each. -/
structure Compound where
  tag : List Char
  parts : List (StepKind × List Char)
  deriving DecidableEq, Repr

namespace Compound

/-- Cuts a run at its directive characters. -/
def ofRun : List Char → Compound
  | [] => ⟨[], []⟩
  | c :: cs =>
    match StepKind.ofDirective? c with
    | some kind => ⟨[], (kind, (ofRun cs).tag) :: (ofRun cs).parts⟩
    | none => ⟨c :: (ofRun cs).tag, (ofRun cs).parts⟩

/-- The compound as it is written. -/
def text (compound : Compound) : List Char :=
  compound.tag ++ compound.parts.flatMap fun part => part.1.directive?.toList ++ part.2

/-- The compound with the name of its tag lower-cased. -/
def lowered (compound : Compound) : Compound :=
  { compound with tag := compound.tag.map Char.toLower }

/-- The segments of a compound, each with the kind of step that it is; an empty tag is none. -/
def segments : Compound → List (StepKind × List Char)
  | ⟨[], parts⟩ => parts
  | ⟨c :: tag, parts⟩ => (.tagName, c :: tag) :: parts

/-- The steps that a compound stands for, one for each segment. -/
def steps (compound : Compound) : List Step :=
  compound.segments.map fun segment => ⟨segment.1, String.ofList segment.2⟩

/-- The grammar of a run: a known tag or, with a directive behind it, no tag; and a name behind
every directive. -/
structure WellFormed (compound : Compound) : Prop where
  tag : compound.tag = [] ∧ compound.parts ≠ [] ∨ isKnownTag (String.ofList compound.tag) = true
  parts : ∀ part ∈ compound.parts, part.2 ≠ []

theorem ofRun_directive {c : Char} {kind : StepKind} (h : StepKind.ofDirective? c = some kind)
    (cs : List Char) : ofRun (c :: cs) = ⟨[], (kind, (ofRun cs).tag) :: (ofRun cs).parts⟩ := by
  rw [ofRun, h]

theorem ofRun_plain {c : Char} (h : endsStep c = false) (cs : List Char) :
    ofRun (c :: cs) = ⟨c :: (ofRun cs).tag, (ofRun cs).parts⟩ := by
  simp only [endsStep, Bool.or_eq_false_iff, Option.isSome_eq_false_iff,
    Option.isNone_iff_eq_none] at h
  rw [ofRun, h.1]

/-- Cutting leaves no directive character in a segment. -/
theorem ofDirective?_of_mem_ofRun (run : List Char) :
    (∀ c ∈ (ofRun run).tag, StepKind.ofDirective? c = none) ∧
      ∀ part ∈ (ofRun run).parts, part.1 ≠ .tagName ∧
        ∀ c ∈ part.2, StepKind.ofDirective? c = none := by
  induction run with
  | nil => exact ⟨by simp [ofRun], by simp [ofRun]⟩
  | cons c cs ih =>
      obtain ⟨htag, hparts⟩ := ih
      rw [ofRun]
      cases hkind : StepKind.ofDirective? c with
      | none =>
          refine ⟨?_, hparts⟩
          intro x hx
          rcases List.mem_cons.1 hx with rfl | hx
          · exact hkind
          · exact htag x hx
      | some kind =>
          refine ⟨by simp, ?_⟩
          intro part hpart
          rcases List.mem_cons.1 hpart with rfl | hpart
          · exact ⟨ofDirective?_ne_tagName hkind, htag⟩
          · exact hparts part hpart

theorem segments_ofRun_ne_nil {run : List Char} (h : run ≠ []) : (ofRun run).segments ≠ [] := by
  obtain ⟨c, cs, rfl⟩ := List.exists_cons_of_ne_nil h
  rw [ofRun]
  cases StepKind.ofDirective? c with
  | none => simp [segments]
  | some kind => simp [segments]

end Compound

/-! ### Chains -/

/-- Steps about one element, the last of them joined to what follows. -/
def joinLast (joint : Joint) : List Step → List (Step × Joint)
  | [] => []
  | [step] => [(step, joint)]
  | step :: next :: rest => (step, .combination) :: joinLast joint (next :: rest)

/-- The chain that compounds stand for: where two of them meet, the step goes on to a descendant. -/
def chainSteps : List Compound → List (Step × Joint)
  | [] => []
  | [compound] => joinLast .combination compound.steps
  | compound :: next :: rest => joinLast .descendant compound.steps ++ chainSteps (next :: rest)

/-- Steps as they are written, each with what joins it to the next one. -/
def stepsText (steps : List (Step × Joint)) : List Char :=
  steps.flatMap fun step => step.1.text.toList ++ step.2.text.toList

theorem stepsText_append (steps more : List (Step × Joint)) :
    stepsText (steps ++ more) = stepsText steps ++ stepsText more :=
  List.flatMap_append

theorem toList_text_eq (s : Selector) : s.text.toList = stepsText s.steps := by
  induction s with
  | single step => simp [Selector.text, Selector.steps, stepsText, Joint.text]
  | chain step joint rest ih =>
      rw [Selector.text, String.toList_append, String.toList_append, ih]
      simp [Selector.steps, stepsText]

theorem stepsText_joinLast {steps : List Step} (hne : steps ≠ []) (joint : Joint) :
    stepsText (joinLast joint steps) =
      (steps.flatMap fun step => step.text.toList) ++ joint.text.toList := by
  induction steps using joinLast.induct with
  | case1 => exact absurd rfl hne
  | case2 step => simp [joinLast, stepsText]
  | case3 step next rest ih =>
      have hrest := ih (List.cons_ne_nil next rest)
      rw [stepsText] at hrest
      simp only [joinLast, stepsText, List.flatMap_cons, hrest]
      simp [Joint.text]

/-- The steps of a compound are written as the compound is. -/
theorem text_steps (compound : Compound) :
    (compound.steps.flatMap fun step => step.text.toList) = compound.text := by
  have hstep : ∀ segment : StepKind × List Char,
      (Step.text ⟨segment.1, String.ofList segment.2⟩).toList =
        segment.1.directive?.toList ++ segment.2 := by
    rintro ⟨kind, name⟩
    cases kind <;> simp [Step.text, StepKind.directive?]
  obtain ⟨tag, parts⟩ := compound
  cases tag with
  | nil => simp only [Compound.steps, Compound.segments, List.flatMap_map, hstep, Compound.text,
      List.nil_append]
  | cons c tag =>
      simp only [Compound.steps, Compound.segments, List.flatMap_map, List.flatMap_cons, hstep,
        Compound.text]
      rfl

/-- The chain of compounds is written as they are, with a space wherever two of them meet. -/
theorem stepsText_chainSteps {compounds : List Compound}
    (hsteps : ∀ compound ∈ compounds, compound.steps ≠ []) :
    stepsText (chainSteps compounds) = [' '].intercalate (compounds.map Compound.text) := by
  induction compounds using chainSteps.induct with
  | case1 => simp [chainSteps, stepsText]
  | case2 compound =>
      rw [chainSteps, stepsText_joinLast (hsteps compound (by simp)), text_steps]
      simp [Joint.text]
  | case3 compound next rest ih =>
      have hrest := ih fun c hc => hsteps c (List.mem_cons_of_mem compound hc)
      rw [chainSteps, stepsText_append, stepsText_joinLast (hsteps compound (by simp)), text_steps,
        hrest]
      simp [Joint.text]

/-! ### Scanning a run -/

/-- Segments as they are scanned, the last of them joined to what follows. -/
def rawCompound (joint : Joint) : List (StepKind × List Char) → List RawStep
  | [] => []
  | [(kind, name)] => [⟨kind, name, joint⟩]
  | (kind, name) :: next :: rest => ⟨kind, name, .combination⟩ :: rawCompound joint (next :: rest)

theorem rawCompound_cons (joint : Joint) (kind : StepKind) (name : List Char)
    (rest : List (StepKind × List Char)) :
    rawCompound joint ((kind, name) :: rest) =
      ⟨kind, name, if rest = [] then joint else .combination⟩ :: rawCompound joint rest := by
  cases rest <;> simp [rawCompound]

/-- What a step is joined by to the step behind it, as far as the text between them tells. -/
def jointBefore (rest : List Char) : Joint :=
  if rest = [] then .combination else .descendant

theorem ofDirective?_of_isBlank {c : Char} (h : isBlank c = true) :
    StepKind.ofDirective? c = none := by
  rcases scan_cases c with ⟨kind, hkind⟩ | ⟨hnone, -⟩ | hplain
  · rw [ofDirective?_eq_some_iff] at hkind
    cases kind <;> simp only [StepKind.directive?, Option.some.injEq, reduceCtorEq] at hkind <;>
      subst hkind <;> exact absurd h (by decide)
  · exact hnone
  · simp [endsStep, h] at hplain

/-- Where a run has ended, an open step takes nothing more. -/
theorem scanSteps_gap {rest : List Char} (hrest : ∀ b ∈ rest.head?, isBlank b = true)
    (begun : Bool) : scanSteps begun rest = ([], jointBefore rest, rawSteps rest) := by
  cases rest with
  | nil => simp [scanSteps, rawSteps, jointBefore]
  | cons b rest =>
      have hb : isBlank b = true := hrest b (by simp)
      have hnone := ofDirective?_of_isBlank hb
      rw [rawSteps, scanSteps_blank hnone hb, scanSteps_blank hnone hb]
      rfl

section Runs

variable {run rest : List Char} (hrun : ∀ c ∈ run, isBlank c = false)
  (hrest : ∀ b ∈ rest.head?, isBlank b = true)
include hrun hrest

/-- **A run behind an open step is scanned as it is cut:** its tag goes to that step, and its parts
are steps of their own. -/
theorem scanSteps_run (kind : StepKind) :
    (⟨kind, (scanSteps true (run ++ rest)).1, (scanSteps true (run ++ rest)).2.1⟩ : RawStep) ::
        (scanSteps true (run ++ rest)).2.2 =
      rawCompound (jointBefore rest)
        ((kind, (Compound.ofRun run).tag) :: (Compound.ofRun run).parts) ++ rawSteps rest := by
  induction run generalizing kind with
  | nil =>
      rw [List.nil_append, scanSteps_gap hrest]
      simp [Compound.ofRun, rawCompound]
  | cons c run ih =>
      have hmore := ih fun x hx => hrun x (by simp [hx])
      rcases scan_cases c with ⟨other, hother⟩ | ⟨-, hblank⟩ | hplain
      · rw [List.cons_append, scanSteps_directive hother, Compound.ofRun_directive hother, hmore]
        rfl
      · rw [hrun c (by simp)] at hblank
        cases hblank
      · have hstep := hmore kind
        rw [rawCompound_cons, List.cons_append, List.cons.injEq, RawStep.mk.injEq] at hstep
        obtain ⟨⟨-, hname, hjoint⟩, hsteps⟩ := hstep
        rw [List.cons_append, scanSteps_begun hplain, Compound.ofRun_plain hplain, hname, hjoint,
          hsteps, rawCompound_cons]
        rfl

/-- A run at the start of a text is scanned as its segments. -/
theorem rawSteps_run (hne : run ≠ []) :
    rawSteps (run ++ rest) =
      rawCompound (jointBefore rest) (Compound.ofRun run).segments ++ rawSteps rest := by
  obtain ⟨c, cs, rfl⟩ := List.exists_cons_of_ne_nil hne
  have htail : ∀ x ∈ cs, isBlank x = false := fun x hx => hrun x (by simp [hx])
  rcases scan_cases c with ⟨kind, hkind⟩ | ⟨-, hblank⟩ | hplain
  · rw [List.cons_append, rawSteps, scanSteps_directive hkind, Compound.ofRun_directive hkind]
    exact scanSteps_run htail hrest kind
  · rw [hrun c (by simp)] at hblank
    cases hblank
  · -- the scan of the whole run as if behind a tag that is open but has no character yet
    have hopen := scanSteps_run hrun hrest .tagName
    rw [List.cons_append, scanSteps_begun hplain, Compound.ofRun_plain hplain] at hopen
    rw [List.cons_append, rawSteps, scanSteps_fresh hplain, Compound.ofRun_plain hplain]
    exact hopen

end Runs

/-! ### Linking -/

/-- The segment that a raw step was scanned from. -/
def RawStep.segment (raw : RawStep) : StepKind × List Char :=
  (raw.kind, raw.name)

/-- A segment that passes the check of its step. -/
def ValidSegment (segment : StepKind × List Char) : Prop :=
  if segment.1 = .tagName then isKnownTag (String.ofList segment.2) = true else segment.2 ≠ []

/-- The step that a segment is read as. -/
def segmentStep (segment : StepKind × List Char) : Step :=
  ⟨segment.1, String.ofList
    (if segment.1 = .tagName then segment.2.map Char.toLower else segment.2)⟩

/-- The chain that raw steps are linked to; nothing follows the last of them. -/
def linkedSteps : List RawStep → List (Step × Joint)
  | [] => []
  | [raw] => [(segmentStep raw.segment, .combination)]
  | raw :: next :: rest => (segmentStep raw.segment, raw.joint) :: linkedSteps (next :: rest)

theorem linkedSteps_cons {raws : List RawStep} (h : raws ≠ []) (raw : RawStep) :
    linkedSteps (raw :: raws) = (segmentStep raw.segment, raw.joint) :: linkedSteps raws := by
  obtain ⟨next, rest, rfl⟩ := List.exists_cons_of_ne_nil h
  rw [linkedSteps]

theorem linkedSteps_ne_nil {raws : List RawStep} (h : raws ≠ []) : linkedSteps raws ≠ [] := by
  obtain ⟨raw, rest, rfl⟩ := List.exists_cons_of_ne_nil h
  cases rest <;> simp [linkedSteps]

theorem not_isKnownTag_empty : isKnownTag "" = false := by
  have hnamed : "" ∉ knownTags := by decide +kernel
  rw [isKnownTag, List.any_eq_false]
  intro tag htag hsame
  have hlower : (lower tag).toList = (lower "").toList :=
    congrArg String.toList (beq_iff_eq.1 hsame)
  rw [toList_lower, toList_lower] at hlower
  have hempty : tag.toList = [] := by simpa using hlower
  rw [String.toList_eq_nil_iff.1 hempty] at htag
  exact hnamed htag

theorem ofTag_eq_ok_iff {name : List Char} {step : Step} :
    Step.ofTag (String.ofList name) = .ok step ↔
      isKnownTag (String.ofList name) = true ∧
        step = ⟨.tagName, String.ofList (name.map Char.toLower)⟩ := by
  have hlower : lower (String.ofList name) = String.ofList (name.map Char.toLower) := by
    apply String.toList_injective
    simp
  unfold Step.ofTag
  split
  · rename_i hempty
    rw [String.isEmpty_iff] at hempty
    simp [hempty, not_isKnownTag_empty]
  · split
    · rename_i hknown
      rw [hlower, Except.ok.injEq]
      exact ⟨fun h => ⟨hknown, h.symm⟩, fun h => h.2.symm⟩
    · rename_i hunknown
      exact ⟨fun h => (by cases h), fun h => absurd h.1 hunknown⟩

theorem check_eq_ok_iff {source : String} {raw : RawStep} {step : Step} :
    raw.check source = .ok step ↔ ValidSegment raw.segment ∧ step = segmentStep raw.segment := by
  obtain ⟨kind, name, joint⟩ := raw
  unfold RawStep.check ValidSegment segmentStep RawStep.segment
  split
  · rename_i hkind
    obtain rfl : kind = .tagName := hkind
    exact ofTag_eq_ok_iff
  · rename_i hkind
    have hkind' : kind ≠ .tagName := hkind
    simp only [if_neg hkind']
    by_cases hname : name = []
    · simp [hname]
    · rw [if_neg (by simpa using hname), Except.ok.injEq]
      exact ⟨fun h => ⟨hname, h.symm⟩, fun h => h.2.symm⟩

/-- Raw steps are linked if each of them passes its check. -/
theorem exists_linkSteps_eq_ok_iff {source : String} {raws : List RawStep} :
    (∃ found, linkSteps source raws = .ok found) ↔ ∀ raw ∈ raws, ValidSegment raw.segment := by
  induction raws with
  | nil => exact ⟨fun _ => by simp, fun _ => ⟨none, rfl⟩⟩
  | cons raw rest ih =>
      rw [List.forall_mem_cons, ← ih]
      constructor
      · rintro ⟨found, h⟩
        obtain ⟨tail, htail, h⟩ := bind_eq_ok_iff.1 h
        obtain ⟨head, hhead, -⟩ := bind_eq_ok_iff.1 h
        exact ⟨(check_eq_ok_iff.1 hhead).1, tail, htail⟩
      · rintro ⟨hvalid, tail, htail⟩
        have hhead : raw.check source = .ok (segmentStep raw.segment) :=
          check_eq_ok_iff.2 ⟨hvalid, rfl⟩
        cases tail with
        | none => exact ⟨_, bind_eq_ok_iff.2 ⟨_, htail, bind_eq_ok_iff.2 ⟨_, hhead, rfl⟩⟩⟩
        | some tail => exact ⟨_, bind_eq_ok_iff.2 ⟨_, htail, bind_eq_ok_iff.2 ⟨_, hhead, rfl⟩⟩⟩

/-- What raw steps are linked to; without a step that is nothing. -/
theorem steps_of_linkSteps {source : String} {raws : List RawStep} {found : Option Selector}
    (h : linkSteps source raws = .ok found) : found.elim [] Selector.steps = linkedSteps raws := by
  induction raws generalizing found with
  | nil =>
      cases h
      rfl
  | cons raw rest ih =>
      obtain ⟨tail, htail, h⟩ := bind_eq_ok_iff.1 h
      obtain ⟨head, hhead, h⟩ := bind_eq_ok_iff.1 h
      obtain ⟨-, rfl⟩ := check_eq_ok_iff.1 hhead
      have hrest := ih htail
      cases rest with
      | nil =>
          cases htail
          cases h
          rfl
      | cons next rest =>
          cases tail with
          | none =>
              -- steps that are linked leave something
              cases rest <;> simp [linkedSteps] at hrest
          | some tail =>
              cases h
              rw [linkedSteps, ← hrest]
              rfl

/-! ### Words -/

theorem map_segment_rawCompound (joint : Joint) (segments : List (StepKind × List Char)) :
    (rawCompound joint segments).map RawStep.segment = segments := by
  induction segments with
  | nil => rfl
  | cons segment segments ih =>
      obtain ⟨kind, name⟩ := segment
      rw [rawCompound_cons, List.map_cons, ih]
      rfl

/-- The segments of a run pass their checks exactly if the run keeps to the grammar. -/
theorem valid_segments_iff {run : List Char} (hne : run ≠ []) :
    (∀ segment ∈ (Compound.ofRun run).segments, ValidSegment segment) ↔
      (Compound.ofRun run).WellFormed := by
  have hkinds := (Compound.ofDirective?_of_mem_ofRun run).2
  have hsegments := Compound.segments_ofRun_ne_nil hne
  generalize Compound.ofRun run = compound at hkinds hsegments
  obtain ⟨tag, parts⟩ := compound
  have hnames : (∀ part ∈ parts, ValidSegment part) ↔ ∀ part ∈ parts, part.2 ≠ [] := by
    refine forall₂_congr fun part hpart => ?_
    rw [ValidSegment, if_neg (hkinds part hpart).1]
  cases tag with
  | nil => exact hnames.trans ⟨fun h => ⟨Or.inl ⟨rfl, hsegments⟩, h⟩, fun h => h.parts⟩
  | cons c tag =>
      rw [Compound.segments, List.forall_mem_cons, hnames]
      constructor
      · rintro ⟨hknown, h⟩
        exact ⟨Or.inr hknown, h⟩
      · intro h
        exact ⟨h.tag.resolve_left fun hno => List.cons_ne_nil c tag hno.1, h.parts⟩

/-- The steps of a compound are those that its segments are read as, once its tag is
lower-cased. -/
theorem map_segmentStep (run : List Char) :
    (Compound.ofRun run).segments.map segmentStep = (Compound.ofRun run).lowered.steps := by
  have hkinds := (Compound.ofDirective?_of_mem_ofRun run).2
  generalize Compound.ofRun run = compound at hkinds
  obtain ⟨tag, parts⟩ := compound
  have hnames : parts.map segmentStep =
      parts.map fun part => (⟨part.1, String.ofList part.2⟩ : Step) := by
    refine List.map_congr_left fun part hpart => ?_
    rw [segmentStep, if_neg (hkinds part hpart).1]
  cases tag with
  | nil => exact hnames
  | cons c tag => exact congrArg₂ List.cons rfl hnames

/-- Segments are linked by the joints inside their compound, and the last of them by the joint
behind it if anything follows. -/
theorem linkedSteps_append (joint : Joint) (segments : List (StepKind × List Char))
    (more : List RawStep) :
    linkedSteps (rawCompound joint segments ++ more) =
      joinLast (if more = [] then .combination else joint) (segments.map segmentStep) ++
        linkedSteps more := by
  induction segments with
  | nil => rfl
  | cons segment segments ih =>
      obtain ⟨kind, name⟩ := segment
      cases segments with
      | nil =>
          by_cases hmore : more = []
          · simp [rawCompound, linkedSteps, joinLast, hmore, RawStep.segment]
          · rw [rawCompound, List.singleton_append, linkedSteps_cons hmore, if_neg hmore]
            rfl
      | cons next segments =>
          have hrest : rawCompound joint (next :: segments) ++ more ≠ [] := by
            rw [show next = (next.1, next.2) from rfl, rawCompound_cons]
            exact List.cons_ne_nil _ _
          rw [rawCompound, List.cons_append, linkedSteps_cons hrest, ih]
          rfl

/-- Runs as they are scanned: a gap behind each but the last, and `last` behind that. -/
def rawChain (last : Joint) : List (List Char) → List RawStep
  | [] => []
  | [run] => rawCompound last (Compound.ofRun run).segments
  | run :: next :: rest =>
    rawCompound .descendant (Compound.ofRun run).segments ++ rawChain last (next :: rest)

/-- **A text is scanned word by word.** -/
theorem exists_rawSteps_eq (cs : List Char) : ∃ last, rawSteps cs = rawChain last (words cs) := by
  induction cs using words_induction with
  | nil => exact ⟨.combination, rfl⟩
  | blank b cs hb ih =>
      rw [words_cons_of_isBlank hb, rawSteps, scanSteps_blank (ofDirective?_of_isBlank hb) hb]
      exact ih
  | word run rest hne hrun hrest ih =>
      obtain ⟨last, ih⟩ := ih
      rw [words_append hne hrun hrest, rawSteps_run hrun hrest hne, ih]
      cases hwords : words rest with
      | nil => exact ⟨jointBefore rest, List.append_nil _⟩
      | cons next more =>
          have hgap : jointBefore rest = .descendant := by
            refine if_neg ?_
            rintro rfl
            cases hwords
          exact ⟨last, by rw [hgap, rawChain]⟩

section Chains

variable {runs : List (List Char)} (hruns : ∀ run ∈ runs, run ≠ []) (last : Joint)
include hruns

theorem rawChain_ne_nil (hne : runs ≠ []) : rawChain last runs ≠ [] := by
  have hrun : ∀ {run : List Char} (joint : Joint), run ≠ [] →
      rawCompound joint (Compound.ofRun run).segments ≠ [] := by
    intro run joint hrun hnil
    have hsegments := map_segment_rawCompound joint (Compound.ofRun run).segments
    rw [hnil] at hsegments
    exact Compound.segments_ofRun_ne_nil hrun hsegments.symm
  cases runs with
  | nil => exact absurd rfl hne
  | cons run rest =>
      cases rest with
      | nil => exact hrun last (hruns run (by simp))
      | cons next rest =>
          rw [rawChain]
          exact List.append_ne_nil_of_left_ne_nil (hrun .descendant (hruns run (by simp))) _

theorem valid_rawChain_iff :
    (∀ raw ∈ rawChain last runs, ValidSegment raw.segment) ↔
      ∀ run ∈ runs, (Compound.ofRun run).WellFormed := by
  have hrun : ∀ {run : List Char} (joint : Joint), run ≠ [] →
      ((∀ raw ∈ rawCompound joint (Compound.ofRun run).segments, ValidSegment raw.segment) ↔
        (Compound.ofRun run).WellFormed) := by
    intro run joint hne
    rw [← List.forall_mem_map, map_segment_rawCompound]
    exact valid_segments_iff hne
  induction runs using rawChain.induct with
  | case1 => simp [rawChain]
  | case2 run =>
      rw [rawChain, hrun last (hruns run (by simp))]
      simp
  | case3 run next rest ih =>
      have hmore : _ ↔ _ := ih fun r hr => hruns r (List.mem_cons_of_mem run hr)
      rw [rawChain, List.forall_mem_append, hrun .descendant (hruns run (by simp)), hmore,
        List.forall_mem_cons (l := next :: rest)]

theorem linkedSteps_rawChain :
    linkedSteps (rawChain last runs) =
      chainSteps (runs.map fun run => (Compound.ofRun run).lowered) := by
  induction runs using rawChain.induct with
  | case1 => rfl
  | case2 run =>
      have hsteps := linkedSteps_append last (Compound.ofRun run).segments []
      rw [List.append_nil, if_pos rfl, map_segmentStep] at hsteps
      rw [rawChain, hsteps]
      exact List.append_nil _
  | case3 run next rest ih =>
      have hmore : ∀ r ∈ next :: rest, r ≠ [] := fun r hr => hruns r (by simp [hr])
      rw [rawChain, linkedSteps_append, if_neg (rawChain_ne_nil hmore last (by simp)),
        map_segmentStep, ih hmore]
      rfl

end Chains

/-! ### Reading a text -/

/-- The compounds that the words of a text are cut into, with their tags lower-cased. -/
def compoundsOf (cs : List Char) : List Compound :=
  (words cs).map fun run => (Compound.ofRun run).lowered

/-- **Reading accepts the grammar of selectors, and keeps one spelling of each.**  A text is
accepted if it is not blank, has no character of an unsupported form, and each of its words is a
run of the grammar; the selector is the chain of their compounds, written with one space between
two of them, and that text is read as the same selector. -/
theorem parseSelector_grammar (source : String) :
    ((∃ s, parseSelector source = .ok s) ↔
      (∃ c ∈ source.toList, isBlank c = false) ∧
        (∀ c ∈ source.toList, c ∉ unsupportedCharacters) ∧
          ∀ run ∈ words source.toList, (Compound.ofRun run).WellFormed) ∧
      ∀ s, parseSelector source = .ok s →
        s.steps = chainSteps (compoundsOf source.toList) ∧
          s.text.toList = [' '].intercalate ((compoundsOf source.toList).map Compound.text) ∧
          parseSelector s.text = .ok s ∧
          ∀ other t, parseSelector other = .ok t → (s = t ↔ s.text = t.text) := by
  have hruns : ∀ run ∈ words source.toList, run ≠ [] := fun run hrun => (mem_words hrun).1
  obtain ⟨last, hscan⟩ := exists_rawSteps_eq source.toList
  have hsteps : ∀ s, parseSelector source = .ok s →
      s.steps = chainSteps (compoundsOf source.toList) := by
    intro s hs
    have hlinked := steps_of_linkSteps (parseSelector_eq_ok_iff.1 hs).2
    rwa [hscan, linkedSteps_rawChain hruns last] at hlinked
  refine ⟨⟨?_, ?_⟩, fun s hs => ?_⟩
  · rintro ⟨s, hs⟩
    obtain ⟨hsupported, hlink⟩ := parseSelector_eq_ok_iff.1 hs
    have hvalid := exists_linkSteps_eq_ok_iff.1 ⟨_, hlink⟩
    rw [hscan] at hlink hvalid
    refine ⟨?_, ?_, (valid_rawChain_iff hruns last).1 hvalid⟩
    · by_contra hblank
      have hnone : words source.toList = [] := by
        rw [words_eq_nil_iff]
        intro c hc
        by_contra hc'
        exact hblank ⟨c, hc, by simpa using hc'⟩
      rw [hnone] at hlink
      cases hlink
    · simpa using hsupported
  · rintro ⟨⟨c, hc, hplain⟩, hsupported, hgrammar⟩
    have hne : words source.toList ≠ [] := by
      intro hnone
      rw [words_eq_nil_iff.1 hnone c hc] at hplain
      cases hplain
    obtain ⟨found, hlink⟩ : ∃ found, linkSteps source (rawSteps source.toList) = .ok found := by
      rw [hscan]
      exact exists_linkSteps_eq_ok_iff.2 ((valid_rawChain_iff hruns last).2 hgrammar)
    cases found with
    | none =>
        have hnil := steps_of_linkSteps hlink
        rw [hscan] at hnil
        exact absurd hnil.symm (linkedSteps_ne_nil (rawChain_ne_nil hruns last hne))
    | some s => exact ⟨s, parseSelector_eq_ok_iff.2 ⟨by simpa using hsupported, hlink⟩⟩
  · have hcanon := (canonical_of_parseSelector hs).1
    refine ⟨hsteps s hs, ?_, parseSelector_text hcanon, fun other t ht => ?_⟩
    · rw [toList_text_eq, hsteps s hs, stepsText_chainSteps]
      intro compound hcompound
      obtain ⟨run, hrun, rfl⟩ := List.mem_map.1 hcompound
      rw [← map_segmentStep, Ne, List.map_eq_nil_iff]
      exact Compound.segments_ofRun_ne_nil (hruns run hrun)
    · have htcanon := (canonical_of_parseSelector ht).1
      exact ⟨fun h => by rw [h], text_injective hcanon htcanon⟩

/-- A selector with steps of all kinds, and texts that are none: blank ones, those with a character of
an unsupported form or with a directive that has no name behind it, and a tag that is not known. -/
theorem parseSelector_grammar_spellings :
    let source := "A.B:x\t #c "
    let s : Selector :=
      .chain ⟨.tagName, "a"⟩ .combination <| .chain ⟨.className, "B"⟩ .combination <|
        .chain ⟨.pseudoClass, "x"⟩ .descendant <| .single ⟨.elementId, "c"⟩
    let blank := ["", "\u00a0 "]
    let unsupported := [".a*", ".a>.b", ".a + .b", ".a~.b", ".a[b", ".a]", ".a,.b"]
    let nameless := [".a.", ".a :", "#.a"]
    parseSelector source = .ok s ∧ s.text = "a.B:x #c" ∧
      s.steps = chainSteps (compoundsOf source.toList) ∧
      s.text.toList = [' '].intercalate ((compoundsOf source.toList).map Compound.text) ∧
      parseSelector s.text = .ok s ∧
      (∀ other t, parseSelector other = .ok t → (s = t ↔ s.text = t.text)) ∧
      ∀ other ∈ blank ++ unsupported ++ nameless ++ ["zz"], ¬ ∃ t, parseSelector other = .ok t := by
  intro source s blank unsupported nameless
  have hread : parseSelector source = .ok s := by decide +kernel
  have hblank : ∀ other ∈ blank, allBlank other.toList = true := by decide
  have hunsupported : ∀ other ∈ unsupported,
      other.toList.any (unsupportedCharacters.contains ·) = true := by decide
  have hnameless : ∀ other ∈ nameless, (words other.toList).any (fun run =>
      (Compound.ofRun run).parts.any fun part => part.2.isEmpty) = true := by decide
  have hunknown : isKnownTag "zz" = false := by decide +kernel
  obtain ⟨hsteps, htext, hback, hsame⟩ := (parseSelector_grammar source).2 s hread
  refine ⟨hread, by decide +kernel, hsteps, htext, hback, hsame, fun other hother hex => ?_⟩
  obtain ⟨⟨c, hc, hplain⟩, hsupported, hruns⟩ := (parseSelector_grammar other).1.1 hex
  rw [List.mem_append, List.mem_append, List.mem_append, List.mem_singleton] at hother
  rcases hother with ((hother | hother) | hother) | rfl
  · rw [List.all_eq_true.1 (hblank other hother) c hc] at hplain
    cases hplain
  · obtain ⟨c, hc, hlisted⟩ := List.any_eq_true.1 (hunsupported other hother)
    exact hsupported c hc (List.contains_iff_mem.1 hlisted)
  · obtain ⟨run, hrun, hparts⟩ := List.any_eq_true.1 (hnameless other hother)
    obtain ⟨part, hpart, hnone⟩ := List.any_eq_true.1 hparts
    exact (hruns run hrun).parts part hpart (List.isEmpty_iff.1 hnone)
  · have hrun : (⟨['z', 'z'], []⟩ : Compound).WellFormed := hruns ['z', 'z'] (by decide)
    rcases hrun.tag with ⟨htag, -⟩ | htag
    · cases htag
    · cases hunknown.symm.trans htag

end StyleInliner.Css
