/-
Rules and the texts they are read from.

`Rule.Readable` is what reading guarantees of a rule: its selectors and its
declarations are readable, there is a selector at all, and no brace is left where
it would end the text it stands in.  Printed in either layout, such rules are read
back (`parseBlocks_written`): the texts between the braces are the printed
selectors and declarations with blanks around them, and reading passes over those.

A selector may well hold a closing brace, and a value an opening one, so it matters
which brace is looked for where; `nextBlock_eq_block_iff` says just that.
-/
import StyleInliner.Css.Printer
import StyleInliner.Proofs.Css.Declaration
import StyleInliner.Proofs.Css.Selector

namespace StyleInliner.Css

open StyleInliner.Text

/-- What reading guarantees of a rule. -/
structure Rule.Readable (rule : Rule) : Prop where
  selectors_ne : rule.selectors ≠ []
  canonical : ∀ s ∈ rule.selectors, s.Canonical
  /-- No brace in the selectors ends their text. -/
  selectors_plain : ∀ s ∈ rule.selectors, '\x7b' ∉ s.text.toList
  readable : ∀ d ∈ rule.declarations, d.Readable
  /-- No brace in the declarations ends their text. -/
  declarations_plain : ∀ d ∈ rule.declarations,
    '\x7d' ∉ d.property.toList ∧ '\x7d' ∉ d.value.toList

/-! ### Lists of selectors -/

/-- The texts of the selectors in a list. -/
def selectorPieces (cs : List Char) : List (List Char) :=
  ((splitAt ',' cs).map trim).filter (!·.isEmpty)

theorem selectorPieces_append (a b : List Char) :
    selectorPieces (a ++ ',' :: b) = selectorPieces a ++ selectorPieces b := by
  simp [selectorPieces, splitAt_append]

theorem selectorPieces_of_notMem {cs : List Char} (h : ',' ∉ cs) :
    selectorPieces cs = if trim cs = [] then [] else [trim cs] := by
  rw [selectorPieces, splitAt_of_notMem h]
  by_cases hne : trim cs = [] <;> simp [hne]

theorem mem_of_mem_selectorPieces {cs piece : List Char} (h : piece ∈ selectorPieces cs) :
    ∀ c ∈ piece, c ∈ cs := by
  obtain ⟨whole, hwhole, rfl⟩ := List.mem_map.1 (List.mem_filter.1 h).1
  exact fun c hc => (mem_of_mem_splitAt hwhole c (mem_of_mem_trim hc)).1

theorem parseSelectors_eq_ok_iff {source : String} {selectors : List Selector} :
    parseSelectors source = .ok selectors ↔
      selectors ≠ [] ∧
        (selectorPieces source.toList).mapM (parseSelector <| String.ofList ·) = .ok selectors := by
  rw [show parseSelectors source = (do
    let selectors ← (selectorPieces source.toList).mapM (parseSelector <| String.ofList ·)
    if selectors.isEmpty then throw .emptySelector
    return selectors) from rfl]
  cases (selectorPieces source.toList).mapM (parseSelector <| String.ofList ·) with
  | error e => simp [bind, Except.bind]
  | ok found =>
      cases found with
      | nil =>
          constructor
          · intro h
            cases h
          · rintro ⟨hne, h⟩
            exact absurd (Except.ok.inj h).symm hne
      | cons s more =>
          constructor
          · intro h
            obtain rfl := Except.ok.inj h
            exact ⟨by simp, rfl⟩
          · rintro ⟨-, h⟩
            exact h

/-- Selectors as they are written in a list. -/
def selectorsText (selectors : List Selector) : List Char :=
  [',', ' '].intercalate (selectors.map (·.text.toList))

theorem toList_selectorText (rule : Rule) :
    rule.selectorText.toList = selectorsText rule.selectors := by
  rw [Rule.selectorText, String.toList_intercalate, List.map_map]
  rfl

theorem selectorsText_cons_cons (s t : Selector) (more : List Selector) :
    selectorsText (s :: t :: more) = s.text.toList ++ [',', ' '] ++ selectorsText (t :: more) := by
  simp [selectorsText]

@[simp] theorem selectorsText_singleton (s : Selector) : selectorsText [s] = s.text.toList := by
  simp [selectorsText]

theorem comma_notMem_text {s : Selector} (hs : s.Canonical) : ',' ∉ s.text.toList := fun hm =>
  absurd (unsupported_notMem_text hs ',' hm) (by decide)

theorem star_notMem_text {s : Selector} (hs : s.Canonical) : '*' ∉ s.text.toList := fun hm =>
  absurd (unsupported_notMem_text hs '*' hm) (by decide)

theorem selectorPieces_text {s : Selector} (hs : s.Canonical) {l : List Char}
    (hl : allBlank l = true) : selectorPieces (l ++ s.text.toList) = [s.text.toList] := by
  have hcomma : ',' ∉ l ++ s.text.toList := by
    have hblank : ',' ∉ l := fun hm => absurd (List.all_eq_true.1 hl _ hm) (by decide)
    simp [hblank, comma_notMem_text hs]
  have htrim := trim_append_append (l := l) (t := s.text.toList) (r := []) hl rfl
  rw [List.append_nil, trim_of_trimmed (trimmed_text hs)] at htrim
  rw [selectorPieces_of_notMem hcomma, htrim, if_neg (text_ne_nil hs)]

/-- Written selectors are read back. -/
theorem mapM_selectorPieces_text {selectors : List Selector}
    (hcanon : ∀ s ∈ selectors, s.Canonical) {l : List Char} (hl : allBlank l = true) :
    (selectorPieces (l ++ selectorsText selectors)).mapM (parseSelector <| String.ofList ·)
      = .ok selectors := by
  have hread : ∀ s : Selector, s.Canonical →
      parseSelector (String.ofList s.text.toList) = .ok s := fun s hs => by
    rw [String.ofList_toList, parseSelector_text hs]
  induction selectors generalizing l with
  | nil =>
      have hcomma : ',' ∉ l := fun hm => absurd (List.all_eq_true.1 hl _ hm) (by decide)
      rw [show selectorsText [] = [] from rfl, List.append_nil, selectorPieces_of_notMem hcomma,
        if_pos (trim_eq_nil_iff.2 hl)]
      rfl
  | cons s selectors ih =>
      have hs := hcanon s (by simp)
      cases selectors with
      | nil =>
          rw [selectorsText_singleton, selectorPieces_text hs hl, List.mapM_cons, hread s hs]
          rfl
      | cons t more =>
          have hrest := ih (fun u hu => hcanon u (by simp [hu])) (l := [' ']) rfl
          rw [selectorsText_cons_cons, List.append_assoc, ← List.append_assoc, List.cons_append,
            selectorPieces_append, selectorPieces_text hs hl, List.singleton_append,
            List.mapM_cons, hread s hs, hrest]
          rfl

theorem mem_selectorsText {selectors : List Selector} {c : Char}
    (hc : c ∈ selectorsText selectors) :
    c = ',' ∨ c = ' ' ∨ ∃ s ∈ selectors, c ∈ s.text.toList := by
  induction selectors with
  | nil => simp [selectorsText] at hc
  | cons s selectors ih =>
      cases selectors with
      | nil => exact Or.inr (Or.inr ⟨s, by simp, by simpa using hc⟩)
      | cons t more =>
          rw [selectorsText_cons_cons, List.mem_append, List.mem_append] at hc
          rcases hc with (hc | hc) | hc
          · exact Or.inr (Or.inr ⟨s, by simp, hc⟩)
          · simp only [List.mem_cons, List.not_mem_nil, or_false] at hc
            tauto
          · rcases ih hc with hc | hc | ⟨u, hu, hc⟩
            · exact Or.inl hc
            · exact Or.inr (Or.inl hc)
            · exact Or.inr (Or.inr ⟨u, List.mem_cons_of_mem s hu, hc⟩)

theorem infix_selectorsText {selectors : List Selector} {s : Selector} (hs : s ∈ selectors) :
    s.text.toList <:+: selectorsText selectors := by
  induction selectors with
  | nil => cases hs
  | cons t more ih =>
      cases more with
      | nil =>
          obtain rfl := List.mem_singleton.1 hs
          simp
      | cons u more =>
          rw [selectorsText_cons_cons]
          rcases List.mem_cons.1 hs with rfl | hs
          · exact ((List.prefix_append _ _).trans (List.prefix_append _ _)).isInfix
          · exact (ih hs).trans (List.suffix_append _ _).isInfix

theorem selectorsText_ne_nil {selectors : List Selector} (hcanon : ∀ s ∈ selectors, s.Canonical)
    (hne : selectors ≠ []) : selectorsText selectors ≠ [] := by
  obtain ⟨s, more, rfl⟩ := List.exists_cons_of_ne_nil hne
  have hs := text_ne_nil (hcanon s (by simp))
  cases more <;> simp [selectorsText, hs]

theorem trimmed_selectorsText {selectors : List Selector}
    (hcanon : ∀ s ∈ selectors, s.Canonical) : Trimmed (selectorsText selectors) := by
  induction selectors with
  | nil => exact trimmed_of_forall (by simp [selectorsText])
  | cons s selectors ih =>
      have hs := hcanon s (by simp)
      have hmore : ∀ t ∈ selectors, t.Canonical := fun t ht => hcanon t (by simp [ht])
      cases selectors with
      | nil =>
          rw [selectorsText_singleton]
          exact trimmed_text hs
      | cons t more =>
          rw [selectorsText_cons_cons]
          exact (trimmed_text hs).append (ih hmore) (text_ne_nil hs)
            (selectorsText_ne_nil hmore (by simp))

/-- Selectors are read back from their text, with whatever blanks behind it. -/
theorem parseSelectors_written {selectors : List Selector} (hne : selectors ≠ [])
    (hcanon : ∀ s ∈ selectors, s.Canonical) {r : List Char} (hr : allBlank r = true) :
    parseSelectors (String.ofList (trim (selectorsText selectors ++ r))) = .ok selectors := by
  have htrim := trim_append_append (l := []) (t := selectorsText selectors) rfl hr
  rw [List.nil_append, trim_of_trimmed (trimmed_selectorsText hcanon)] at htrim
  rw [htrim, parseSelectors_eq_ok_iff, String.toList_ofList]
  exact ⟨hne, mapM_selectorPieces_text hcanon (l := []) rfl⟩

theorem head_selectorsText {selectors : List Selector} (hcanon : ∀ s ∈ selectors, s.Canonical) :
    ∀ c ∈ (selectorsText selectors).head?, isBlank c = false ∧ c ≠ '\x7d' := by
  intro c hc
  refine ⟨(trimmed_selectorsText hcanon).1 c hc, ?_⟩
  cases selectors with
  | nil => simp [selectorsText] at hc
  | cons s selectors =>
      have hs := hcanon s (by simp)
      refine (head_text hs c ?_).2
      cases selectors with
      | nil => rwa [selectorsText_singleton] at hc
      | cons t more =>
          rwa [selectorsText_cons_cons, List.append_assoc,
            List.head?_append_of_ne_nil _ (text_ne_nil hs)] at hc

/-! ### Blocks -/

/-- Where a block stands: its selectors end at the first opening brace, its declarations at the
first closing one behind that. -/
theorem nextBlock_eq_block_iff {cs s d rest : List Char} :
    nextBlock cs = .block s d rest ↔
      ∃ l, allBlank l = true ∧ cs = l ++ (s ++ '\x7b' :: (d ++ '\x7d' :: rest)) ∧
        s ≠ [] ∧ (∀ c ∈ s.head?, isBlank c = false ∧ c ≠ '\x7d') ∧ '\x7b' ∉ s ∧ '\x7d' ∉ d := by
  constructor
  · intro h
    obtain ⟨l, hl, hcs⟩ := exists_eq_trimStart cs
    unfold nextBlock at h
    split at h
    · cases h
    · rename_i c tail htrim
      have hblank : isBlank c = false := head_trimStart (t := cs) (by simp [htrim])
      split at h
      · cases h
      · rename_i hbrace
        rw [not_or] at hbrace
        split at h
        · cases h
        · rename_i body hbody
          obtain ⟨htail, hopen⟩ := eq_append_of_dropWhile_ne hbody
          split at h
          · cases h
          · rename_i after hafter
            obtain ⟨hdecl, hclose⟩ := eq_append_of_dropWhile_ne hafter
            simp only [NextBlock.block.injEq] at h
            obtain ⟨rfl, rfl, rfl⟩ := h
            refine ⟨l, hl, ?_, by simp, ?_, ?_, hclose⟩
            · rw [← hdecl, List.cons_append, ← htail, ← htrim]
              exact hcs
            · intro x hx
              obtain rfl : c = x := by simpa using hx
              exact ⟨hblank, hbrace.2⟩
            · rw [List.mem_cons, not_or]
              exact ⟨Ne.symm hbrace.1, hopen⟩
  · rintro ⟨l, hl, rfl, hne, hhead, hopen, hclose⟩
    obtain ⟨c, s, rfl⟩ := List.exists_cons_of_ne_nil hne
    obtain ⟨hblank, hbrace⟩ := hhead c rfl
    have hstart : trimStart (l ++ (c :: s ++ '\x7b' :: (d ++ '\x7d' :: rest)))
        = c :: (s ++ '\x7b' :: (d ++ '\x7d' :: rest)) := by
      rw [trimStart_append hl]
      simp [trimStart, hblank]
    rw [List.mem_cons, not_or] at hopen
    obtain ⟨htake, hdrop⟩ := cut_append (d ++ '\x7d' :: rest) hopen.2
    obtain ⟨htake', hdrop'⟩ := cut_append rest hclose
    unfold nextBlock
    rw [hstart]
    simp only [Ne.symm hopen.1, hbrace, or_self, if_false, htake, hdrop, htake', hdrop']

theorem parseBlock_eq_ok_iff {selectors declarations : String} {rule : Rule} :
    parseBlock selectors declarations = .ok rule ↔
      parseSelectors selectors = .ok rule.selectors ∧
        parseDeclarations declarations = .ok rule.declarations := by
  obtain ⟨ss, ds⟩ := rule
  rw [parseBlock, bind_eq_ok_iff]
  constructor
  · rintro ⟨ss', hss, h⟩
    obtain ⟨ds', hds, h⟩ := bind_eq_ok_iff.1 h
    cases h
    exact ⟨mapError_eq_ok_iff.1 hss, mapError_eq_ok_iff.1 hds⟩
  · rintro ⟨hss, hds⟩
    exact ⟨ss, mapError_eq_ok_iff.2 hss, bind_eq_ok_iff.2 ⟨ds, mapError_eq_ok_iff.2 hds, rfl⟩⟩

theorem parseBlocks_of_block {cs s d rest : List Char} (h : nextBlock cs = .block s d rest) :
    parseBlocks cs = (do
      let rule ← parseBlock (String.ofList (trim s)) (String.ofList (trim d))
      return rule :: (← parseBlocks rest)) := by
  rw [parseBlocks]
  split <;> simp_all

/-- What a text holds that was read: nothing more, or a block and what follows it. -/
theorem parseBlocks_cases {cs : List Char} {rules : List Rule} (h : parseBlocks cs = .ok rules) :
    rules = [] ∨ ∃ s d rest rule more, nextBlock cs = .block s d rest ∧
      parseSelectors (String.ofList (trim s)) = .ok rule.selectors ∧
      parseDeclarations (String.ofList d) = .ok rule.declarations ∧
      parseBlocks rest = .ok more ∧ rules = rule :: more := by
  cases hnext : nextBlock cs with
  | nothing =>
      rw [parseBlocks] at h
      split at h
      · exact Or.inl (Except.ok.inj h).symm
      · simp_all
      · simp_all
  | stray bracket =>
      rw [parseBlocks] at h
      split at h
      · simp_all
      · cases h
      · simp_all
  | block s d rest =>
      rw [parseBlocks_of_block hnext] at h
      obtain ⟨rule, hrule, h⟩ := bind_eq_ok_iff.1 h
      obtain ⟨more, hmore, h⟩ := bind_eq_ok_iff.1 h
      obtain ⟨hselectors, hdeclarations⟩ := parseBlock_eq_ok_iff.1 hrule
      have htrim := parseDeclarations_trim (String.ofList d)
      rw [trimString, String.toList_ofList] at htrim
      rw [htrim] at hdeclarations
      exact Or.inr ⟨s, d, rest, rule, more, rfl, hselectors, hdeclarations, hmore,
        (Except.ok.inj h).symm⟩

/-- Rules that were read are readable. -/
theorem readable_of_parseBlocks {cs : List Char} {rules : List Rule}
    (h : parseBlocks cs = .ok rules) : ∀ rule ∈ rules, rule.Readable := by
  induction rules generalizing cs with
  | nil => simp
  | cons rule rules ih =>
      rcases parseBlocks_cases h with hnil | ⟨s, d, rest, _, _, hnext, hss, hds, hrest, heq⟩
      · cases hnil
      obtain ⟨rfl, rfl⟩ := List.cons.inj heq
      obtain ⟨l, -, -, -, -, hopen, hclose⟩ := nextBlock_eq_block_iff.1 hnext
      obtain ⟨hne, hread⟩ := parseSelectors_eq_ok_iff.1 hss
      rw [String.toList_ofList] at hread
      intro found hfound
      rcases List.mem_cons.1 hfound with rfl | hfound
      · refine ⟨hne, ?_, ?_, readable_of_parseDeclarations hds, ?_⟩
        · intro selector hs
          obtain ⟨piece, -, hpiece⟩ := exists_of_mem_mapM hread hs
          exact (canonical_of_parseSelector hpiece).1
        · intro selector hs
          obtain ⟨piece, hmem, hpiece⟩ := exists_of_mem_mapM hread hs
          refine brace_notMem_of_parseSelector hpiece ?_
          rw [String.toList_ofList]
          exact fun hm => hopen (mem_of_mem_trim (mem_of_mem_selectorPieces hmem _ hm))
        · exact notMem_of_parseDeclarations hds (by decide) (by rwa [String.toList_ofList])
      · exact ih hrest found hfound

/-! ### Layouts -/

namespace Layout

/-- What stands before the opening and behind the closing brace. -/
def gap : Layout → Char
  | compact => ' '
  | pretty => '\n'

/-- What stands before each declaration. -/
def indent : Layout → List Char
  | compact => []
  | pretty => ['\t']

/-- What stands behind the opening brace and behind each declaration. -/
def lineEnd : Layout → List Char
  | compact => []
  | pretty => ['\n']

theorem toList_declarations (layout : Layout) (ds : List Declaration) :
    (layout.declarations ds).toList =
      ds.flatMap fun d => layout.indent ++ d.text.toList ++ layout.lineEnd := by
  rw [declarations, String.toList_join, List.flatMap_map]
  cases layout <;> simp [declaration, indent, lineEnd]

theorem allBlank_gap (layout : Layout) : allBlank [layout.gap] = true := by
  cases layout <;> rfl

theorem allBlank_indent (layout : Layout) : allBlank layout.indent = true := by
  cases layout <;> rfl

theorem allBlank_lineEnd (layout : Layout) : allBlank layout.lineEnd = true := by
  cases layout <;> rfl

/-- Printed declarations are read back. -/
theorem parseDeclarations_text (layout : Layout) {ds : List Declaration}
    (hds : ∀ d ∈ ds, d.Readable) : parseDeclarations (layout.declarations ds) = .ok ds := by
  rw [← String.ofList_toList (s := layout.declarations ds), toList_declarations]
  exact parseDeclarations_written hds layout.allBlank_indent layout.allBlank_lineEnd

/-- So they are behind the opening brace. -/
theorem parseDeclarations_declarations (layout : Layout) {ds : List Declaration}
    (hds : ∀ d ∈ ds, d.Readable) :
    parseDeclarations (String.ofList (layout.lineEnd ++ (layout.declarations ds).toList))
      = .ok ds := by
  have hpad := parseDeclarations_pad (layout.declarations ds).toList layout.allBlank_lineEnd
    (r := []) rfl
  rw [List.append_nil, String.ofList_toList] at hpad
  rw [hpad, layout.parseDeclarations_text hds]

/-- Printing declarations brings in no closing brace. -/
theorem brace_notMem_declarations (layout : Layout) {ds : List Declaration}
    (hds : ∀ d ∈ ds, '\x7d' ∉ d.property.toList ∧ '\x7d' ∉ d.value.toList) :
    '\x7d' ∉ layout.lineEnd ++ (layout.declarations ds).toList := by
  have hblank : ∀ {l : List Char}, allBlank l = true → '\x7d' ∉ l := fun hl hm =>
    absurd (List.all_eq_true.1 hl _ hm) (by decide)
  rw [toList_declarations, List.mem_append, List.mem_flatMap]
  rintro (hm | ⟨d, hd, hm⟩)
  · exact hblank layout.allBlank_lineEnd hm
  · rcases List.mem_append.1 hm with hm | hm
    · rcases List.mem_append.1 hm with hm | hm
      · exact hblank layout.allBlank_indent hm
      · simp [Declaration.toList_text, hds d hd] at hm
    · exact hblank layout.allBlank_lineEnd hm

theorem toList_block (layout : Layout) (selectors : String) (ds : List Declaration) :
    (layout.block selectors ds).toList =
      (selectors.toList ++ [layout.gap]) ++ '\x7b' ::
        ((layout.lineEnd ++ (layout.declarations ds).toList) ++ '\x7d' :: [layout.gap]) := by
  cases layout <;> simp [block, gap, lineEnd]

theorem toList_rules_cons (layout : Layout) (rule : Rule) (rules : List Rule) :
    (layout.rules (rule :: rules)).toList =
      (selectorsText rule.selectors ++ [layout.gap]) ++ '\x7b' ::
        ((layout.lineEnd ++ (layout.declarations rule.declarations).toList) ++ '\x7d' ::
          layout.gap :: (layout.rules rules).toList) := by
  rw [Layout.rules, List.map_cons, String.join_cons, String.toList_append, toList_block,
    toList_selectorText]
  simp [Layout.rules]

end Layout

/-- **Printed rules are read back,** whatever blanks come first. -/
theorem parseBlocks_written {rules : List Rule} (hrules : ∀ rule ∈ rules, rule.Readable)
    (layout : Layout) {l : List Char} (hl : allBlank l = true) :
    parseBlocks (l ++ (layout.rules rules).toList) = .ok rules := by
  induction rules generalizing l with
  | nil =>
      have hnext : nextBlock (l ++ (layout.rules []).toList) = .nothing := by
        rw [show (layout.rules []).toList = [] by simp [Layout.rules], List.append_nil, nextBlock,
          trimStart_eq_nil hl]
      rw [parseBlocks]
      split <;> simp_all
  | cons rule rules ih =>
      have hrule := hrules rule (by simp)
      have hne := selectorsText_ne_nil hrule.canonical hrule.selectors_ne
      have hnext : nextBlock (l ++ (layout.rules (rule :: rules)).toList) = .block
          (selectorsText rule.selectors ++ [layout.gap])
          (layout.lineEnd ++ (layout.declarations rule.declarations).toList)
          (layout.gap :: (layout.rules rules).toList) := by
        refine nextBlock_eq_block_iff.2 ⟨l, hl, ?_, by simp, ?_, ?_,
          layout.brace_notMem_declarations hrule.declarations_plain⟩
        · rw [Layout.toList_rules_cons]
        · rw [List.head?_append_of_ne_nil _ hne]
          exact head_selectorsText hrule.canonical
        · rw [List.mem_append, not_or]
          refine ⟨fun hm => ?_, by cases layout <;> decide⟩
          rcases mem_selectorsText hm with hc | hc | ⟨s, hs, hm⟩
          · exact absurd hc (by decide)
          · exact absurd hc (by decide)
          · exact hrule.selectors_plain s hs hm
      have hblock : parseBlock
          (String.ofList (trim (selectorsText rule.selectors ++ [layout.gap])))
          (String.ofList (trim (layout.lineEnd ++
            (layout.declarations rule.declarations).toList))) = .ok rule := by
        have htrim := parseDeclarations_trim (String.ofList (layout.lineEnd ++
          (layout.declarations rule.declarations).toList))
        rw [trimString, String.toList_ofList] at htrim
        rw [parseBlock_eq_ok_iff, htrim]
        exact ⟨parseSelectors_written hrule.selectors_ne hrule.canonical layout.allBlank_gap,
          layout.parseDeclarations_declarations hrule.readable⟩
      have hrest := ih (fun r hr => hrules r (by simp [hr])) layout.allBlank_gap
      rw [List.singleton_append] at hrest
      rw [parseBlocks_of_block hnext, hblock, hrest]
      rfl

end StyleInliner.Css
