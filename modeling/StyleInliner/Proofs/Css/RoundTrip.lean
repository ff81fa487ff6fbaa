/-
Rules are read back from what they are printed as.

The printed text is read like any other, so its comments are taken out first, and
what has to be shown is that there are none.  That is not so of printed text in
general: a value may hold a slash and a star, and it is the text the rules were
read from that has no closing pair behind them.  Printing is therefore compared
with that text: `excerpt_of_parseBlocks` says that it is an excerpt of it, and an
excerpt of a text free of comments is free of them.

The parts are compared in the order of reading, each piece with the part of the
text it was read from; where two of them meet, printing puts a separator of its
own, so nothing is said about what comes before or after.
-/
import StyleInliner.Proofs.Css.Comment
import StyleInliner.Proofs.Css.Rule

namespace StyleInliner.Css

open StyleInliner.Text

/-! ### Selectors -/

/-- What is written behind a step joined to others this way. -/
def writtenBehind (joint : Joint) : List RawStep → List Char
  | [] => []
  | step :: rest => joint.text.toList ++ writtenSteps (step :: rest)

theorem writtenSteps_cons (step : RawStep) (rest : List RawStep) :
    writtenSteps (step :: rest) = step.written ++ writtenBehind step.joint rest := by
  cases rest <;> simp [writtenSteps, writtenBehind]

theorem writtenBehind_combination (steps : List RawStep) :
    writtenBehind .combination steps = writtenSteps steps := by
  cases steps <;> simp [writtenSteps, writtenBehind, Joint.text]

/-- The steps scanned from a text are an excerpt of it, as they are written.  The second half is
about the rest of a name, whose first characters are written already. -/
theorem excerpt_scanSteps (cs : List Char) :
    (∀ w, Marks w → Excerpt false cs (w ++ writtenSteps (scanSteps false cs).2.2)) ∧
      ∀ k : Char → Char, (∀ c, k c = c ∨ k c = c.toLower) →
        Excerpt true cs ((scanSteps true cs).1.map k ++
          writtenBehind (scanSteps true cs).2.1 (scanSteps true cs).2.2) := by
  have hid : ∀ c : Char, id c = c ∨ id c = c.toLower := fun c => Or.inl rfl
  induction cs with
  | nil =>
      constructor
      · intro w hw
        exact Excerpt.mark_append hw Excerpt.stop
      · intro k hk
        exact Excerpt.stop
  | cons c cs ih =>
      obtain ⟨hfresh, hbegun⟩ := ih
      rcases scan_cases c with ⟨kind, hkind⟩ | ⟨hnone, hblank⟩ | hplain
      · -- the directive character and all that follows it are kept
        have hstep := Excerpt.keep (c := c) (Or.inl rfl) (hbegun id hid)
        have hwritten : writtenSteps (scanSteps false (c :: cs)).2.2 = c ::
            ((scanSteps true cs).1.map id ++
              writtenBehind (scanSteps true cs).2.1 (scanSteps true cs).2.2) := by
          rw [scanSteps_directive hkind, writtenSteps_cons]
          simp [RawStep.written, ofDirective?_eq_some_iff.1 hkind, ofDirective?_ne_tagName hkind]
        constructor
        · intro w hw
          rw [hwritten]
          exact Excerpt.mark_append hw hstep
        · intro k hk
          rw [scanSteps_directive hkind] at hwritten ⊢
          rw [writtenBehind_combination, List.map_nil, List.nil_append, hwritten]
          exact hstep
      · constructor
        · intro w hw
          rw [scanSteps_blank hnone hblank]
          exact Excerpt.skip (hfresh w hw)
        · intro k hk
          rw [scanSteps_blank hnone hblank]
          have hgap := hfresh [' '] (by decide)
          cases hsteps : (scanSteps false cs).2.2 with
          | nil => exact Excerpt.stop
          | cons step rest =>
              rw [hsteps] at hgap
              refine Excerpt.skip ?_
              simpa [writtenBehind, Joint.text] using hgap
      · constructor
        · intro w hw
          have hlower := Excerpt.keep (c := c) (Or.inr rfl)
            (hbegun Char.toLower fun c => Or.inr rfl)
          rw [scanSteps_fresh hplain, writtenSteps_cons]
          simpa [RawStep.written, StepKind.directive?] using Excerpt.mark_append hw hlower
        · intro k hk
          rw [scanSteps_begun hplain]
          exact Excerpt.keep (hk c) (hbegun k hk)

theorem excerpt_of_parseSelector {cs : List Char} {s : Selector}
    (h : parseSelector (String.ofList cs) = .ok s) {w : List Char} (hw : Marks w) :
    Excerpt false cs (w ++ s.text.toList) := by
  have htext := (canonical_of_parseSelector h).2
  rw [String.toList_ofList] at htext
  rw [htext]
  exact (excerpt_scanSteps cs).1 w hw

/-- Selectors of a list, written behind one another, with a separator in front of what follows. -/
theorem excerpt_of_mapM_selectorPieces {cs : List Char} {selectors : List Selector}
    (h : (selectorPieces cs).mapM (parseSelector <| String.ofList ·) = .ok selectors)
    {w : List Char} (hw : Marks w) : Excerpt false cs (w ++ selectorsText selectors) := by
  -- a piece holds one selector, or none if it is blank
  have hpiece : ∀ {piece : List Char} {found : List Selector} {w : List Char}, ',' ∉ piece →
      (selectorPieces piece).mapM (parseSelector <| String.ofList ·) = .ok found → Marks w →
      found = [] ∨ ∃ s, found = [s] ∧ Excerpt false piece (w ++ s.text.toList) := by
    intro piece found w hcomma hread hw
    rw [selectorPieces_of_notMem hcomma] at hread
    split at hread
    · exact Or.inl (Except.ok.inj hread).symm
    · rw [List.mapM_cons] at hread
      obtain ⟨s, hs, hread⟩ := bind_eq_ok_iff.1 hread
      exact Or.inr ⟨s, (Except.ok.inj hread).symm, (excerpt_of_parseSelector hs hw).of_trim⟩
  induction cs using pieces_induction ',' generalizing selectors w with
  | last cs hcomma =>
      rcases hpiece hcomma h hw with rfl | ⟨s, rfl, hs⟩
      · exact Excerpt.mark_append hw Excerpt.stop
      · rwa [selectorsText_singleton]
  | more piece rest hcomma ih =>
      rw [selectorPieces_append, List.mapM_append] at h
      obtain ⟨found, hfound, h⟩ := bind_eq_ok_iff.1 h
      obtain ⟨more, hmore, h⟩ := bind_eq_ok_iff.1 h
      obtain rfl := Except.ok.inj h
      rcases hpiece hcomma hfound hw with rfl | ⟨s, rfl, hs⟩
      · exact Excerpt.skip_append piece (Excerpt.skip (ih hmore hw))
      · cases more with
        | nil =>
            rw [List.append_nil, selectorsText_singleton]
            have hstop : Excerpt false (',' :: rest) [] := Excerpt.stop
            simpa using hs.append hstop
        | cons t more =>
            rw [List.singleton_append, selectorsText_cons_cons, List.append_assoc,
              ← List.append_assoc]
            exact hs.append (Excerpt.skip (ih hmore (by decide)))

/-! ### Declarations -/

theorem excerpt_of_parseDeclaration {cs : List Char} {d : Declaration} (hcs : ';' ∉ cs)
    (h : parseDeclaration (String.ofList cs) = .ok d) {w : List Char} (hw : Marks w) :
    Excerpt false cs (w ++ (d.property.toList ++ ':' :: d.value.toList)) := by
  obtain ⟨p, v, rfl, -, -, rfl⟩ := parseDeclaration_eq_ok_iff.1 h
  have hvalue : ';' ∉ trim v := fun hm => hcs (by simp [mem_of_mem_trim hm])
  have hleft : Excerpt false p (w ++ (trim p).map Char.toLower) :=
    Excerpt.trim_map (fun c => Or.inr rfl) hw p
  have hright : Excerpt false v ([':'] ++ (trim v).map id) :=
    Excerpt.trim_map (fun c => Or.inl rfl) (by decide) v
  rw [List.map_id, List.singleton_append] at hright
  rw [dropSemicolon_of_notMem hvalue, toList_lower, String.toList_ofList, String.toList_ofList,
    ← List.append_assoc]
  exact hleft.append (Excerpt.skip hright)

/-- Declarations of a block, each between neutral characters. -/
theorem excerpt_of_parseDeclarations {cs : List Char} {ds : List Declaration}
    (h : parseDeclarations (String.ofList cs) = .ok ds) {l r w : List Char}
    (hl : ∀ c ∈ l, Neutral c) (hr : ∀ c ∈ r, Neutral c) (hw : Marks w) :
    Excerpt false cs (w ++ ds.flatMap fun d => l ++ d.text.toList ++ r) := by
  -- a piece holds one declaration, or none if it is blank
  have hpiece : ∀ {piece : List Char} {found : List Declaration} {w : List Char}, ';' ∉ piece →
      parseDeclarations (String.ofList piece) = .ok found → Marks w →
      found = [] ∨ ∃ d, found = [d] ∧
        Excerpt false piece ((w ++ l) ++ (d.property.toList ++ ':' :: d.value.toList)) := by
    intro piece found w hsemi hread hw
    rw [parseDeclarations_of_notMem hsemi] at hread
    split at hread
    · exact Or.inl (Except.ok.inj hread).symm
    · obtain ⟨d, hd, rfl⟩ := map_eq_ok_iff.1 hread
      exact Or.inr ⟨d, rfl, excerpt_of_parseDeclaration hsemi hd (hw.append hl)⟩
  have hbehind : Marks (';' :: r) := Marks.append (w := [';']) (by decide) hr
  have hsplit : ∀ (d : Declaration) (w out : List Char),
      w ++ (l ++ d.text.toList ++ r ++ out) =
        ((w ++ l) ++ (d.property.toList ++ ':' :: d.value.toList)) ++ (';' :: r ++ out) := by
    intro d w out
    simp [Declaration.toList_text]
  induction cs using pieces_induction ';' generalizing ds w with
  | last cs hsemi =>
      rcases hpiece hsemi h hw with rfl | ⟨d, rfl, hd⟩
      · exact Excerpt.mark_append hw Excerpt.stop
      · rw [List.flatMap_cons, hsplit]
        have hend : Excerpt false [] (';' :: r ++ []) := Excerpt.mark_append hbehind Excerpt.stop
        have hlast := hd.append hend
        rwa [List.append_nil] at hlast
  | more piece rest hsemi ih =>
      rw [parseDeclarations_append] at h
      obtain ⟨found, hfound, h⟩ := bind_eq_ok_iff.1 h
      obtain ⟨more, hmore, h⟩ := bind_eq_ok_iff.1 h
      obtain rfl := Except.ok.inj h
      rcases hpiece hsemi hfound hw with rfl | ⟨d, rfl, hd⟩
      · exact Excerpt.skip_append piece (Excerpt.skip (ih hmore hw))
      · rw [List.singleton_append, List.flatMap_cons, hsplit]
        exact hd.append (Excerpt.skip (ih hmore hbehind))

/-! ### Rules -/

namespace Layout

theorem neutral_gap (layout : Layout) : Neutral layout.gap := by
  cases layout <;> decide

theorem neutral_indent (layout : Layout) : ∀ c ∈ layout.indent, Neutral c := by
  cases layout <;> simp [indent, Neutral]

theorem neutral_lineEnd (layout : Layout) : ∀ c ∈ layout.lineEnd, Neutral c := by
  cases layout <;> simp [lineEnd, Neutral]

end Layout

/-- Printed rules are an excerpt of the text they were read from. -/
theorem excerpt_of_parseBlocks {cs : List Char} {rules : List Rule}
    (h : parseBlocks cs = .ok rules) (layout : Layout) {w : List Char} (hw : Marks w) :
    Excerpt false cs (w ++ (layout.rules rules).toList) := by
  have hopen : Marks (layout.gap :: '\x7b' :: layout.lineEnd) := by cases layout <;> decide
  have hclose : Marks ['\x7d', layout.gap] := by cases layout <;> decide
  induction rules generalizing cs w with
  | nil =>
      rw [show (layout.rules []).toList = [] by simp [Layout.rules]]
      exact Excerpt.mark_append hw Excerpt.stop
  | cons rule rules ih =>
      rcases parseBlocks_cases h with hnil | ⟨s, d, rest, _, _, hnext, hss, hds, hrest, heq⟩
      · cases hnil
      obtain ⟨rfl, rfl⟩ := List.cons.inj heq
      obtain ⟨l, -, rfl, -⟩ := nextBlock_eq_block_iff.1 hnext
      have hread := (parseSelectors_eq_ok_iff.1 hss).2
      rw [String.toList_ofList] at hread
      have hselectors := (excerpt_of_mapM_selectorPieces hread hw).of_trim
      have hdeclarations := excerpt_of_parseDeclarations hds layout.neutral_indent
        layout.neutral_lineEnd hopen
      rw [← Layout.toList_declarations] at hdeclarations
      have hprinted : w ++ (layout.rules (rule :: rules)).toList =
          (w ++ selectorsText rule.selectors) ++
            ((layout.gap :: '\x7b' :: layout.lineEnd ++
                (layout.declarations rule.declarations).toList) ++
              (['\x7d', layout.gap] ++ (layout.rules rules).toList)) := by
        simp [Layout.toList_rules_cons]
      rw [hprinted]
      exact Excerpt.skip_append l (hselectors.append
        (Excerpt.skip (hdeclarations.append (Excerpt.skip (ih hrest hclose)))))

/-- Printed rules that were read hold no comment. -/
theorem commentFree_rules {source : String} {rules : List Rule}
    (h : parseRules source = .ok rules) (layout : Layout) :
    CommentFree (layout.rules rules).toList := by
  have hexcerpt := excerpt_of_parseBlocks h layout (w := [' ']) (by decide)
  exact (commentFree_cons_iff.1 (hexcerpt.commentFree (commentFree_stripComments _))).2

/-- Selectors and declarations stand in the printed text as they are written. -/
theorem infix_rules (layout : Layout) {rules : List Rule} {rule : Rule} (hrule : rule ∈ rules) :
    (∀ s ∈ rule.selectors, s.text.toList <:+: (layout.rules rules).toList) ∧
      ∀ d ∈ rule.declarations, d.text.toList <:+: (layout.rules rules).toList := by
  have hrules : (layout.block rule.selectorText rule.declarations).toList <:+:
      (layout.rules rules).toList := by
    rw [Layout.rules, String.toList_join, List.flatMap_map, List.flatMap_def]
    exact List.infix_of_mem_flatten (List.mem_map_of_mem hrule)
  rw [Layout.toList_block, toList_selectorText, Layout.toList_declarations] at hrules
  constructor
  · intro s hs
    refine (infix_selectorsText hs).trans (List.IsInfix.trans ?_ hrules)
    exact ((List.prefix_append _ _).trans (List.prefix_append _ _)).isInfix
  · intro d hd
    have hdeclarations : d.text.toList <:+: rule.declarations.flatMap fun d =>
        layout.indent ++ d.text.toList ++ layout.lineEnd := by
      rw [List.flatMap_def]
      refine List.IsInfix.trans ?_ (List.infix_of_mem_flatten (List.mem_map_of_mem hd))
      exact List.infix_append _ _ _
    refine (hdeclarations.trans ?_).trans hrules
    refine (List.infix_append layout.lineEnd _ ['\x7d', layout.gap]).trans ?_
    exact ((List.suffix_cons _ _).trans (List.suffix_append _ _)).isInfix

/-- **Rules that were read are read back from what they are printed as,** in either layout.  A
stylesheet is compacted to its rules in the compact layout, so that text is compacted to itself. -/
theorem parseRules_printed {source : String} {rules : List Rule}
    (h : parseRules source = .ok rules) :
    (∀ layout : Layout, parseRules (layout.rules rules) = .ok rules) ∧
      compactText source = .ok (Layout.compact.rules rules) ∧
      compactText (Layout.compact.rules rules) = .ok (Layout.compact.rules rules) := by
  have hback : ∀ layout : Layout, parseRules (layout.rules rules) = .ok rules := by
    intro layout
    rw [parseRules, stripComments_of_commentFree (commentFree_rules h layout)]
    exact parseBlocks_written (readable_of_parseBlocks h) layout (l := []) rfl
  refine ⟨hback, ?_, ?_⟩
  · rw [compactText, h]
    rfl
  · rw [compactText, hback]
    rfl

/-- A comment between two letters of a name, and a value that opens one that nothing closes. -/
theorem parseRules_printed_open_comment :
    let source := ".a/**/b, .d:hover\t.c \x7b X : /* \x7d"
    let rules : List Rule :=
      [⟨[.single ⟨.className, "ab"⟩,
          .chain ⟨.className, "d"⟩ .combination <| .chain ⟨.pseudoClass, "hover"⟩ .descendant <|
            .single ⟨.className, "c"⟩], [⟨"x", "/*"⟩]⟩]
    let compact := ".ab, .d:hover .c \x7bx:/*;\x7d "
    let pretty := ".ab, .d:hover .c\n\x7b\n\tx:/*;\n\x7d\n"
    parseRules source = .ok rules ∧ parseRules compact = .ok rules ∧
      parseRules pretty = .ok rules ∧ compactText source = .ok compact ∧
      compactText compact = .ok compact := by
  intro source rules compact pretty
  have hread : parseRules source = .ok rules := by decide +kernel
  have hcompact : Layout.compact.rules rules = compact := by decide +kernel
  have hpretty : Layout.pretty.rules rules = pretty := by decide +kernel
  obtain ⟨hback, hwritten, hagain⟩ := parseRules_printed hread
  rw [hcompact] at hwritten hagain
  exact ⟨hread, hcompact ▸ hback .compact, hpretty ▸ hback .pretty, hwritten, hagain⟩

end StyleInliner.Css
