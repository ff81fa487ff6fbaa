/-
The sheets that a run reads its rules from.

There are those from outside, a text that the caller has or files that the command
line names, and one for each `style` element of the head.  The stylesheet is all of
them joined (`text_collectStylesheet`, `readStylesheets_eq`), so its rules are the
rules of each sheet, in this order, if none runs over into a later one
(`rules_of_sheets`).  If one does, what it leaves over is read with the text of the
later ones, and the rules need not be those (`selector_across_sheets`).
-/
import StyleInliner.CommandLine
import StyleInliner.Proofs.Css.Joining
import StyleInliner.Proofs.Dom.Mutation
import StyleInliner.Proofs.Inline.Stylesheet

namespace StyleInliner

open StyleInliner.Css StyleInliner.Dom

/-! ### Sheets in files -/

section Files

variable {m : Type → Type} [Monad m]

/-- Reads one stylesheet, which has to be faultless. -/
def readSheet (files : Files m) (path : String) : ExceptT InlineError m String := do
  let bytes ← files.read path
  let sheet ← StyleSheet.ofFile path bytes
  return sheet.source

/-- The files that the command line names are read one after the other, and joined. -/
theorem readStylesheets_eq [LawfulMonad m] (files : Files m) (paths : List String) :
    readStylesheets files paths = joinSheets <$> paths.mapM (readSheet files) := by
  induction paths with
  | nil => simp [readStylesheets, joinSheets]
  | cons path paths ih =>
      simp [readStylesheets, readSheet, ih, joinSheets_cons]

end Files

namespace Inline

/-! ### Sheets in the document -/

/-- The sheets in the head of a document. -/
def styleSheets (d : Document) : List String :=
  (headStyles d).map fun n => Text.trimString (d.forest.textContent n)

/-- The text of a node stays as it is when a node is taken out that is not below it. -/
theorem textContent_detach {f : Forest} (hf : f.WellFormed) {s n : NodeId} (h : ¬ f.Below s n) :
    (f.detach s).textContent n = f.textContent n := by
  have htext : (f.detach s).text? = f.text? := by
    funext n
    rw [Forest.text?, Forest.content?_detach, Forest.text?]
  have hwalk : (f.detach s).preorder n = f.preorder n :=
    Forest.preorder_foldl_detach_of_not_below [s] hf fun s' hs' hbelow => by
      obtain rfl := List.mem_singleton.1 hs'
      exact absurd hbelow h
  rw [Forest.textContent, Forest.textContent, hwalk, htext]

/-- A `style` element has its whole text when it is read: what was taken out before it does not
stand below it. -/
theorem text_foldl_readStyleElement (remove : Bool) {nodes : List NodeId} {f : Forest}
    (hf : f.WellFormed) (hnodes : nodes.Pairwise fun a b => ¬ f.Below a b) (css : String) :
    (nodes.foldl (readStyleElement remove) (f, css)).2 =
      css ++ joinSheets (nodes.map fun n => Text.trimString (f.textContent n)) := by
  induction nodes generalizing f css with
  | nil => simp [joinSheets]
  | cons s nodes ih =>
      obtain ⟨hfirst, hnodes⟩ := List.pairwise_cons.1 hnodes
      rw [List.foldl_cons, readStyleElement, List.map_cons, joinSheets_cons]
      cases remove with
      | false =>
          rw [if_neg (by decide), ih hf hnodes]
          simp [String.append_assoc]
      | true =>
          have hrest : nodes.Pairwise fun a b => ¬ (f.detach s).Below a b :=
            hnodes.imp fun hab h => hab (Forest.below_of_below_detach h)
          have hsame : nodes.map (fun n => Text.trimString ((f.detach s).textContent n)) =
              nodes.map fun n => Text.trimString (f.textContent n) :=
            List.map_congr_left fun n hn => by rw [textContent_detach hf (hfirst n hn)]
          rw [if_pos rfl, ih (hf.detach s) hrest, hsame]
          simp [String.append_assoc]

/-- **The stylesheet is what comes from outside, and the sheets of the document behind it.** -/
theorem text_collectStylesheet {d : Document} (hd : d.WellFormed) (options : InlineOptions) :
    (collectStylesheet d options).2 =
      outsideStylesheet options ++ joinSheets (styleSheets d) := by
  unfold collectStylesheet styleSheets headStyles
  cases d.head? with
  | none => simp [joinSheets]
  | some head =>
      refine text_foldl_readStyleElement options.removeStyleElements hd.forest ?_ _
      exact ((Forest.pairwise_preorder hd.forest head).filter _).filter _

/-! ### Sheets from outside -/

/-- What the command line passes on of the sheets it has read. -/
def joinedCss (sheets : List String) : Option String :=
  if (joinSheets sheets).isEmpty then none else some (joinSheets sheets)

/-- The sheets that a text from outside is made of. -/
inductive FromOutside : Option String → List String → Prop
  | none : FromOutside none []
  | caller (css : String) : FromOutside (some css) [css]
  | files (sheets : List String) : FromOutside (joinedCss sheets) sheets

/-- A blank text from outside is left out.  What the command line passes on ends with a newline, and
gets another one. -/
theorem outsideStylesheet_cases {options : InlineOptions} {outside : List String}
    (h : FromOutside options.extraCss outside) :
    outsideStylesheet options = "" ∧ Text.allBlank (joinSheets outside).toList = true ∨
      outsideStylesheet options = joinSheets outside ∨
      outsideStylesheet options = joinSheets (outside ++ [""]) := by
  unfold outsideStylesheet
  generalize options.extraCss = given at h
  cases h with
  | none => exact Or.inl ⟨rfl, rfl⟩
  | caller css =>
      have hjoin : joinSheets [css] = css ++ "\n" := by simp [joinSheets]
      dsimp only
      split
      · rename_i hblank
        refine Or.inl ⟨rfl, allBlank_joinSheets fun sheet hsheet => ?_⟩
        rwa [List.mem_singleton.1 hsheet]
      · exact Or.inr (Or.inl hjoin.symm)
  | files =>
      by_cases hempty : (joinSheets outside).isEmpty = true
      · rw [joinedCss, if_pos hempty, String.isEmpty_iff.1 hempty]
        exact Or.inl ⟨rfl, rfl⟩
      · rw [joinedCss, if_neg hempty]
        dsimp only
        split
        · rename_i hblank
          exact Or.inl ⟨rfl, hblank⟩
        · exact Or.inr (Or.inr (by simp [joinSheets]))

/-- The rules of a run are the rules of its sheets, one after the other. -/
theorem parseRules_collectStylesheet {d : Document} (hd : d.WellFormed) {options : InlineOptions}
    {outside : List String} (hout : FromOutside options.extraCss outside)
    {first second : List (List Rule)} (hfirst : outside.mapM parseRules = .ok first)
    (hsecond : (styleSheets d).mapM parseRules = .ok second)
    (hapart : (outside ++ styleSheets d).Pairwise Apart) :
    parseRules (collectStylesheet d options).2 = .ok (first.flatten ++ second.flatten) := by
  obtain ⟨houtside, hstyles, hacross⟩ := List.pairwise_append.1 hapart
  rw [text_collectStylesheet hd]
  rcases outsideStylesheet_cases hout with ⟨htext, hblank⟩ | htext | htext
  · have hnone := parseRules_joinSheets hfirst houtside
    rw [parseRules_of_allBlank hblank] at hnone
    rw [htext, String.empty_append, parseRules_joinSheets hsecond hstyles,
      ← Except.ok.inj hnone, List.nil_append]
  · have hread : (outside ++ styleSheets d).mapM parseRules = .ok (first ++ second) := by
      rw [List.mapM_append, hfirst, hsecond]
      rfl
    rw [htext, ← joinSheets_append, parseRules_joinSheets hread hapart, List.flatten_append]
  · have hempty : parseRules "" = .ok [] := parseRules_of_allBlank rfl
    have hread : (outside ++ [""] ++ styleSheets d).mapM parseRules =
        .ok (first ++ [[]] ++ second) := by
      rw [List.mapM_append, List.mapM_append, hfirst, hsecond, List.mapM_cons, hempty]
      rfl
    have hgap : (outside ++ [""] ++ styleSheets d).Pairwise Apart := by
      rw [List.append_assoc, List.singleton_append]
      refine List.pairwise_append.2 ⟨houtside, List.pairwise_cons.2 ⟨?_, hstyles⟩, ?_⟩
      · exact fun later _ => Apart.of_allBlank rfl later
      · intro sheet hsheet later hlater
        rcases List.mem_cons.1 hlater with rfl | hlater
        · exact Or.inl rfl
        · exact hacross sheet hsheet later hlater
    rw [htext, ← joinSheets_append, parseRules_joinSheets hread hgap]
    simp

/-- **Sheets that do not run over into one another are read as each of them is by itself.** The
rules of a run are those of the sheets from outside and then those of the sheets of the document, in
the order they are given in; files that the command line names are joined to such a text.  What any
sheet leaves over, a block that has no end or a comment that is not closed, is read with the text
behind it, as all sheets are one text. -/
theorem rules_of_sheets {m : Type → Type} [Monad m] [LawfulMonad m] (files : Files m)
    {d : Document} (hd : d.WellFormed) {options : InlineOptions} {outside : List String}
    (hout : FromOutside options.extraCss outside) {first second : List (List Rule)}
    (hfirst : outside.mapM parseRules = .ok first)
    (hsecond : (styleSheets d).mapM parseRules = .ok second)
    (hapart : (outside ++ styleSheets d).Pairwise Apart) :
    (∀ paths, readStylesheets files paths = joinSheets <$> paths.mapM (readSheet files)) ∧
      parseRules (joinSheets outside) = .ok first.flatten ∧
      parseRules (collectStylesheet d options).2 = .ok (first.flatten ++ second.flatten) ∧
      (collectStylesheet d options).2 = outsideStylesheet options ++ joinSheets (styleSheets d) ∧
      ∀ sheet text, parseRules (sheet ++ "\n" ++ text) = (do
        let rules ← parseBlocks (cutAtOpen sheet.toList).1
        return rules ++ (← parseBlocks (leftOver (cutAtOpen sheet.toList).1 ++
          stripComments ((cutAtOpen sheet.toList).2 ++ '\n' :: text.toList)))) :=
  ⟨readStylesheets_eq files, parseRules_joinSheets hfirst (List.pairwise_append.1 hapart).1,
    parseRules_collectStylesheet hd hout hfirst hsecond hapart, text_collectStylesheet hd options,
    parseRules_append_of_cut⟩

/-- Two files and a head with two sheets, the last of which has a block without an end and a comment
that is not closed; and what such a sheet is when another one comes behind it. -/
theorem rules_of_sheets_unfinished_last :
    let files : Files Id := ⟨fun path => .ok (path ++ "\x7ba:b\x7d").toUTF8, fun _ _ => .ok ()⟩
    let d := Document.ofTrees
      [.node (.element ⟨.html, "head", []⟩)
        [.node (.element ⟨.html, "style", []⟩) [.node (.text " h1 \x7b c:d \x7d // e") []],
          .node (.element ⟨.html, "style", []⟩) [.node (.text "p \x7b f:g \x7d i \x7b /* ") []]]]
      none true
    let outside := ["em\x7ba:b\x7d", "b\x7ba:b\x7d"]
    let options : InlineOptions := { extraCss := joinedCss outside }
    let rule (tag name value : String) : Rule := ⟨[.single ⟨.tagName, tag⟩], [⟨name, value⟩]⟩
    d.WellFormed ∧ FromOutside options.extraCss outside ∧
      outside.mapM parseRules = .ok [[rule "em" "a" "b"], [rule "b" "a" "b"]] ∧
      (styleSheets d).mapM parseRules = .ok [[rule "h1" "c" "d"], [rule "p" "f" "g"]] ∧
      (outside ++ styleSheets d).Pairwise Apart ∧
      (∀ paths, readStylesheets files paths = joinSheets <$> paths.mapM (readSheet files)) ∧
      parseRules (joinSheets outside) = .ok [rule "em" "a" "b", rule "b" "a" "b"] ∧
      parseRules (collectStylesheet d options).2 =
        .ok [rule "em" "a" "b", rule "b" "a" "b", rule "h1" "c" "d", rule "p" "f" "g"] ∧
      (collectStylesheet d options).2 =
        "em\x7ba:b\x7d\nb\x7ba:b\x7d\n\n" ++
          "h1 \x7b c:d \x7d // e\np \x7b f:g \x7d i \x7b /*\n" ∧
      parseRules (".x\x7ba:b\x7d .y /* .z\x7ba:b\x7d" ++ "\n" ++ "*/ .w\x7bc:d\x7d") =
        .ok [⟨[.single ⟨.className, "x"⟩], [⟨"a", "b"⟩]⟩,
          ⟨[.chain ⟨.className, "y"⟩ .descendant <| .single ⟨.className, "w"⟩], [⟨"c", "d"⟩]⟩] := by
  intro files d outside options rule
  have hd : d.WellFormed := ⟨Forest.wellFormed_of_forall (by decide), by decide, by decide⟩
  have hout : FromOutside options.extraCss outside := FromOutside.files outside
  have hfirst : outside.mapM parseRules = .ok [[rule "em" "a" "b"], [rule "b" "a" "b"]] := by
    decide +kernel
  have hsecond : (styleSheets d).mapM parseRules =
      .ok [[rule "h1" "c" "d"], [rule "p" "f" "g"]] := by
    decide +kernel
  have hapart : (outside ++ styleSheets d).Pairwise Apart := by
    decide +kernel
  obtain ⟨hfiles, houtside, hall, htext, hleft⟩ :=
    rules_of_sheets files hd hout hfirst hsecond hapart
  have hjoined : outsideStylesheet options ++ joinSheets (styleSheets d) =
      "em\x7ba:b\x7d\nb\x7ba:b\x7d\n\n" ++
        "h1 \x7b c:d \x7d // e\np \x7b f:g \x7d i \x7b /*\n" := by decide +kernel
  refine ⟨hd, hout, hfirst, hsecond, hapart, hfiles, houtside, hall, htext.trans hjoined, ?_⟩
  rw [hleft]
  decide +kernel

/-- Two sheets, one of them with no rule in it and the other one with a rule for `h1`: together they
have a rule for an `h1` below a `p`. -/
theorem selector_across_sheets :
    let d := Document.ofTrees
      [.node (.element ⟨.html, "head", []⟩)
        [.node (.element ⟨.html, "style", []⟩) [.node (.text "p") []],
          .node (.element ⟨.html, "style", []⟩) [.node (.text "h1\x7bcolor:red\x7d") []]]]
      none true
    let options : InlineOptions := {}
    let step (tag : String) : Step := ⟨.tagName, tag⟩
    d.WellFormed ∧ FromOutside options.extraCss [] ∧ styleSheets d = ["p", "h1\x7bcolor:red\x7d"] ∧
      parseRules "p" = .ok [] ∧
      parseRules "h1\x7bcolor:red\x7d" = .ok [⟨[.single (step "h1")], [⟨"color", "red"⟩]⟩] ∧
      parseRules (collectStylesheet d options).2 =
        .ok [⟨[.chain (step "p") .descendant (.single (step "h1"))], [⟨"color", "red"⟩]⟩] := by
  intro d options step
  exact ⟨⟨Forest.wellFormed_of_forall (by decide), by decide, by decide⟩, FromOutside.none,
    by decide +kernel, by decide +kernel, by decide +kernel, by decide +kernel⟩

end Inline

end StyleInliner
