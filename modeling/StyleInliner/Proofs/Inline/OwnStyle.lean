/-
What an element declares itself comes first, and the first declaration of a property holds.

Each edit of a run extends what its element declares, or leaves the style alone
(`Grown`).  That carries over from one edit to the next although a style may become
unreadable on the way: an application has to read the style it finds, so the only
style that is never read is the last one.
-/
import StyleInliner.Proofs.Dom.Traversal
import StyleInliner.Proofs.Css.Dictionary
import StyleInliner.Proofs.Inline.Document
import StyleInliner.Proofs.Inline.Effect

namespace StyleInliner.Inline

open StyleInliner.Css StyleInliner.Dom

/-! ### Edits -/

/-- An edit left the style alone, or read what it declares and extended that. -/
def Grown (e e' : Element) : Prop :=
  e'.attribute? "style" = e.attribute? "style" ∨
    ∃ own, e.declarations = .ok own ∧ ∀ all, e'.declarations = .ok all → Extension own all

theorem Grown.trans {e e' e'' : Element} (h : Grown e e') (h' : Grown e' e'') : Grown e e'' := by
  rcases h' with hsame' | ⟨mid, hmid, hall⟩
  · rcases h with hsame | ⟨own, hown, hmid⟩
    · exact Or.inl (hsame'.trans hsame)
    · refine Or.inr ⟨own, hown, fun all h => hmid all ?_⟩
      rwa [← Element.declarations_congr hsame']
  · rcases h with hsame | ⟨own, hown, hext⟩
    · refine Or.inr ⟨mid, ?_, hall⟩
      rwa [← Element.declarations_congr hsame]
    · exact Or.inr ⟨own, hown, fun all h => (hext mid hmid).trans (hall all h)⟩

theorem Grown.extension {e e' : Element} (h : Grown e e') {own all : List Declaration}
    (hown : e.declarations = .ok own) (hall : e'.declarations = .ok all) : Extension own all := by
  rcases h with hsame | ⟨own', hown', hext⟩
  · rw [Element.declarations_congr hsame, hown] at hall
    rw [Except.ok.inj hall]
    exact Extension.refl all
  · rw [hown] at hown'
    rw [Except.ok.inj hown']
    exact hext all hall

/-- What a dictionary of rules holds is readable. -/
theorem readable_of_get? {rules : List Rule} (hrules : ∀ rule ∈ rules, rule.Readable)
    {key : String} {ds : List Declaration} (h : (Dictionary.ofRules rules).get? key = some ds) :
    ∀ d ∈ ds, d.Readable := by
  intro d hd
  have hds := Grouping.getD_get?_foldl_add (Dictionary.entries rules) key
  rw [← Dictionary.ofRules_eq, h, Option.getD_some] at hds
  rw [hds] at hd
  obtain ⟨block, hblock, hd⟩ := List.mem_flatten.1 hd
  obtain ⟨entry, hentry, rfl⟩ := List.mem_map.1 hblock
  obtain ⟨rule, hrule, hentry⟩ := List.mem_flatMap.1 (List.mem_filter.1 hentry).1
  obtain ⟨s, -, rfl⟩ := List.mem_map.1 hentry
  exact (hrules rule hrule).readable d hd

/-- **Whatever the passes do to an element extends what it declares.** -/
theorem grown_passes {rules : Dictionary}
    (hrules : ∀ key ds, rules.get? key = some ds → ∀ d ∈ ds, d.Readable) {m : Matchable}
    {index : Index} {remove : Bool} {n : NodeId} {e e' : Element}
    (h : editOf (passes rules m index remove) n e = .ok e') : Grown e e' := by
  refine rel_of_passes (R := Grown) (fun _ => Or.inl rfl) Grown.trans ?_ ?_ h
  · intro key _ ds hds e e' hedit
    exact Or.inr (extension_of_applyDeclarations (hrules key ds hds) hedit)
  · exact fun e => Or.inl (Element.attribute?_removeAttribute (by decide +kernel) e)

/-! ### Runs -/

/-- **The declarations of an element's own style come first, and of those applied to it the first
of a property holds.** -/
theorem own_style_first {order : List String → List String} {d c styled : Document}
    {options : InlineOptions} {css : String} (hcollect : collectStylesheet d options = (c, css))
    (hrun : applyStylesheet order css options.removeClassAttributes c = Run.done styled)
    {n : NodeId} (hn : n ∈ (Index.ofDocument c).elements) :
    ∃ before after, d.forest.element? n = some before ∧ styled.forest.element? n = some after ∧
      ∀ own all, before.declarations = .ok own → after.declarations = .ok all →
        ∃ added, all = own ++ added ∧ (added.map Declaration.property).Nodup ∧
          ∀ x ∈ added, x.property ∉ own.map Declaration.property := by
  obtain ⟨rules, m, hread, -, hedited⟩ := applyStylesheet_eq_done hrun
  have hrules : ∀ key ds, (Dictionary.ofRules rules).get? key = some ds → ∀ d ∈ ds, d.Readable :=
    fun _ _ hget => readable_of_get? (readable_of_parseBlocks hread) hget
  rw [Index.elements_ofDocument] at hn
  obtain ⟨before, hbefore⟩ := Option.isSome_iff_exists.1 (List.mem_filter.1 hn).2
  obtain ⟨after, hafter, hedit⟩ := hedited.element n before hbefore
  refine ⟨before, after, ?_, hafter, fun own all hown hall => ?_⟩
  · rw [← element?_collectStylesheet d options n, hcollect]
    exact hbefore
  · exact (grown_passes hrules hedit).extension hown hall

theorem own_style_first_repeated_class :
    let d := Document.ofTrees
      [.node (.element ⟨.html, "p", [⟨"style", "X: 0"⟩, ⟨"class", "b b"⟩]⟩) []] none true
    let styled := Document.ofTrees
      [.node (.element ⟨.html, "p", [⟨"style", "X: 0;y:2;"⟩]⟩) []] none true
    let options : InlineOptions := { extraCss := some ".b\x7by:2\x7d" }
    collectStylesheet d options = (d, ".b\x7by:2\x7d\n") ∧
      applyStylesheet id ".b\x7by:2\x7d\n" true d = Run.done styled ∧
      1 ∈ (Index.ofDocument d).elements ∧
      ∃ before after, d.forest.element? 1 = some before ∧ styled.forest.element? 1 = some after ∧
        ∀ own all, before.declarations = .ok own → after.declarations = .ok all →
          ∃ added, all = own ++ added ∧ (added.map Declaration.property).Nodup ∧
            ∀ x ∈ added, x.property ∉ own.map Declaration.property := by
  intro d styled options
  have hcollect : collectStylesheet d options = (d, ".b\x7by:2\x7d\n") := by decide +kernel
  have hrun : applyStylesheet id ".b\x7by:2\x7d\n" true d = Run.done styled :=
    Run.eq_done_iff.2 (by decide +kernel)
  have hmem : 1 ∈ (Index.ofDocument d).elements := by decide +kernel
  exact ⟨hcollect, hrun, hmem, own_style_first hcollect hrun hmem⟩

end StyleInliner.Inline
