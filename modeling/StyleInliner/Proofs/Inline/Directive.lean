/-
Which elements are turned into tables, and what is left of the directive.

The third pass goes by the text of a style and not by what the style declares.  So
an element that writes the directive in capitals is left alone and keeps it, and
one that has its name in a value is replaced; a table that was put in declares no
directive, whatever the style was that it was made from.
-/
import StyleInliner.Proofs.Inline.Conversion
import StyleInliner.Proofs.Inline.Document

namespace StyleInliner

open StyleInliner.Css StyleInliner.Dom

/-- The style has the name of the directive in it, in small letters and anywhere. -/
def Dom.Element.MentionsDirective (e : Element) : Prop :=
  ∃ style, e.attribute? "style" = some style ∧ tableDirective.toList <:+: style.toList

namespace Inline

theorem isMarked_iff {e : Element} : isMarked e = true ↔ e.MentionsDirective := by
  rw [isMarked, Option.any_eq_true, Element.MentionsDirective]
  simp only [Text.occursIn_iff]

/-- The elements of a well-formed document have a parent, since the node on top is none. -/
theorem exists_parent?_of_mem_elements {d : Document} (hd : d.WellFormed) {n : NodeId}
    (hn : n ∈ d.elements) : ∃ p, d.forest.parent? n = some p := by
  obtain ⟨hwalk, helement⟩ := List.mem_filter.1 hn
  have hbelow := (Forest.mem_preorder_iff hd.forest hd.root_lt_size).1 hwalk
  rcases Relation.ReflTransGen.cases_head hbelow with rfl | ⟨p, hp, -⟩
  · rw [Forest.element?, hd.content?_root] at helement
    cases helement
  · exact ⟨p, hp⟩

theorem root_not_mem_elements {d : Document} (hd : d.WellFormed) : d.root ∉ d.elements := by
  intro hroot
  obtain ⟨p, hp⟩ := exists_parent?_of_mem_elements hd hroot
  rw [hd.parent?_root] at hp
  cases hp

theorem convertAll_eq_done {index : Index} {d result : Document}
    (h : convertAll index d = Run.done result) :
    result = { d with forest := result.forest } ∧
      index.elements.foldlM (fun f n => (convertMarked f n).toExcept) d.forest =
        .ok result.forest := by
  obtain ⟨hstate, hfault⟩ := Run.mk.inj h
  have hdone := Run.eq_done_iff.1 (Run.eq_done_of_fault hfault)
  rw [Run.toExcept_forEach] at hdone
  rw [← hstate]
  exact ⟨rfl, hdone⟩

/-- No part of a table declares the directive. -/
theorem not_declares_of_partFor {f g : Forest} {tables : Tables} (h : Converted f g tables)
    {m n : Nat} (hm : tables.PartFor m n) {e : Element} (he : g.element? m = some e) :
    ¬ e.Declares tableDirective := by
  obtain ⟨t, ht, hpart⟩ := hm
  obtain ⟨e', parts, -, hparts, htable⟩ := h.table ht
  have hfit := CellTable.fit_ofAttributes hparts
  have hcontent := Forest.element?_eq_some_iff.1 he
  rcases hpart with rfl | rfl | rfl
  · obtain rfl := Content.element.inj (Option.some.inj (htable.content?_table.symm.trans hcontent))
    exact CellTable.not_declares_of_none hfit.table_style _
  · obtain rfl := Content.element.inj (Option.some.inj (htable.content?_row.symm.trans hcontent))
    exact CellTable.not_declares_of_none (by decide +kernel) _
  · obtain rfl := Content.element.inj (Option.some.inj (htable.content?_cell.symm.trans hcontent))
    exact hfit.cell_style

/-- Of the elements of a list those that mention the directive were replaced, and no others; what
declares it in the end is one of those that were not. -/
structure ByMention (f g : Forest) (elements : List NodeId) (root : NodeId) (tables : Tables) :
    Prop where
  converted : Converted f g tables
  replaced_iff : ∀ n, (tables n).isSome ↔
    n ∈ elements ∧ ∃ e, f.element? n = some e ∧ e.MentionsDirective
  left : ∀ n e, g.Below n root → g.element? n = some e → e.Declares tableDirective →
    n ∈ elements ∧ f.element? n = some e ∧ ¬ e.MentionsDirective

/-- The document node is no element, so it is never replaced. -/
theorem ByMention.root_kept {c : Document} (hc : c.WellFormed) {f g : Forest} {tables : Tables}
    (h : ByMention f g c.elements c.root tables) : tables c.root = none :=
  Option.not_isSome_iff_eq_none.1 fun hsome =>
    root_not_mem_elements hc ((h.replaced_iff c.root).1 hsome).1

/-- An element of the tree stands for one that was there before the passes. -/
theorem Converted.exists_mem_elements {f g : Forest} {tables : Tables} (h : Converted f g tables)
    {c : Document} (hc : c.WellFormed) {R : NodeId → Element → Element → Prop}
    (hedited : Edited c.forest f R) (hkept : tables c.root = none) {m : NodeId}
    (hm : g.Below m c.root) {e : Element} (he : g.element? m = some e) :
    ∃ n ∈ c.elements, n < f.size ∧ tables.StandsFor m n := by
  have hf : f.WellFormed := hc.forest.of_eq hedited.parent?_eq hedited.children_eq
  obtain ⟨n, hn, hstands, hbelow⟩ :=
    h.exists_standsFor_of_below hf hm (hedited.size_eq ▸ hc.root_lt_size) hkept
  have hsome : (f.element? n).isSome := by
    rcases hstands with ⟨-, rfl⟩ | ⟨t, ht, -⟩
    · rw [← h.element?_eq hn, he]
      rfl
    · obtain ⟨x, -, hx, -⟩ := h.table ht
      rw [hx]
      rfl
  refine ⟨n, List.mem_filter.2 ⟨?_, ?_⟩, hn, hstands⟩
  · rw [Forest.mem_preorder_iff hc.forest hc.root_lt_size]
    rwa [← Forest.below_congr hedited.parent?_eq]
  · rwa [← hedited.isSome_element? n]

/-- What the third pass does to a document whose elements were edited in place. -/
theorem exists_byMention {c : Document} (hc : c.WellFormed) {f g : Forest}
    {R : NodeId → Element → Element → Prop} (hedited : Edited c.forest f R)
    (hfold : c.elements.foldlM (fun f n => (convertMarked f n).toExcept) f = .ok g) :
    ∃ tables, ByMention f g c.elements c.root tables := by
  have hf : f.WellFormed := hc.forest.of_eq hedited.parent?_eq hedited.children_eq
  have hnodup : c.elements.Nodup := (Forest.nodup_preorder hc.forest c.root).filter _
  have hplaced : ∀ n ∈ c.elements, ∃ e p, f.element? n = some e ∧ f.parent? n = some p := by
    intro n hn
    obtain ⟨p, hp⟩ := exists_parent?_of_mem_elements hc hn
    have hsome := (hedited.isSome_element? n).trans (List.mem_filter.1 hn).2
    obtain ⟨e, he⟩ := Option.isSome_iff_exists.1 hsome
    exact ⟨e, p, he, (hedited.parent?_eq n).trans hp⟩
  obtain ⟨tables, hconv, htables⟩ :=
    (Converted.refl f).exists_of_foldlM hf hnodup (fun _ _ => rfl) hplaced hfold
  have hiff : ∀ n, (tables n).isSome ↔
      n ∈ c.elements ∧ ∃ e, f.element? n = some e ∧ e.MentionsDirective := by
    intro n
    rw [htables n, Option.any_eq_true]
    simp [isMarked_iff]
  have hkept : tables c.root = none := Option.not_isSome_iff_eq_none.1 fun hsome =>
    root_not_mem_elements hc ((hiff c.root).1 hsome).1
  refine ⟨tables, hconv, hiff, ?_⟩
  intro n e hbelow he hdeclares
  obtain ⟨k, hmem, hk, hstands⟩ := hconv.exists_mem_elements hc hedited hkept hbelow he
  rcases hstands with ⟨hnone, rfl⟩ | hpart
  · rw [hconv.element?_eq hk] at he
    refine ⟨hmem, he, fun hmention => ?_⟩
    have hsome := (hiff n).2 ⟨hmem, e, he, hmention⟩
    rw [hnone] at hsome
    cases hsome
  · exact absurd hdeclares (not_declares_of_partFor hconv hpart he)

/-- The passes of a run that no fault stopped, one after the other. -/
theorem exists_passes {order : List String → List String} {d result : Document}
    {options : InlineOptions} (hd : d.WellFormed)
    (hrun : inlineDocumentIn order d options = Run.done result) :
    let c := (collectStylesheet d options).1
    ∃ styled tables,
      applyStylesheet order (collectStylesheet d options).2 options.removeClassAttributes c =
        Run.done styled ∧
      result = { c with forest := result.forest } ∧
      ByMention styled.forest result.forest c.elements c.root tables := by
  intro c
  have hdone := Run.eq_done_iff.1 hrun
  rw [inlineDocumentIn, Run.toExcept_andThen] at hdone
  obtain ⟨styled, hstyled, hdone⟩ := bind_eq_ok_iff.1 hdone
  replace hstyled := Run.eq_done_iff.2 hstyled
  obtain ⟨hresult, hfold⟩ := convertAll_eq_done (Run.eq_done_iff.2 hdone)
  obtain ⟨rules, m, -, hsame, hedited⟩ := applyStylesheet_eq_done hstyled
  rw [Index.elements_ofDocument] at hfold
  obtain ⟨tables, hmention⟩ :=
    exists_byMention (wellFormed_collectStylesheet hd options) hedited hfold
  refine ⟨styled, tables, hstyled, ?_, hmention⟩
  rw [hresult, hsame]

/-- **An element becomes a table just when its style mentions the directive, and the directive is
left only where a style declares it without mentioning it.** -/
theorem directive_by_mention {order : List String → List String} {d result : Document}
    {options : InlineOptions} (hd : d.WellFormed)
    (hrun : inlineDocumentIn order d options = Run.done result) :
    ∃ c css styled, collectStylesheet d options = (c, css) ∧
      applyStylesheet order css options.removeClassAttributes c = Run.done styled ∧
      ∃ tables, ByMention styled.forest result.forest (Index.ofDocument c).elements result.root
        tables := by
  rcases hcollect : collectStylesheet d options with ⟨c, css⟩
  have hc : c.WellFormed := by
    have hwell := wellFormed_collectStylesheet hd options
    rwa [hcollect] at hwell
  have hdone := Run.eq_done_iff.1 hrun
  rw [inlineDocumentIn, hcollect, Run.toExcept_andThen] at hdone
  obtain ⟨styled, hstyled, hdone⟩ := bind_eq_ok_iff.1 hdone
  replace hstyled := Run.eq_done_iff.2 hstyled
  obtain ⟨hresult, hfold⟩ := convertAll_eq_done (Run.eq_done_iff.2 hdone)
  obtain ⟨rules, m, -, hsame, hedited⟩ := applyStylesheet_eq_done hstyled
  have hroot : result.root = c.root := by
    rw [hresult, hsame]
  rw [Index.elements_ofDocument] at hfold
  refine ⟨c, css, styled, rfl, hstyled, ?_⟩
  rw [Index.elements_ofDocument, hroot]
  exact exists_byMention hc hedited hfold

theorem directive_by_mention_nested :
    let d := Document.ofTrees
      [.node (.element ⟨.html, "p", [⟨"style", "-tableize:1"⟩]⟩)
        [.node (.element ⟨.html, "b", [⟨"style", "x:-tableize"⟩]⟩) []]] none true
    let result := (inlineDocumentIn id d {}).state
    d.WellFormed ∧ inlineDocumentIn id d {} = Run.done result ∧
      ∃ c css styled, collectStylesheet d {} = (c, css) ∧
        applyStylesheet id css true c = Run.done styled ∧
        ∃ tables, ByMention styled.forest result.forest (Index.ofDocument c).elements result.root
          tables := by
  intro d result
  have hd : d.WellFormed := ⟨Forest.wellFormed_of_forall (by decide), by decide, by decide⟩
  have hrun : inlineDocumentIn id d {} = Run.done result :=
    Run.eq_done_of_fault (by decide +kernel)
  exact ⟨hd, hrun, directive_by_mention hd hrun⟩

/-- What a style declares does not decide it: of these two elements the first declares the
directive and is left alone, the second does not declare it and is replaced by the node 3. -/
theorem directive_not_by_declaration :
    let d := Document.ofTrees
      [.node (.element ⟨.html, "p", [⟨"style", "-TABLEIZE:1"⟩]⟩) [],
        .node (.element ⟨.html, "p", [⟨"style", "x:-tableize"⟩]⟩) []] none true
    let result := (inlineDocument d {}).state
    d.WellFormed ∧ collectStylesheet d {} = (d, "") ∧ applyStylesheet id "" true d = Run.done d ∧
      inlineDocument d {} = Run.done result ∧ (Index.ofDocument d).elements = [1, 2] ∧
      result.forest.children result.root = [1, 3] ∧ result.forest.tag? 3 = some "table" ∧
      (∃ e, d.forest.element? 1 = some e ∧ result.forest.element? 1 = some e ∧
        e.Declares tableDirective) ∧
      ∃ e, d.forest.element? 2 = some e ∧ ¬ e.Declares tableDirective := by
  intro d result
  refine ⟨⟨Forest.wellFormed_of_forall (by decide), by decide, by decide⟩, by decide +kernel,
    Run.eq_done_iff.2 (by decide +kernel), Run.eq_done_of_fault (by decide +kernel),
    by decide +kernel, by decide +kernel, by decide +kernel, ?_, ?_⟩
  · have hread : (Element.mk .html "p" [⟨"style", "-TABLEIZE:1"⟩]).declarations =
        .ok [⟨"-tableize", "1"⟩] := by decide +kernel
    exact ⟨_, by decide +kernel, by decide +kernel, _, hread, _, List.mem_singleton_self _, rfl⟩
  · have hread : (Element.mk .html "p" [⟨"style", "x:-tableize"⟩]).declarations =
        .ok [⟨"x", "-tableize"⟩] := by decide +kernel
    refine ⟨⟨.html, "p", [⟨"style", "x:-tableize"⟩]⟩, by decide +kernel, ?_⟩
    rintro ⟨ds, hds, d, hmem, hdirective⟩
    obtain rfl := Except.ok.inj (hread.symm.trans hds)
    obtain rfl := List.mem_singleton.1 hmem
    exact absurd hdirective (by decide)

end Inline

end StyleInliner
