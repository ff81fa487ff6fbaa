/-
What class attributes are left in a document.

The classes are taken out of those elements that carried one before any rule was
applied.  A rule may write a class to another element, by the property that asks
for the attribute; the second pass does not look at such an element, so that class
is the only kind that stays (`class_written_by_rule`).

With one attribute for each name, taking one out leaves none (`class_of_passes`).
Every edit keeps the names distinct, so this holds at the end of the passes, and the
cell of a table has the class that the element had (`CellTable.attribute?_cell`).
-/
import StyleInliner.Proofs.Inline.Cascade
import StyleInliner.Proofs.Inline.ConvertedWalk
import StyleInliner.Proofs.Inline.Directive

namespace StyleInliner

open StyleInliner.Css StyleInliner.Dom StyleInliner.Text

/-- No element of the document has two attributes that answer to one name. -/
def Dom.Document.DistinctNames (d : Document) : Prop :=
  ∀ n ∈ d.elements, ∀ e ∈ d.forest.element? n, Attributes.Distinct e.attributes

instance (d : Document) : Decidable d.DistinctNames :=
  inferInstanceAs (Decidable (∀ n ∈ d.elements, ∀ e ∈ d.forest.element? n,
    Attributes.Distinct e.attributes))

namespace Inline

/-! ### Distinct names -/

/-- If the names of the first element's attributes are distinct, so are those of the second. -/
def KeepsDistinct (e e' : Element) : Prop :=
  Attributes.Distinct e.attributes → Attributes.Distinct e'.attributes

theorem KeepsDistinct.refl (e : Element) : KeepsDistinct e e :=
  id

theorem KeepsDistinct.trans {e e' e'' : Element} (h : KeepsDistinct e e')
    (h' : KeepsDistinct e' e'') : KeepsDistinct e e'' := fun he => h' (h he)

theorem keepsDistinct_applyDeclarations {e e' : Element} {ds : List Declaration}
    (h : applyDeclarations e ds = .ok e') : KeepsDistinct e e' := by
  refine rel_of_applyDeclarations KeepsDistinct.refl KeepsDistinct.trans ?_ ?_ h
  · intro d _ x name _
    rcases Element.fillAttribute_cases x name d.value with heq | heq <;> rw [heq]
    · exact KeepsDistinct.refl x
    · exact fun hx => hx.set name d.value
  · exact fun x style hx => hx.set "style" style

theorem keepsDistinct_of_passes {rules : Dictionary} {m : Matchable} {index : Index}
    {remove : Bool} {n : NodeId} {e e' : Element}
    (h : editOf (passes rules m index remove) n e = .ok e') : KeepsDistinct e e' :=
  rel_of_passes KeepsDistinct.refl KeepsDistinct.trans
    (fun _ _ _ _ _ _ => keepsDistinct_applyDeclarations) (fun _ hx => hx.getThenRemove "class") h

/-! ### Writing a class -/

/-- The property that asks to be written as the class attribute. -/
def classProperty : String :=
  attributeMarker ++ "class"

/-- Some rule for a tag declares a class. -/
def WritesClass (rules : List Rule) (tag value : String) : Prop :=
  ∃ rule ∈ rules, .single ⟨.tagName, tag⟩ ∈ rule.selectors ∧
    ⟨classProperty, value⟩ ∈ rule.declarations

/-- Only that property is written as the class attribute, on elements of any tag. -/
theorem eq_classProperty {tag property written : String} (hlower : lower property = property)
    (h : attributeFor? tag property = some written) (hwritten : lower written = lower "class") :
    property = classProperty := by
  rw [eq_marker_append (by decide +kernel) hlower h hwritten]
  decide +kernel

/-! ### The passes -/

section Passes

variable {rules : List Rule} (hrules : ∀ rule ∈ rules, rule.Readable)
include hrules

/-- Rules for a tag leave the class alone or write one that is declared. -/
theorem class_of_applyMatching {tag : String} {e e' : Element}
    (h : applyMatching rules (.single ⟨.tagName, tag⟩) e = .ok e') :
    e'.attribute? "class" = e.attribute? "class" ∨
      ∃ value, e'.attribute? "class" = some value ∧ WritesClass rules tag value := by
  unfold applyMatching at h
  split at h
  · obtain rfl := Except.ok.inj h
    exact Or.inl rfl
  · have hname : lower "style" ≠ lower "class" := by decide +kernel
    rcases attribute?_applyDeclarations hname h with
      hsame | ⟨d, hd, written, hwritten, hclass, hvalue⟩
    · exact Or.inl hsame
    · obtain ⟨block, hblock, hd⟩ := List.mem_flatten.1 hd
      obtain ⟨rule, hrule, hselector, rfl⟩ := mem_blocksFor.1 hblock
      have hproperty := eq_classProperty ((hrules rule hrule).readable d hd).property_lower
        hwritten hclass
      exact Or.inr ⟨d.value, hvalue, rule, hrule, hselector, hproperty ▸ hd⟩

variable {m : Matchable} {d : Document} (hnodup : d.elements.Nodup)
  (htags : ∀ tag ∈ m.tags, blocksFor rules (.single ⟨.tagName, tag⟩) ≠ [])
  {n : NodeId} (hn : n ∈ d.elements) {e e' : Element} (he : d.forest.element? n = some e)
include hnodup htags he

theorem class_of_tagEdits
    (h : editOf (m.tags.flatMap (tagEdits (Dictionary.ofRules rules) (Index.ofDocument d))) n e =
      .ok e') :
    e'.attribute? "class" = e.attribute? "class" ∨
      ∃ value, e'.attribute? "class" = some value ∧ WritesClass rules e.tag value := by
  have hcanonical : ∀ rule ∈ rules, ∀ s ∈ rule.selectors, s.Canonical := fun rule hrule =>
    (hrules rule hrule).canonical
  rw [editOf_flatMap] at h
  refine rel_of_foldlM (R := fun x y : Element => y.attribute? "class" = x.attribute? "class" ∨
    ∃ value, y.attribute? "class" = some value ∧ WritesClass rules e.tag value)
    (fun _ => Or.inl rfl) ?_ ?_ h
  · intro x y z hxy hyz
    rcases hyz with hsame | hwritten
    · rwa [hsame]
    · exact Or.inr hwritten
  · intro tag htag x y hedit
    rw [editOf_tagEdits hcanonical hnodup (htags tag htag) he] at hedit
    split at hedit
    · rename_i hmatch
      exact hmatch.2 ▸ class_of_applyMatching hrules hedit
    · obtain rfl := Except.ok.inj hedit
      exact Or.inl rfl

include hn in
/-- **A class that is there after the passes was written by a rule,** to an element without one. -/
theorem class_of_passes (hdistinct : Attributes.Distinct e.attributes)
    (h : editOf (passes (Dictionary.ofRules rules) m (Index.ofDocument d) true) n e = .ok e')
    {value : String} (hvalue : e'.attribute? "class" = some value) :
    e.attribute? "class" = none ∧ WritesClass rules e.tag value := by
  have hclassed : n ∈ (Index.ofDocument d).classed ↔ e.attribute? "class" ≠ none := by
    rw [Index.classed_ofDocument, List.mem_filter, he, Option.any_some, Element.hasAttribute,
      Attributes.has, ← Element.attribute?, ← Option.isSome_iff_ne_none]
    exact and_iff_right hn
  have hclassedNodup : (Index.ofDocument d).classed.Nodup := by
    rw [Index.classed_ofDocument]
    exact hnodup.filter _
  rw [passes, editOf_append] at h
  obtain ⟨mid, hmid, h⟩ := bind_eq_ok_iff.1 h
  rw [editOf_map hclassedNodup] at h
  split at h
  · -- the class is taken out at the end, and no second one is behind it
    obtain ⟨styled, hstyled, h⟩ := bind_eq_ok_iff.1 h
    obtain rfl := Except.ok.inj h
    have hkeep : ∀ key ∈ m.keys, ∀ ds, (Dictionary.ofRules rules).get? key = some ds → ∀ x y,
        applyDeclarations x ds = .ok y → KeepsDistinct x y := fun _ _ _ _ _ _ =>
      keepsDistinct_applyDeclarations
    have hbefore := rel_of_tagEdits KeepsDistinct.refl KeepsDistinct.trans hkeep hmid
    have hafter := rel_of_classEdits KeepsDistinct.refl KeepsDistinct.trans hkeep hstyled
    have hnone := Attributes.get?_getThenRemove_self (hafter (hbefore hdistinct)) "class"
    rw [if_pos rfl] at hvalue
    cases hvalue.symm.trans hnone
  · rename_i hout
    obtain rfl := Except.ok.inj h
    have hnone : e.attribute? "class" = none := not_not.1 fun hne => hout (hclassed.2 hne)
    refine ⟨hnone, ?_⟩
    rcases class_of_tagEdits hrules hnodup htags he hmid with hsame | ⟨written, hwritten, hrule⟩
    · rw [hsame, hnone] at hvalue
      cases hvalue
    · rw [hwritten] at hvalue
      exact Option.some.inj hvalue ▸ hrule

end Passes

/-! ### Whole runs -/

/-- An element of a converted tree was there before, or is a part of the table for an element; a
class that it has it has from there. -/
theorem class_of_converted {f g : Forest} {tables : Tables} (hconv : Converted f g tables)
    {m n : NodeId} (hn : n < f.size) (hstands : tables.StandsFor m n) {e : Element}
    (he : g.element? m = some e) :
    ∃ x, f.element? n = some x ∧ (Attributes.Distinct x.attributes →
      ∀ value, e.attribute? "class" = some value →
        m = tables.holder n ∧ x.attribute? "class" = some value) := by
  have hname : ∀ given ∈ CellTable.givenNames, lower given ≠ lower "class" := by decide +kernel
  rcases hstands with ⟨hnone, rfl⟩ | ⟨t, ht, hpart⟩
  · rw [hconv.element?_eq hn] at he
    exact ⟨e, he, fun _ value hvalue => ⟨(Tables.holder_of_none hnone).symm, hvalue⟩⟩
  · obtain ⟨x, parts, hx, hparts, htable⟩ := hconv.table ht
    refine ⟨x, hx, fun hdistinct value hvalue => ?_⟩
    have hcontent := Forest.element?_eq_some_iff.1 he
    rcases hpart with rfl | rfl | rfl
    · obtain rfl :=
        Content.element.inj (Option.some.inj (htable.content?_table.symm.trans hcontent))
      rw [(CellTable.attribute?_ofAttributes hname hparts).1] at hvalue
      cases hvalue
    · obtain rfl := Content.element.inj (Option.some.inj (htable.content?_row.symm.trans hcontent))
      cases hvalue
    · obtain rfl := Content.element.inj (Option.some.inj (htable.content?_cell.symm.trans hcontent))
      exact ⟨(Tables.holder_of_some ht).symm,
        CellTable.attribute?_cell hname hdistinct hparts hvalue⟩

/-- The tags that elements are matched with have rules, whatever order they are taken in. -/
theorem blocksFor_ne_nil_of_mem_tags {rules : List Rule} (hrules : ∀ rule ∈ rules, rule.Readable)
    {m : Matchable} (hm : Matchable.ofDictionary (Dictionary.ofRules rules) = .ok m)
    {tags : List String} (hperm : tags.Perm m.tags) :
    ∀ tag ∈ tags, blocksFor rules (.single ⟨.tagName, tag⟩) ≠ [] := by
  obtain ⟨m', hm', -, htags, -⟩ :=
    Dictionary.matchable_ofRules fun rule hrule => (hrules rule hrule).canonical
  obtain rfl := Except.ok.inj (hm.symm.trans hm')
  exact fun tag htag => (htags tag).1 (hperm.mem_iff.1 htag)

/-- **Each class in the result was written by a rule** for the tag of an element that carried none,
and stands on that element or on the cell of the table that took its place. -/
theorem class_written_by_rule {order : List String → List String}
    (horder : ∀ tags, (order tags).Perm tags) {d result : Document} {options : InlineOptions}
    (hd : d.WellFormed) (hdistinct : d.DistinctNames)
    (hremove : options.removeClassAttributes = true)
    (hrun : inlineDocumentIn order d options = Run.done result) :
    let c := (collectStylesheet d options).1
    ∃ rules styled tables, parseRules (collectStylesheet d options).2 = .ok rules ∧
      applyStylesheet order (collectStylesheet d options).2 true c = Run.done styled ∧
      ByMention styled.forest result.forest c.elements c.root tables ∧
      ∀ m ∈ result.elements, ∀ e, result.forest.element? m = some e →
        ∀ value, e.attribute? "class" = some value →
          ∃ n ∈ c.elements, m = tables.holder n ∧ ∃ before, d.forest.element? n = some before ∧
            before.attribute? "class" = none ∧ WritesClass rules before.tag value := by
  intro c
  obtain ⟨styled, tables, hstyled, hresult, hmention⟩ := exists_passes hd hrun
  rw [hremove] at hstyled
  obtain ⟨rules, m, hread, hm, -, hedited⟩ := exists_matchable_of_applyStylesheet hstyled
  refine ⟨rules, styled, tables, hread, hstyled, hmention, ?_⟩
  have hrules := readable_of_parseBlocks hread
  have hconv := hmention.converted
  have hc : c.WellFormed := wellFormed_collectStylesheet hd options
  have hf : styled.forest.WellFormed := hc.forest.of_eq hedited.parent?_eq hedited.children_eq
  have hroot : c.root < result.forest.size :=
    Nat.lt_of_lt_of_le (hedited.size_eq ▸ hc.root_lt_size) hconv.size_le
  have htags := blocksFor_ne_nil_of_mem_tags hrules hm (horder m.tags)
  have hnodup : c.elements.Nodup := (Forest.nodup_preorder hc.forest c.root).filter _
  intro k hk e he value hvalue
  -- the element is, or is made for, one of those the passes went over
  have hbelow : result.forest.Below k c.root := by
    have hwalk := (List.mem_filter.1 hk).1
    rw [hresult] at hwalk
    exact (Forest.mem_preorder_iff (hconv.wellFormed hf) hroot).1 hwalk
  obtain ⟨n, hmem, hn, hstands⟩ :=
    hconv.exists_mem_elements hc hedited (hmention.root_kept hc) hbelow he
  obtain ⟨after, hafter, hclass⟩ := class_of_converted hconv hn hstands he
  obtain ⟨before, hbefore⟩ := Option.isSome_iff_exists.1 (List.mem_filter.1 hmem).2
  obtain ⟨x, hx, hedit⟩ := hedited.element n before hbefore
  obtain rfl := Option.some.inj (hafter.symm.trans hx)
  have hold : d.forest.element? n = some before :=
    (element?_collectStylesheet d options n).symm.trans hbefore
  have hbeforeDistinct : Attributes.Distinct before.attributes := by
    refine hdistinct n ?_ before hold
    rw [elements_collectStylesheet hd] at hmem
    exact (List.mem_filter.1 hmem).1
  obtain ⟨hholder, hvalue⟩ := hclass (keepsDistinct_of_passes hedit hbeforeDistinct) value hvalue
  exact ⟨n, hmem, hholder, before, hold,
    class_of_passes hrules hnodup htags hmem hbefore hbeforeDistinct hedit hvalue⟩

theorem class_written_by_rule_cell :
    let d := Document.ofTrees
      [.node (.element ⟨.html, "p", [⟨"class", "a"⟩]⟩) [],
        .node (.element ⟨.html, "b", [⟨"style", "-tableize:1"⟩]⟩) []] none true
    let options : InlineOptions := { extraCss := some "b\x7b-attr-class:c\x7d" }
    let result := (inlineDocumentIn id d options).state
    (∀ tags, (id tags : List String).Perm tags) ∧ d.WellFormed ∧ d.DistinctNames ∧
      inlineDocumentIn id d options = Run.done result ∧
      let c := (collectStylesheet d options).1
      ∃ rules styled tables, parseRules (collectStylesheet d options).2 = .ok rules ∧
        applyStylesheet id (collectStylesheet d options).2 true c = Run.done styled ∧
        ByMention styled.forest result.forest c.elements c.root tables ∧
        ∀ m ∈ result.elements, ∀ e, result.forest.element? m = some e →
          ∀ value, e.attribute? "class" = some value →
            ∃ n ∈ c.elements, m = tables.holder n ∧ ∃ before, d.forest.element? n = some before ∧
              before.attribute? "class" = none ∧ WritesClass rules before.tag value := by
  intro d options result
  have horder : ∀ tags, (id tags : List String).Perm tags := fun tags => List.Perm.refl tags
  have hd : d.WellFormed := ⟨Forest.wellFormed_of_forall (by decide), by decide, by decide⟩
  have hdistinct : d.DistinctNames := by decide +kernel
  have hrun : inlineDocumentIn id d options = Run.done result :=
    Run.eq_done_of_fault (by decide +kernel)
  exact ⟨horder, hd, hdistinct, hrun, class_written_by_rule horder hd hdistinct rfl hrun⟩

/-- A class may be there that was not there before: this element has none until the rule for its tag
writes one. -/
theorem class_survives :
    let d := Document.ofTrees [.node (.element ⟨.html, "p", []⟩) [.node (.text "x") []]] none true
    let options : InlineOptions := { extraCss := some "p \x7b -attr-class: a \x7d" }
    let result := (inlineDocument d options).state
    d.WellFormed ∧ d.DistinctNames ∧ options.removeClassAttributes = true ∧
      inlineDocument d options = Run.done result ∧ 1 ∈ result.elements ∧
      ∃ e, result.forest.element? 1 = some e ∧ e.attribute? "class" = some "a" := by
  intro d options result
  obtain ⟨hfault, hmem, hwritten⟩ : (inlineDocument d options).fault = none ∧
      1 ∈ result.elements ∧
        result.forest.element? 1 = some ⟨.html, "p", [⟨"class", "a"⟩]⟩ := by
    decide +kernel
  exact ⟨⟨Forest.wellFormed_of_forall (by decide), by decide, by decide⟩, by decide +kernel, rfl,
    Run.eq_done_of_fault hfault, hmem, _, hwritten, by decide +kernel⟩

end Inline

end StyleInliner
