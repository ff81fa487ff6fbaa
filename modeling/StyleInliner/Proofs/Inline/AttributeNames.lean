/-
The names of the attributes in a document whose styles were inlined.

A name is there because it was there before, because it is one of a few that properties
and tables are written with, or because a rule asks for it by a property that ends in it.
The last kind is any text that a property can be.  So what holds of the names in the
document and of the few, and does not depend on letter case, holds of all names but those
that are asked for (`allNames_of_run`).

A name that is asked for is never empty, but a tag need not be able to carry it: of the
characters that mean something in a tag only some are kept out of properties.  If the
names that are asked for can be carried, the result can be read again.
-/
import StyleInliner.Proofs.Html.StartTag
import StyleInliner.Proofs.Inline.Cascade
import StyleInliner.Proofs.Inline.ConvertedWalk
import StyleInliner.Proofs.Inline.Directive

namespace StyleInliner

open StyleInliner.Css StyleInliner.Dom StyleInliner.Html StyleInliner.Text

/-- Start tags can carry the names of all attributes in the document. -/
def Dom.Document.CarriableNames (d : Document) : Prop :=
  ∀ n ∈ d.elements, ∀ e ∈ d.forest.element? n, e.AllNames Carriable

instance (d : Document) : Decidable d.CarriableNames :=
  inferInstanceAs (Decidable (∀ n ∈ d.elements, ∀ e ∈ d.forest.element? n, e.AllNames Carriable))

namespace Inline

/-- Some rule that elements are matched with, for a tag or for a class, asks for an attribute. -/
def AskedFor (rules : List Rule) (name : String) : Prop :=
  name ≠ "" ∧ ∃ rule ∈ rules,
    (∃ s ∈ rule.selectors, (∃ tag, s = .single ⟨.tagName, tag⟩) ∨
      ∃ other, s = .single ⟨.className, other⟩) ∧
    ∃ d ∈ rule.declarations, d.property = attributeMarker ++ name

/-- The letters of a name that is asked for are small. -/
theorem AskedFor.lower {rules : List Rule} (hrules : ∀ rule ∈ rules, rule.Readable) {name : String}
    (h : AskedFor rules name) : Text.lower name = name := by
  obtain ⟨-, rule, hrule, -, d, hd, hproperty⟩ := h
  have hlower := ((hrules rule hrule).readable d hd).property_lower
  have hmarker : Text.lower attributeMarker = attributeMarker := by decide +kernel
  rw [hproperty, lower_append, hmarker] at hlower
  exact String.append_right_inj _ |>.1 hlower

/-- Under the keys that a dictionary is asked for stand the declarations of the rules that elements
are matched with. -/
theorem exists_rule_of_mem_keys {rules : List Rule} (hrules : ∀ rule ∈ rules, rule.Readable)
    {m : Matchable} (hm : Matchable.ofDictionary (Dictionary.ofRules rules) = .ok m)
    {tags : List String} (hperm : tags.Perm m.tags) {key : String}
    (hkey : key ∈ ({ m with tags } : Matchable).keys) {ds : List Declaration}
    (hget : (Dictionary.ofRules rules).get? key = some ds) {d : Declaration} (hd : d ∈ ds) :
    ∃ rule ∈ rules, (∃ s ∈ rule.selectors, (∃ tag, s = .single ⟨.tagName, tag⟩) ∨
      ∃ other, s = .single ⟨.className, other⟩) ∧ d ∈ rule.declarations := by
  have hcanonical : ∀ rule ∈ rules, ∀ s ∈ rule.selectors, s.Canonical := fun rule hrule =>
    (hrules rule hrule).canonical
  obtain ⟨m', hm', -, htags, hclasses⟩ := Dictionary.matchable_ofRules hcanonical
  obtain rfl := Except.ok.inj (hm.symm.trans hm')
  -- the key is the text of a selector that some rule has
  obtain ⟨s, hs, hblocks, rfl⟩ : ∃ s : Selector, ((∃ tag, s = .single ⟨.tagName, tag⟩) ∨
      ∃ other, s = .single ⟨.className, other⟩) ∧ blocksFor rules s ≠ [] ∧ s.text = key := by
    rcases List.mem_append.1 hkey with htag | hclass
    · exact ⟨.single ⟨.tagName, key⟩, Or.inl ⟨key, rfl⟩, (htags key).1 (hperm.mem_iff.1 htag), rfl⟩
    · obtain ⟨name, hname, rfl⟩ := List.mem_map.1 hclass
      exact ⟨.single ⟨.className, name⟩, Or.inr ⟨name, rfl⟩, (hclasses name).1 hname, rfl⟩
  obtain ⟨rule, hrule, hselector⟩ := blocksFor_ne_nil_iff.1 hblocks
  rw [Dictionary.get?_ofRules hcanonical (hcanonical rule hrule s hselector)] at hget
  split at hget
  · cases hget
  · rename_i blocks _
    obtain rfl := Option.some.inj hget
    obtain ⟨block, hblock, hd⟩ := List.mem_flatten.1 hd
    obtain ⟨rule, hrule, hselector, rfl⟩ := mem_blocksFor.1 hblock
    exact ⟨rule, hrule, ⟨s, hselector, hs⟩, hd⟩

/-! ### What every step keeps -/

section Steps

variable {P : String → Prop} (hfixed : ∀ name ∈ legacyNames ++ CellTable.givenNames, P (lower name))
include hfixed

theorem allNames_applyDeclarations {ds : List Declaration}
    (hasked : ∀ d ∈ ds, ∀ name, markedAttribute? d.property = some name → P (lower name))
    {e e' : Element} (happlied : applyDeclarations e ds = .ok e') (h : e.AllNames P) :
    e'.AllNames P := by
  refine rel_of_applyDeclarations (R := fun e e' => e.AllNames P → e'.AllNames P) (fun _ => id)
    (fun h h' => h' ∘ h) ?_ ?_ happlied h
  · intro d hd e name hname h
    refine h.fillAttribute ?_ d.value
    rcases attributeFor?_cases hname with hlegacy | hmarked
    · exact hfixed name (List.mem_append_left _ hlegacy)
    · exact hasked d hd name hmarked
  · exact fun e style h => h.setAttribute
      (hfixed "style" (by simp [legacyNames, CellTable.givenNames])) style

/-- What is applied to an element comes from rules that elements are matched with. -/
theorem allNames_of_passes {rules : List Rule} (hrules : ∀ rule ∈ rules, rule.Readable)
    {m : Matchable} (hm : Matchable.ofDictionary (Dictionary.ofRules rules) = .ok m)
    {tags : List String} (hperm : tags.Perm m.tags) (hasked : ∀ name, AskedFor rules name → P name)
    {index : Index} {remove : Bool} {n : NodeId} {e e' : Element}
    (hedit : editOf (passes (Dictionary.ofRules rules) { m with tags } index remove) n e = .ok e')
    (h : e.AllNames P) : e'.AllNames P := by
  refine rel_of_passes (R := fun e e' => e.AllNames P → e'.AllNames P) (fun _ => id)
    (fun h h' => h' ∘ h) ?_ (fun _ h => h.removeAttribute "class") hedit h
  intro key hkey ds hget e e' happlied
  refine allNames_applyDeclarations hfixed (fun x hx name hmarked => ?_) happlied
  obtain ⟨rule, hrule, hselector, hmem⟩ := exists_rule_of_mem_keys hrules hm hperm hkey hget hx
  have hname : AskedFor rules name := ⟨markedAttribute?_ne_empty hmarked, rule, hrule,
    hselector, x, hmem, markedAttribute?_eq_some hmarked⟩
  rw [hname.lower hrules]
  exact hasked name hname

theorem allNames_ofAttributes (hlower : ∀ name, P name → P (lower name)) {e : Element}
    (h : e.AllNames P) {parts : CellTable}
    (hparts : CellTable.ofAttributes e.attributes = .ok parts) :
    parts.table.AllNames P ∧ parts.cell.AllNames P := by
  have hgiven : ∀ name ∈ CellTable.givenNames, P (lower name) := fun name hname =>
    hfixed name (List.mem_append_right _ hname)
  have hempty : ∀ tag, (Element.ofTag tag).AllNames P := fun tag a ha => nomatch ha
  have htable : CellTable.bare.table.AllNames P :=
    ((hempty "table").setAttribute (hgiven "cellspacing" (by simp [CellTable.givenNames]))
      "0").setAttribute (hgiven "border" (by simp [CellTable.givenNames])) "0"
  obtain ⟨hdressed, hcopied⟩ := CellTable.rel_ofAttributes
    (R := fun e e' => e.AllNames P → e'.AllNames P) (fun _ => id) (fun h h' => h' ∘ h)
    (fun e name hname value h => h.setAttribute (hgiven name hname) value)
    (fun a ha e he => he.setAttribute (hlower a.name (h a ha)) a.value) hparts
  exact ⟨hdressed htable, hcopied (hempty "td")⟩

/-- An element of a converted tree was there before, or is a part of the table for an element. -/
theorem allNames_of_converted (hlower : ∀ name, P name → P (lower name)) {f g : Forest}
    {tables : Tables} (hconv : Converted f g tables) {m n : NodeId} (hn : n < f.size)
    (hstands : tables.StandsFor m n) {x e : Element} (hx : f.element? n = some x)
    (h : x.AllNames P) (he : g.element? m = some e) : e.AllNames P := by
  rcases hstands with ⟨-, rfl⟩ | ⟨t, ht, hpart⟩
  · rw [hconv.element?_eq hn, hx] at he
    exact Option.some.inj he ▸ h
  · obtain ⟨y, parts, hy, hparts, htable⟩ := hconv.table ht
    obtain rfl := Option.some.inj (hx.symm.trans hy)
    obtain ⟨hdressed, hcopied⟩ := allNames_ofAttributes hfixed hlower h hparts
    have hcontent := Forest.element?_eq_some_iff.1 he
    rcases hpart with rfl | rfl | rfl
    · obtain rfl :=
        Content.element.inj (Option.some.inj (htable.content?_table.symm.trans hcontent))
      exact hdressed
    · obtain rfl := Content.element.inj (Option.some.inj (htable.content?_row.symm.trans hcontent))
      exact fun a ha => nomatch ha
    · obtain rfl := Content.element.inj (Option.some.inj (htable.content?_cell.symm.trans hcontent))
      exact hcopied

end Steps

/-! ### Whole runs -/

section Run

variable {order : List String → List String} (horder : ∀ tags, (order tags).Perm tags)
  {d result : Document} {options : InlineOptions} (hd : d.WellFormed)
  (hrun : inlineDocumentIn order d options = Run.done result)
include horder hd hrun

/-- **What holds of the names in a document, and of those that are written in any case, holds of the
names in the result,** if it holds of those that the rules ask for. -/
theorem allNames_of_run {rules : List Rule}
    (hread : parseRules (collectStylesheet d options).2 = .ok rules) {P : String → Prop}
    (hfixed : ∀ name ∈ legacyNames ++ CellTable.givenNames, P (lower name))
    (hlower : ∀ name, P name → P (lower name)) (hasked : ∀ name, AskedFor rules name → P name)
    (hall : ∀ n ∈ d.elements, ∀ e, d.forest.element? n = some e → e.AllNames P) :
    ∀ n ∈ result.elements, ∀ e, result.forest.element? n = some e → e.AllNames P := by
  obtain ⟨styled, tables, hstyled, hresult, hmention⟩ := exists_passes hd hrun
  obtain ⟨rules', m, hread', hm, -, hedited⟩ := exists_matchable_of_applyStylesheet hstyled
  obtain rfl := Except.ok.inj (hread.symm.trans hread')
  have hrules := readable_of_parseBlocks hread
  have hconv := hmention.converted
  have hc := wellFormed_collectStylesheet hd options
  have hf : styled.forest.WellFormed := hc.forest.of_eq hedited.parent?_eq hedited.children_eq
  have hroot : (collectStylesheet d options).1.root < result.forest.size :=
    Nat.lt_of_lt_of_le (hedited.size_eq ▸ hc.root_lt_size) hconv.size_le
  intro k hk e he
  have hbelow : result.forest.Below k (collectStylesheet d options).1.root := by
    have hwalk := (List.mem_filter.1 hk).1
    rw [hresult] at hwalk
    exact (Forest.mem_preorder_iff (hconv.wellFormed hf) hroot).1 hwalk
  obtain ⟨n, hmem, hn, hstands⟩ :=
    hconv.exists_mem_elements hc hedited (hmention.root_kept hc) hbelow he
  obtain ⟨before, hbefore⟩ := Option.isSome_iff_exists.1 (List.mem_filter.1 hmem).2
  obtain ⟨after, hafter, hedit⟩ := hedited.element n before hbefore
  refine allNames_of_converted hfixed hlower hconv hn hstands hafter
    (allNames_of_passes hfixed hrules hm (horder m.tags) hasked hedit ?_) he
  rw [element?_collectStylesheet] at hbefore
  rw [elements_collectStylesheet hd] at hmem
  exact hall n (List.mem_filter.1 hmem).1 before hbefore

end Run

/-- **The names in the result can be carried by start tags, but for those that rules ask for,** and
none of them is empty.  If those can be carried, too, each start tag that is written for an element
is read again as one with the attributes of the element; that are the very same, if their names are
distinct and reading changes none of them. -/
theorem attribute_names_of_run {order : List String → List String}
    (horder : ∀ tags, (order tags).Perm tags) {d result : Document} {options : InlineOptions}
    (hd : d.WellFormed) (hnames : d.CarriableNames)
    (hrun : inlineDocumentIn order d options = Run.done result) :
    ∃ rules, parseRules (collectStylesheet d options).2 = .ok rules ∧
      (∀ n ∈ result.elements, ∀ e, result.forest.element? n = some e → ∀ a ∈ e.attributes,
        a.name ≠ "" ∧ (Carriable a.name ∨ AskedFor rules a.name)) ∧
      ((∀ name, AskedFor rules name → Carriable name) → result.CarriableNames ∧
        ∀ n ∈ result.elements, ∀ e, result.forest.element? n = some e → TagName e.name →
          (∀ (foreign : Bool) (rest : List Char),
            lexData foreign (normalizeNewlines ((startTag e).toList ++ rest)) =
              ([.startTag ⟨nameOf e.name.toList, readBack e.attributes, false⟩],
                normalizeNewlines rest)) ∧
          ((e.attributes.map Attribute.name).Nodup → (∀ a ∈ e.attributes, Plain a) →
            readBack e.attributes = e.attributes)) := by
  obtain ⟨styled, tables, hstyled, -, -⟩ := exists_passes hd hrun
  obtain ⟨rules, -, hread, -⟩ := applyStylesheet_eq_done hstyled
  have hrules := readable_of_parseBlocks hread
  have hfixed : ∀ name ∈ legacyNames ++ CellTable.givenNames, Carriable (lower name) := by
    decide +kernel
  refine ⟨rules, hread, ?_, fun hasked => ?_⟩
  · have hall := allNames_of_run horder hd hrun hread
      (P := fun name => name ≠ "" ∧ (Carriable name ∨ AskedFor rules name))
      (fun name hname => ⟨(hfixed name hname).1, Or.inl (hfixed name hname)⟩) ?_
      (fun name hname => ⟨hname.1, Or.inr hname⟩)
      (fun n hn e he a ha => ⟨(hnames n hn e he a ha).1, Or.inl (hnames n hn e he a ha)⟩)
    · exact hall
    · rintro name ⟨hne, hcarriable | hname⟩
      · exact ⟨hcarriable.lower.1, Or.inl hcarriable.lower⟩
      · rw [hname.lower hrules]
        exact ⟨hne, Or.inr hname⟩
  · have hall := allNames_of_run horder hd hrun hread hfixed (fun _ hname => hname.lower) hasked
      hnames
    exact ⟨hall, fun n hn e he htag =>
      ⟨lexData_written htag (hall n hn e he), readBack_eq_self⟩⟩

/-- The rule asks for a name that can be carried, and the element is turned into a table. -/
theorem attribute_names_of_run_table :
    let d := Document.ofTrees
      [.node (.element ⟨.html, "p", [⟨"Title", "1 & 2"⟩, ⟨"style", "-tableize:1"⟩]⟩) []] none true
    let options : InlineOptions := { extraCss := some "p\x7b-attr-data-k:\"\x7d" }
    let result := (inlineDocumentIn id d options).state
    (∀ tags, (id tags : List String).Perm tags) ∧ d.WellFormed ∧ d.CarriableNames ∧
      inlineDocumentIn id d options = Run.done result ∧ result.CarriableNames ∧
      result.forest.element? 4 = some ⟨.html, "td", [⟨"title", "1 & 2"⟩, ⟨"data-k", "\""⟩]⟩ ∧
      ∀ rest, lexData false (normalizeNewlines
        ("<td title=\"1 &amp; 2\" data-k=\"&quot;\">".toList ++ rest)) =
          ([.startTag ⟨"td", [⟨"title", "1 & 2"⟩, ⟨"data-k", "\""⟩], false⟩],
            normalizeNewlines rest) := by
  intro d options result
  have horder : ∀ tags, (id tags : List String).Perm tags := fun tags => List.Perm.refl tags
  have hd : d.WellFormed := ⟨Forest.wellFormed_of_forall (by decide), by decide, by decide⟩
  have hnames : d.CarriableNames := by decide +kernel
  obtain ⟨hfault, hmem, hcell⟩ : (inlineDocumentIn id d options).fault = none ∧
      4 ∈ result.elements ∧ result.forest.element? 4 =
        some ⟨.html, "td", [⟨"title", "1 & 2"⟩, ⟨"data-k", "\""⟩]⟩ := by
    decide +kernel
  have hrun : inlineDocumentIn id d options = Run.done result := Run.eq_done_of_fault hfault
  have hread : parseRules (collectStylesheet d options).2 =
      .ok [⟨[.single ⟨.tagName, "p"⟩], [⟨"-attr-data-k", "\""⟩]⟩] := by decide +kernel
  obtain ⟨rules, hrules, -, hcarried⟩ := attribute_names_of_run horder hd hnames hrun
  obtain rfl := Except.ok.inj (hread.symm.trans hrules)
  have hasked : ∀ name, AskedFor [⟨[.single ⟨.tagName, "p"⟩], [⟨"-attr-data-k", "\""⟩]⟩] name →
      Carriable name := by
    rintro name ⟨-, rule, hrule, -, x, hx, hproperty⟩
    obtain rfl := List.mem_singleton.1 hrule
    obtain rfl := List.mem_singleton.1 hx
    obtain rfl : "data-k" = name := String.append_right_inj attributeMarker |>.1 hproperty
    decide
  obtain ⟨hall, htags⟩ := hcarried hasked
  obtain ⟨hlex, hsame⟩ := htags 4 hmem _ hcell (by decide)
  have hwritten : startTag ⟨.html, "td", [⟨"title", "1 & 2"⟩, ⟨"data-k", "\""⟩]⟩ =
      "<td title=\"1 &amp; 2\" data-k=\"&quot;\">" := by decide +kernel
  have hplain : ∀ a ∈ [(⟨"title", "1 & 2"⟩ : Attribute), ⟨"data-k", "\""⟩], Plain a := by
    simp only [List.forall_mem_cons, List.not_mem_nil, false_implies, implies_true, and_true]
    exact ⟨⟨by decide +kernel, by decide, by decide, by decide⟩,
      ⟨by decide +kernel, by decide, by decide, by decide⟩⟩
  have htag : nameOf "td".toList = "td" := by decide +kernel
  refine ⟨horder, hd, hnames, hrun, hall, hcell, fun rest => ?_⟩
  rw [← hwritten, hlex, hsame (by decide) hplain, htag]

/-- A stylesheet may bring markup into a document by a name that it asks for. -/
theorem attribute_name_not_carried :
    let d := Document.ofTrees [.node (.element ⟨.html, "p", []⟩) [.node (.text "t") []]] none true
    let options : InlineOptions := { extraCss := some "p\x7b-attr-x><b>:y\x7d" }
    let result := (inlineDocument d options).state
    d.WellFormed ∧ d.CarriableNames ∧ inlineDocument d options = Run.done result ∧
      1 ∈ result.elements ∧
      result.forest.element? 1 = some ⟨.html, "p", [⟨"x><b>", "y"⟩]⟩ ∧ ¬ Carriable "x><b>" ∧
      writeDocument result = "<p x><b>=\"y\">t</p>" := by
  intro d options result
  obtain ⟨hfault, hmem, helement, htext⟩ : (inlineDocument d options).fault = none ∧
      1 ∈ result.elements ∧
      result.forest.element? 1 = some ⟨.html, "p", [⟨"x><b>", "y"⟩]⟩ ∧
      writeDocument result = "<p x><b>=\"y\">t</p>" := by
    decide +kernel
  exact ⟨⟨Forest.wellFormed_of_forall (by decide), by decide, by decide⟩, by decide +kernel,
    Run.eq_done_of_fault hfault, hmem, helement, by decide, htext⟩

end Inline

end StyleInliner
