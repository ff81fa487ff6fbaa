/-
Applying declarations to an element, step by step.

A step does nothing, fills an attribute or writes to the style text
(`apply_cases`), so what filling attributes and writing the style keeps is kept
by the whole application (`rel_of_applyDeclarations`).

`Extension own all` is the relation between what an element declares before and
after: the former comes first, and the properties that are added are new and
distinct.  The style text is read back from scratch each time.  That it reads as
it was meant to rests on two facts about reading: a text made ready for more reads
as before (`openStyle_spec`), and what is written behind its semicolon is read
apart from it.
-/
import StyleInliner.Inline.Application
import StyleInliner.Proofs.Css.Declaration
import StyleInliner.Proofs.Dom.Element

namespace StyleInliner

open StyleInliner.Css StyleInliner.Dom StyleInliner.Text

/-- What the style of an element declares; without a style that is nothing. -/
def Dom.Element.declarations (e : Element) : Except CssError (List Declaration) :=
  parseDeclarations ((e.attribute? "style").getD "")

theorem Dom.Element.declarations_congr {e e' : Element}
    (h : e'.attribute? "style" = e.attribute? "style") : e'.declarations = e.declarations := by
  rw [declarations, h, declarations]

namespace Inline

/-- The second list is the first one with declarations added whose properties are new and
distinct. -/
def Extension (own all : List Declaration) : Prop :=
  ∃ added, all = own ++ added ∧ (added.map Declaration.property).Nodup ∧
    ∀ d ∈ added, d.property ∉ own.map Declaration.property

theorem Extension.refl (own : List Declaration) : Extension own own :=
  ⟨[], by simp, by simp, by simp⟩

theorem Extension.of_length_le_one {all : List Declaration} (h : all.length ≤ 1) :
    Extension [] all := by
  refine ⟨all, rfl, ?_, by simp⟩
  match all, h with
  | [], _ => simp
  | [x], _ => simp

theorem Extension.trans {own all more : List Declaration} (h : Extension own all)
    (h' : Extension all more) : Extension own more := by
  obtain ⟨added, rfl, hnodup, hnew⟩ := h
  obtain ⟨added', rfl, hnodup', hnew'⟩ := h'
  refine ⟨added ++ added', List.append_assoc .., ?_, ?_⟩
  · rw [List.map_append]
    refine List.nodup_append.2 ⟨hnodup, hnodup', ?_⟩
    rintro p hp q hq rfl
    obtain ⟨d, hd, rfl⟩ := List.mem_map.1 hq
    exact hnew' d hd (by rw [List.map_append]; exact List.mem_append_right _ hp)
  · intro d hd
    rcases List.mem_append.1 hd with hd | hd
    · exact hnew d hd
    · intro hown
      exact hnew' d hd (by rw [List.map_append]; exact List.mem_append_left _ hown)

/-! ### The style text -/

/-- A style text that more can be written to ends in a semicolon and reads as before. -/
theorem openStyle_spec (style : String) :
    ∃ s, (openStyle style).toList = s ++ [';'] ∧
      parseDeclarations (String.ofList s) = parseDeclarations style := by
  have htrim : parseDeclarations (String.ofList (trim style.toList)) = parseDeclarations style :=
    parseDeclarations_trim style
  unfold openStyle
  dsimp only
  split
  · rename_i hlast
    rw [trimString, String.toList_ofList] at hlast ⊢
    obtain ⟨s, hs⟩ := List.getLast?_eq_some_iff.1 hlast
    refine ⟨s, hs, ?_⟩
    rw [← htrim, hs, parseDeclarations_append]
    cases parseDeclarations (String.ofList s) with
    | error fault => rfl
    | ok ds => simp [parseDeclarations, splitAt, allBlank]
  · refine ⟨trim style.toList, ?_, htrim⟩
    simp [trimString]

/-- Reading what was written behind a style text made ready for it. -/
theorem parseDeclarations_openStyle {style : String} {own added : List Declaration}
    (hown : parseDeclarations style = .ok own) (hadded : ∀ d ∈ added, d.Readable) :
    parseDeclarations (openStyle style ++ String.join (added.map Declaration.text)) =
      .ok (own ++ added) := by
  obtain ⟨s, hopen, hread⟩ := openStyle_spec style
  have htext : openStyle style ++ String.join (added.map Declaration.text) =
      String.ofList (s ++ ';' :: added.flatMap fun d => d.text.toList) := by
    apply String.toList_injective
    rw [String.toList_append, hopen, String.toList_join, List.flatMap_map, String.toList_ofList]
    simp
  have hwritten : parseDeclarations (String.ofList (added.flatMap fun d => d.text.toList)) =
      .ok added := by
    simpa using parseDeclarations_written (l := []) (r := []) hadded rfl rfl
  rw [htext, parseDeclarations_append, hread, hown, hwritten]
  rfl

/-- Reading what was written behind nothing. -/
theorem parseDeclarations_join {added : List Declaration} (hadded : ∀ d ∈ added, d.Readable) :
    parseDeclarations ("" ++ String.join (added.map Declaration.text)) = .ok added := by
  have htext : "" ++ String.join (added.map Declaration.text) =
      String.ofList (added.flatMap fun d => [] ++ d.text.toList ++ []) := by
    apply String.toList_injective
    simp [List.flatMap_map]
  rw [htext]
  exact parseDeclarations_written hadded rfl rfl

/-- A value alone reads as at most one declaration. -/
theorem length_of_parseDeclarations {value : String} (hvalue : ';' ∉ value.toList)
    {ds : List Declaration} (h : parseDeclarations value = .ok ds) : ds.length ≤ 1 := by
  rw [← String.ofList_toList (s := value), parseDeclarations_of_notMem hvalue] at h
  split at h
  · cases h
    simp
  · obtain ⟨d, -, rfl⟩ := map_eq_ok_iff.1 h
    simp

/-! ### Attributes that are asked for by name -/

theorem markedAttribute?_eq_some {property name : String}
    (h : markedAttribute? property = some name) : property = attributeMarker ++ name := by
  unfold markedAttribute? at h
  dsimp only at h
  split at h
  · rename_i hmarked
    obtain ⟨hmark, -⟩ := Bool.and_eq_true_iff.1 hmarked
    obtain ⟨rest, hrest⟩ := List.isPrefixOf_iff_prefix.1 hmark
    apply String.toList_injective
    rw [← Option.some.inj h, String.toList_append, ← hrest, List.drop_left, String.toList_ofList]
  · cases h

/-- No property asks for an attribute without a name. -/
theorem markedAttribute?_ne_empty {property name : String}
    (h : markedAttribute? property = some name) : name ≠ "" := by
  rintro rfl
  have hproperty := markedAttribute?_eq_some h
  unfold markedAttribute? at h
  dsimp only at h
  split at h
  · rename_i hmarked
    rw [Bool.and_eq_true, decide_eq_true_eq, hproperty, String.append_empty] at hmarked
    exact Nat.lt_irrefl _ hmarked.2
  · cases h

/-- The attributes that properties with a name of their own are written to. -/
def legacyNames : List String :=
  ["align", "valign", "width", "height", "bgcolor"]

/-- An attribute is written for a property with a name of its own, or it is asked for. -/
theorem attributeFor?_cases {tag property name : String}
    (h : attributeFor? tag property = some name) :
    name ∈ legacyNames ∨ markedAttribute? property = some name := by
  unfold attributeFor? at h
  split at h
  · exact Or.inl (Option.some.inj h ▸ by simp [legacyNames])
  · split at h
    · exact Or.inl (Option.some.inj h ▸ by simp [legacyNames])
    · split at h
      · rename_i hsize
        refine Or.inl ?_
        rw [← Option.some.inj h]
        rcases hsize.1 with rfl | rfl <;> simp [legacyNames]
      · split at h
        · exact Or.inl (Option.some.inj h ▸ by simp [legacyNames])
        · exact Or.inr h

/-- Any other attribute is written for the property that asks for it only, on elements of any
tag. -/
theorem eq_marker_append {tag property written name : String}
    (hname : ∀ other ∈ legacyNames, lower other ≠ lower name) (hlower : lower property = property)
    (h : attributeFor? tag property = some written) (hwritten : lower written = lower name) :
    property = lower (attributeMarker ++ name) := by
  rcases attributeFor?_cases h with hlegacy | hmarked
  · exact absurd hwritten (hname written hlegacy)
  · rw [← hlower, markedAttribute?_eq_some hmarked, lower_append, lower_append, hwritten]

/-! ### The steps -/

theorem apply_of_mem {a : Application} {d : Declaration} (h : d.property ∈ a.seen) :
    a.apply d = a :=
  if_pos h

theorem apply_of_attribute {a : Application} {d : Declaration} (hnew : d.property ∉ a.seen)
    {name : String} (hname : attributeFor? a.element.tag d.property = some name) :
    a.apply d =
      { a with seen := d.property :: a.seen, element := a.element.fillAttribute name d.value } := by
  simp [Application.apply, hnew, hname]

theorem apply_of_style {a : Application} {d : Declaration} (hnew : d.property ∉ a.seen)
    (hname : attributeFor? a.element.tag d.property = none) :
    a.apply d =
      { a with seen := d.property :: a.seen, style := some (a.style.getD "" ++ d.text) } := by
  simp [Application.apply, hnew, hname]

/-- What applying a declaration may come to. -/
theorem apply_cases (a : Application) (d : Declaration) :
    a.apply d = a ∨
      d.property ∉ a.seen ∧
        ((∃ name, attributeFor? a.element.tag d.property = some name ∧
            a.apply d =
              { a with seen := d.property :: a.seen,
                       element := a.element.fillAttribute name d.value }) ∨
          a.apply d =
            { a with seen := d.property :: a.seen,
                     style := some (a.style.getD "" ++ d.text) }) := by
  by_cases hseen : d.property ∈ a.seen
  · exact Or.inl (apply_of_mem hseen)
  · refine Or.inr ⟨hseen, ?_⟩
    cases hname : attributeFor? a.element.tag d.property with
    | none => exact Or.inr (apply_of_style hseen hname)
    | some name => exact Or.inl ⟨name, rfl, apply_of_attribute hseen hname⟩

/-! ### One application -/

/-- An application begins with what the element declares, if that can be read. -/
theorem start_eq_ok_iff {e : Element} {a : Application} :
    Application.start e = .ok a ↔ ∃ own, e.declarations = .ok own ∧
      a = ⟨e, own.map Declaration.property,
        if own = [] then none else some (openStyle ((e.attribute? "style").getD ""))⟩ := by
  unfold Application.start Element.declarations
  cases e.attribute? "style" with
  | none =>
      constructor
      · intro h
        exact ⟨[], rfl, (Except.ok.inj h).symm⟩
      · rintro ⟨own, hown, rfl⟩
        obtain rfl : [] = own := Except.ok.inj hown
        rfl
  | some style =>
      simp only [Option.getD_some]
      rw [bind_eq_ok_iff]
      refine exists_congr fun own => and_congr_right fun _ => ?_
      cases own with
      | nil => exact ⟨fun h => (Except.ok.inj h).symm, fun h => congrArg Except.ok h.symm⟩
      | cons d ds => exact ⟨fun h => (Except.ok.inj h).symm, fun h => congrArg Except.ok h.symm⟩

/-- **What filling the attributes asked for keeps, and writing the style, applying declarations
keeps.** -/
theorem rel_of_applyDeclarations {R : Element → Element → Prop} (hrefl : ∀ e, R e e)
    (htrans : ∀ {a b c}, R a b → R b c → R a c) {ds : List Declaration}
    (hfill : ∀ d ∈ ds, ∀ (e : Element) (name : String),
      attributeFor? e.tag d.property = some name → R e (e.fillAttribute name d.value))
    (hstyle : ∀ (e : Element) (style : String), R e (e.setAttribute "style" style))
    {e e' : Element} (h : applyDeclarations e ds = .ok e') : R e e' := by
  have hfold : ∀ (l : List Declaration) (a : Application), l ⊆ ds →
      R a.element (l.foldl Application.apply a).element := by
    intro l
    induction l with
    | nil => exact fun a _ => hrefl a.element
    | cons d l ih =>
        intro a hl
        obtain ⟨hd, hl⟩ := List.cons_subset.1 hl
        refine htrans ?_ (ih (a.apply d) hl)
        rcases apply_cases a d with heq | ⟨-, ⟨name, hname, heq⟩ | heq⟩ <;> rw [heq]
        · exact hrefl a.element
        · exact hfill d hd a.element name hname
        · exact hrefl a.element
  have hfinish : ∀ a : Application, R a.element a.finish := by
    intro a
    unfold Application.finish
    split
    · exact hstyle a.element _
    · exact hrefl a.element
  obtain ⟨a, ha, rfl⟩ := map_eq_ok_iff.1 h
  obtain ⟨own, -, hstart⟩ := start_eq_ok_iff.1 ha
  have helement : a.element = e := by rw [hstart]
  rw [← helement]
  exact htrans (hfold ds a (List.Subset.refl ds)) (hfinish _)

/-- An attribute other than the style is left alone, or it has the value of a declaration that is
written to it. -/
theorem attribute?_applyDeclarations {name : String} (hname : lower "style" ≠ lower name)
    {e e' : Element} {ds : List Declaration} (h : applyDeclarations e ds = .ok e') :
    e'.attribute? name = e.attribute? name ∨
      ∃ d ∈ ds, ∃ written, attributeFor? e.tag d.property = some written ∧
        lower written = lower name ∧ e'.attribute? name = some d.value := by
  refine (rel_of_applyDeclarations (R := fun x y => y.tag = x.tag ∧
    (y.attribute? name = x.attribute? name ∨
      ∃ d ∈ ds, ∃ written, attributeFor? x.tag d.property = some written ∧
        lower written = lower name ∧ y.attribute? name = some d.value)) ?_ ?_ ?_ ?_ h).2
  · exact fun x => ⟨rfl, Or.inl rfl⟩
  · rintro x y z ⟨htag, hxy⟩ ⟨htag', hyz⟩
    refine ⟨htag'.trans htag, ?_⟩
    rcases hyz with hsame | hfilled
    · rw [hsame]
      exact hxy
    · exact Or.inr (htag ▸ hfilled)
  · intro d hd x written hwritten
    refine ⟨by rw [Element.tag, Element.name_fillAttribute, Element.tag], ?_⟩
    by_cases hsame : lower written = lower name
    · rcases Element.attribute?_fillAttribute x written d.value name with hkeep | ⟨-, hfilled⟩
      · exact Or.inl hkeep
      · exact Or.inr ⟨d, hd, written, hwritten, hsame, hfilled⟩
    · exact Or.inl (Element.attribute?_fillAttribute_of_ne hsame x d.value)
  · exact fun x style => ⟨rfl, Or.inl (Element.attribute?_setAttribute_of_ne hname x style)⟩

end Inline

end StyleInliner
