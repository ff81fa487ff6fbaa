/-
Applying the same declarations once more.

The second application reads the style that the first one wrote.  If a style was
written, it declares what the element declared itself and what was left for the style,
so of the declarations only those written to attributes count again, and these find
their attributes filled (`holds_fillAll`).  The style text needs nothing done to it
either, as it ends in the semicolon that was put there (`openStyle_of_opened`).

That leaves the elements that no style was written to.  There the attributes are filled
as before, unless one of them is the style itself: a declaration may ask for it by name,
and its value is taken as it is.  `AssignsStyle` tells when that happens, and
`applyDeclarations_again` says that nothing else sets the second application apart.
-/
import StyleInliner.Proofs.Inline.Effect

namespace StyleInliner

open StyleInliner.Css StyleInliner.Dom StyleInliner.Text

/-- The declaration was read from some text, alone or among others. -/
def Css.Declaration.IsRead (d : Declaration) : Prop :=
  ∃ source ds, parseDeclarations source = .ok ds ∧ d ∈ ds

theorem Css.Declaration.IsRead.readable {d : Declaration} (h : d.IsRead) : d.Readable := by
  obtain ⟨source, ds, hds, hd⟩ := h
  exact readable_of_parseDeclarations hds d hd

namespace Inline

/-! ### Attributes that are filled -/

/-- The attribute is there, and a write to it would do nothing: it holds something, or is as empty
as the value. -/
def Holds (e : Element) (write : String × String) : Prop :=
  ∃ held, e.attribute? write.1 = some held ∧ (held = "" → write.2 = "")

theorem fillAttribute_of_holds {e : Element} {write : String × String} (h : Holds e write) :
    e.fillAttribute write.1 write.2 = e := by
  obtain ⟨held, hheld, hempty⟩ := h
  unfold Element.fillAttribute
  rw [hheld]
  by_cases hnone : held = ""
  · rw [hempty hnone, hnone]
    exact Element.setAttribute_self (hheld.trans (congrArg some hnone))
  · simp [hnone]

theorem fillAll_of_holds {e : Element} {writes : List (String × String)}
    (h : ∀ write ∈ writes, Holds e write) : fillAll e writes = e := by
  induction writes with
  | nil => rfl
  | cons write writes ih =>
      rw [fillAll_cons, fillAttribute_of_holds (h write (by simp)),
        ih fun other hother => h other (by simp [hother])]

theorem exists_settled_eq_some {value : String} {values : List String} (h : value ∈ values)
    (old : Option String) :
    ∃ held, settled old values = some held ∧ (held = "" → value = "") := by
  unfold settled
  by_cases hold : old.getD "" = ""
  · rw [if_neg (not_not_intro hold)]
    cases hfind : values.find? (· ≠ "") with
    | some first =>
        have hfirst : first ≠ "" := by simpa using List.find?_some hfind
        exact ⟨first, rfl, fun he => absurd he hfirst⟩
    | none =>
        have hall : value = "" := by simpa using (List.find?_eq_none.1 hfind) value h
        exact ⟨"", if_neg (List.ne_nil_of_mem h), fun _ => hall⟩
  · cases old with
    | none => exact absurd rfl hold
    | some held => exact ⟨held, if_pos hold, fun he => absurd he hold⟩

/-- **What was written to an attribute need not be written again.** -/
theorem holds_fillAll {write : String × String} {writes : List (String × String)}
    (h : write ∈ writes) (e : Element) : Holds (fillAll e writes) write := by
  have hvalue : write.2 ∈ valuesFor write.1 writes := mem_valuesFor.2 ⟨write, h, rfl, rfl⟩
  obtain ⟨held, hheld, hempty⟩ := exists_settled_eq_some hvalue (e.attribute? write.1)
  exact ⟨held, by rw [attribute?_fillAll, hheld], hempty⟩

theorem Holds.setAttribute {e : Element} {write : String × String} (h : Holds e write)
    (name : String) {value : String} (hvalue : value ≠ "") :
    Holds (e.setAttribute name value) write := by
  obtain ⟨held, hheld, hempty⟩ := h
  rw [Holds, Element.attribute?_setAttribute]
  by_cases hname : lower name = lower write.1
  · exact ⟨value, if_pos hname, fun he => absurd he hvalue⟩
  · exact ⟨held, by rw [if_neg hname, hheld], hempty⟩

/-! ### Style texts that need nothing done -/

/-- The text is trimmed and ends in a semicolon. -/
def Opened (style : String) : Prop :=
  Trimmed style.toList ∧ style.toList.getLast? = some ';'

theorem openStyle_of_opened {style : String} (h : Opened style) : openStyle style = style := by
  have htrim : trimString style = style := by
    rw [trimString, trim_of_trimmed h.1, String.ofList_toList]
  unfold openStyle
  dsimp only
  rw [htrim, if_pos h.2]

theorem Opened.ne_empty {style : String} (h : Opened style) : style ≠ "" := by
  rintro rfl
  cases h.2

theorem Opened.append {a b : String} (ha : Opened a) (hb : Opened b) : Opened (a ++ b) := by
  have hane : a.toList ≠ [] := fun he => by simp [Opened, he] at ha
  have hbne : b.toList ≠ [] := fun he => by simp [Opened, he] at hb
  constructor
  · simpa using ha.1.append (m := []) hb.1 hane hbne
  · rw [String.toList_append, List.getLast?_append_of_ne_nil _ hbne]
    exact hb.2

theorem trimmed_semicolon : Trimmed [';'] :=
  trimmed_of_forall fun _ hc => List.mem_singleton.1 hc ▸ rfl

theorem opened_openStyle (style : String) : Opened (openStyle style) := by
  have htrimmed := trimmed_trim style.toList
  unfold openStyle
  dsimp only
  split
  · rename_i hlast
    exact ⟨by simpa [trimString] using htrimmed, hlast⟩
  · by_cases hnone : trim style.toList = []
    · simp [Opened, trimString, hnone, trimmed_semicolon]
    · have happend := htrimmed.append (m := []) trimmed_semicolon hnone (by simp)
      exact ⟨by simpa [trimString] using happend, by simp [trimString]⟩

theorem opened_text {d : Declaration} (hd : d.Readable) : Opened d.text := by
  have htrimmed := hd.property_trimmed.append (m := ':' :: d.value.toList) trimmed_semicolon
    hd.property_ne (by simp)
  rw [Opened, Declaration.toList_text]
  exact ⟨htrimmed, List.getLast?_concat⟩

theorem opened_append_join {style : String} (hstyle : Opened style) {ds : List Declaration}
    (hds : ∀ d ∈ ds, d.Readable) : Opened (style ++ String.join (ds.map Declaration.text)) := by
  induction ds generalizing style with
  | nil => simpa using hstyle
  | cons d ds ih =>
      rw [List.map_cons, String.join_cons, ← String.append_assoc]
      exact ih (hstyle.append (opened_text (hds d (by simp)))) fun x hx => hds x (by simp [hx])

/-- A style that is written is ready for more, whatever it was put together from. -/
theorem opened_written {own styled : List Declaration} (hstyled : ∀ d ∈ styled, d.Readable)
    (hsome : ¬ (own = [] ∧ styled = [])) (style : String) :
    Opened ((if own = [] then "" else openStyle style) ++
      String.join (styled.map Declaration.text)) := by
  by_cases hown : own = []
  · rw [if_pos hown]
    cases styled with
    | nil => exact absurd ⟨hown, rfl⟩ hsome
    | cons d styled =>
        rw [List.map_cons, String.join_cons, String.empty_append]
        exact opened_append_join (opened_text (hstyled d (by simp)))
          fun x hx => hstyled x (by simp [hx])
  · rw [if_neg hown]
    exact opened_append_join (opened_openStyle style) hstyled

/-! ### The declarations that count once more -/

theorem countedAmong_append (taken more : List String) (ds : List Declaration) :
    countedAmong (taken ++ more) ds = (countedAmong taken ds).filter (·.property ∉ more) := by
  rw [countedAmong, countedAmong, filter_firstOfEach fun property => decide (property ∉ more),
    List.filter_filter]
  congr 1
  refine List.filter_congr fun d _ => ?_
  simp [not_or, Bool.and_comm]

theorem exists_mem_firstOfEach {d : Declaration} {ds : List Declaration} (h : d ∈ ds) :
    ∃ first ∈ firstOfEach ds, first.property = d.property := by
  induction ds with
  | nil => cases h
  | cons other ds ih =>
      rw [firstOfEach]
      by_cases hsame : other.property = d.property
      · exact ⟨other, by simp, hsame⟩
      · have hd : d ∈ ds := (List.mem_cons.1 h).resolve_left fun he => hsame (by rw [he])
        obtain ⟨first, hfirst, hproperty⟩ := ih hd
        refine ⟨first, ?_, hproperty⟩
        have hne : first.property ≠ other.property := by
          rw [hproperty]
          exact Ne.symm hsame
        simp [hfirst, hne]

/-- Of one property the first declaration counts. -/
theorem filter_property_firstOfEach (property : String) (ds : List Declaration) :
    (firstOfEach ds).filter (·.property = property) =
      (ds.find? (·.property = property)).toList := by
  induction ds with
  | nil => rfl
  | cons d ds ih =>
      rw [firstOfEach]
      by_cases hd : d.property = property
      · simp [hd]
      · have hne : property ≠ d.property := Ne.symm hd
        have hboth : ∀ x : Declaration,
            (decide (x.property = property) && decide (x.property ≠ d.property)) =
              decide (x.property = property) := by
          intro x
          by_cases hx : x.property = property <;> simp [hx, hne]
        rw [List.filter_cons_of_neg (by simpa using hd), List.filter_filter,
          List.find?_cons_of_neg (by simpa using hd), ← ih]
        exact List.filter_congr fun x _ => hboth x

section Written

variable (tag : String) (counted : List Declaration)

/-- Where the properties left for the style are taken, what is written to attributes counts. -/
theorem filter_notMem_styleDeclarations :
    counted.filter (·.property ∉ (styleDeclarations tag counted).map Declaration.property) =
      counted.filter fun d => attributeFor? tag d.property ≠ none := by
  refine List.filter_congr fun d hd => ?_
  rw [decide_eq_decide, not_iff_not]
  constructor
  · intro hmem
    obtain ⟨x, hx, hproperty⟩ := List.mem_map.1 hmem
    rw [← hproperty]
    simpa using (List.mem_filter.1 hx).2
  · intro hnone
    exact List.mem_map.2 ⟨d, List.mem_filter.2 ⟨hd, by simpa using hnone⟩, rfl⟩

theorem attributeWrites_filter :
    attributeWrites tag (counted.filter fun d => attributeFor? tag d.property ≠ none) =
      attributeWrites tag counted := by
  rw [attributeWrites, attributeWrites, List.filterMap_filter]
  refine List.filterMap_congr fun d _ => ?_
  cases attributeFor? tag d.property <;> simp

theorem styleDeclarations_filter :
    styleDeclarations tag (counted.filter fun d => attributeFor? tag d.property ≠ none) = [] := by
  rw [styleDeclarations, List.filter_filter, List.filter_eq_nil_iff]
  simp

end Written

/-! ### Nothing left but the style text -/

/-- Where all attributes are filled and nothing is left for the style, its text is made ready for
more, if it declares anything. -/
theorem applyDeclarations_of_holds {e : Element} {own ds : List Declaration}
    (hown : e.declarations = .ok own)
    (hstyled : styleDeclarations e.tag (countedAmong (own.map Declaration.property) ds) = [])
    (hholds : ∀ write ∈
      attributeWrites e.tag (countedAmong (own.map Declaration.property) ds), Holds e write) :
    applyDeclarations e ds = .ok (if own = [] then e
      else e.setAttribute "style" (openStyle ((e.attribute? "style").getD ""))) := by
  rw [applyDeclarations_eq hown, hstyled, fillAll_of_holds hholds]
  by_cases hnone : own = []
  · rw [if_pos ⟨hnone, rfl⟩, if_pos hnone]
  · rw [if_neg fun h => hnone h.1, if_neg hnone, if_neg hnone]
    simp

/-- An application that finds a style it cannot read fails for the reason that it cannot. -/
theorem applyDeclarations_of_fault {e : Element} {fault : CssError}
    (h : e.declarations = .error fault) (ds : List Declaration) :
    applyDeclarations e ds = .error fault := by
  rw [applyDeclarations, Application.start]
  unfold Element.declarations at h
  cases hstyle : e.attribute? "style" with
  | none =>
      rw [hstyle] at h
      cases h
  | some style =>
      rw [hstyle, Option.getD_some] at h
      simp only [h]
      rfl

/-! ### Elements that a style was written to -/

/-- **Where a style was written, a second application changes nothing.** -/
theorem applyDeclarations_again_of_written {e e' : Element} {own ds : List Declaration}
    (hds : ∀ d ∈ ds, d.Readable) (hown : e.declarations = .ok own)
    (hwritten : ¬ (own = [] ∧
      styleDeclarations e.tag (countedAmong (own.map Declaration.property) ds) = []))
    (h : applyDeclarations e ds = .ok e') : applyDeclarations e' ds = .ok e' := by
  have heffect := Except.ok.inj (h.symm.trans (applyDeclarations_eq hown ds))
  rw [if_neg hwritten] at heffect
  have hreadable : ∀ d ∈ countedAmong (own.map Declaration.property) ds, d.Readable := fun d hd =>
    hds d (mem_of_mem_countedAmong hd).1
  generalize hcounted : countedAmong (own.map Declaration.property) ds = counted at *
  have hstyled : ∀ d ∈ styleDeclarations e.tag counted, d.Readable := fun d hd =>
    hreadable d (List.mem_filter.1 hd).1
  have hopened := opened_written hstyled hwritten ((e.attribute? "style").getD "")
  have hread : parseDeclarations ((if own = [] then ""
      else openStyle ((e.attribute? "style").getD "")) ++
        String.join ((styleDeclarations e.tag counted).map Declaration.text)) =
      .ok (own ++ styleDeclarations e.tag counted) := by
    by_cases hnone : own = []
    · rw [if_pos hnone, parseDeclarations_join hstyled, hnone, List.nil_append]
    · rw [if_neg hnone, parseDeclarations_openStyle hown hstyled]
  generalize (if own = [] then "" else openStyle ((e.attribute? "style").getD "")) ++
    String.join ((styleDeclarations e.tag counted).map Declaration.text) = style at *
  -- what the second application finds
  have htag : e'.tag = e.tag := by
    obtain ⟨attributes, hfilled⟩ := fillAll_eq (attributeWrites e.tag counted) e
    rw [heffect, hfilled]
    rfl
  have hstyle : e'.attribute? "style" = some style := by
    rw [heffect, Element.attribute?_setAttribute, if_pos rfl]
  have hdeclares : e'.declarations = .ok (own ++ styleDeclarations e.tag counted) := by
    rw [Element.declarations, hstyle, Option.getD_some, hread]
  have hcountedAgain : countedAmong ((own ++ styleDeclarations e.tag counted).map
      Declaration.property) ds = counted.filter fun d => attributeFor? e.tag d.property ≠ none := by
    rw [List.map_append, countedAmong_append, hcounted, filter_notMem_styleDeclarations]
  have hholds : ∀ write ∈ attributeWrites e.tag counted, Holds e' write := by
    intro write hwrite
    rw [heffect]
    exact (holds_fillAll hwrite e).setAttribute "style" hopened.ne_empty
  have hsome : own ++ styleDeclarations e.tag counted ≠ [] := by
    simpa using hwritten
  rw [applyDeclarations_of_holds hdeclares, if_neg hsome, hstyle, Option.getD_some,
    openStyle_of_opened hopened, Element.setAttribute_self hstyle]
  · rw [htag, hcountedAgain, styleDeclarations_filter]
  · rwa [htag, hcountedAgain, attributeWrites_filter]

/-! ### Elements that no style was written to -/

/-- The property that asks to be written as the style attribute. -/
def styleProperty : String :=
  attributeMarker ++ "style"

/-- Applying the declarations makes a value the style of the element: it has no style or an empty
one, all of them are written to attributes, and the value is that of the first which is written
to the style attribute. -/
structure AssignsStyle (e : Element) (ds : List Declaration) (value : String) : Prop where
  unstyled : (e.attribute? "style").getD "" = ""
  to_attributes : ∀ d ∈ ds, attributeFor? e.tag d.property ≠ none
  first : (ds.find? (·.property = styleProperty)).map Declaration.value = some value
  value_ne : value ≠ ""

theorem attributeFor?_styleProperty (tag : String) :
    attributeFor? tag styleProperty = some "style" := by
  have hmarked : markedAttribute? styleProperty = some "style" := by decide +kernel
  have hne : styleProperty ≠ "text-align" ∧ styleProperty ≠ "vertical-align" ∧
      styleProperty ≠ "width" ∧ styleProperty ≠ "height" ∧
      styleProperty ≠ "background-color" := by
    decide +kernel
  simp [attributeFor?, hne, hmarked]

theorem attributeFor?_eq_style_iff (tag : String) {d : Declaration} (hd : d.Readable) :
    (∃ written, attributeFor? tag d.property = some written ∧ lower written = lower "style") ↔
      d.property = styleProperty := by
  constructor
  · rintro ⟨written, hwritten, hstyle⟩
    rw [eq_marker_append (by decide +kernel) hd.property_lower hwritten hstyle]
    decide +kernel
  · rintro hproperty
    exact ⟨"style", by rw [hproperty, attributeFor?_styleProperty], rfl⟩

/-- The values for the style attribute are those of the property that asks for it. -/
theorem valuesFor_style {ds : List Declaration} (hds : ∀ d ∈ ds, d.Readable) (tag : String) :
    valuesFor "style" (attributeWrites tag ds) =
      (ds.filter (·.property = styleProperty)).map Declaration.value := by
  induction ds with
  | nil => rfl
  | cons d ds ih =>
      have hrest := ih fun x hx => hds x (by simp [hx])
      have hiff := attributeFor?_eq_style_iff tag (hds d (by simp))
      cases hwritten : attributeFor? tag d.property with
      | none =>
          have hd : d.property ≠ styleProperty := fun h => by
            obtain ⟨written, hsome, -⟩ := hiff.2 h
            rw [hwritten] at hsome
            cases hsome
          have hskip : attributeWrites tag (d :: ds) = attributeWrites tag ds := by
            simp [attributeWrites, hwritten]
          rw [hskip, hrest, List.filter_cons_of_neg (by simpa using hd)]
      | some written =>
          have hwrite : attributeWrites tag (d :: ds) =
              (written, d.value) :: attributeWrites tag ds := by
            simp [attributeWrites, hwritten]
          have hd : lower written = lower "style" ↔ d.property = styleProperty := by
            simpa [hwritten] using hiff
          rw [hwrite, valuesFor_cons, hrest]
          by_cases hstyle : lower written = lower "style"
          · rw [if_pos hstyle, List.filter_cons_of_pos (by simpa using hd.1 hstyle), List.map_cons]
          · rw [if_neg hstyle, List.filter_cons_of_neg (by simpa using fun h => hstyle (hd.2 h))]

section Unwritten

variable {e e' : Element} {ds : List Declaration} (hds : ∀ d ∈ ds, d.Readable)
  (hown : e.declarations = .ok [])
  (hnone : styleDeclarations e.tag (countedAmong [] ds) = [])
  (h : applyDeclarations e ds = .ok e')

include hown hnone h in
theorem eq_fillAll_of_unwritten : e' = fillAll e (attributeWrites e.tag (firstOfEach ds)) := by
  have heffect := Except.ok.inj (h.symm.trans (applyDeclarations_eq hown ds))
  rw [List.map_nil, if_pos ⟨rfl, hnone⟩, countedAmong] at heffect
  simpa using heffect

include hnone in
theorem attributeFor?_ne_none_of_unwritten : ∀ d ∈ ds, attributeFor? e.tag d.property ≠ none := by
  intro d hd hstyled
  obtain ⟨first, hfirst, hproperty⟩ := exists_mem_firstOfEach hd
  have hmem : first ∈ styleDeclarations e.tag (countedAmong [] ds) := by
    rw [styleDeclarations, List.mem_filter, countedAmong]
    exact ⟨by simpa using hfirst, by simpa [hproperty] using hstyled⟩
  rw [hnone] at hmem
  cases hmem

include hds hown hnone h in
/-- The style is the first value for it, if there was none to speak of. -/
theorem style_of_unwritten : e'.attribute? "style" = settled (e.attribute? "style")
    ((ds.find? (·.property = styleProperty)).map Declaration.value).toList := by
  have hreadable : ∀ d ∈ firstOfEach ds, d.Readable := fun d hd =>
    hds d ((sublist_firstOfEach ds).subset hd)
  rw [eq_fillAll_of_unwritten hown hnone h, attribute?_fillAll, valuesFor_style hreadable,
    filter_property_firstOfEach]
  cases ds.find? (·.property = styleProperty) <;> rfl

include hds hown hnone h in
theorem declarations_of_not_assigns (hassigns : ¬ ∃ value, AssignsStyle e ds value) :
    e'.declarations = .ok [] := by
  have hstyle := style_of_unwritten hds hown hnone h
  have hsame : e'.attribute? "style" = e.attribute? "style" → e'.declarations = .ok [] := fun hs =>
    (Element.declarations_congr hs).trans hown
  cases hfind : ds.find? (·.property = styleProperty) with
  | none =>
      rw [hfind] at hstyle
      exact hsame (hstyle.trans (by simp [settled]))
  | some d =>
      rw [hfind] at hstyle
      by_cases hunstyled : (e.attribute? "style").getD "" = ""
      · have hvalue : d.value = "" := by
          by_contra hne
          exact hassigns ⟨d.value, hunstyled, attributeFor?_ne_none_of_unwritten hnone,
            by rw [hfind]; rfl, hne⟩
        have hempty : e'.attribute? "style" = some "" :=
          hstyle.trans (by simp [settled, hunstyled, hvalue])
        rw [Element.declarations, hempty]
        rfl
      · exact hsame (hstyle.trans (by simp [settled, hunstyled]))

include hds hown hnone h in
theorem style_of_assigns {value : String} (hassigns : AssignsStyle e ds value) :
    e'.attribute? "style" = some value := by
  rw [style_of_unwritten hds hown hnone h, hassigns.first]
  simp [settled, hassigns.unstyled, hassigns.value_ne]

include hown hnone h in
/-- Whatever is declared now, all attributes are filled and nothing is left for the style. -/
theorem applyDeclarations_again_of_unwritten {own' : List Declaration}
    (hown' : e'.declarations = .ok own') :
    applyDeclarations e' ds = .ok (if own' = [] then e'
      else e'.setAttribute "style" (openStyle ((e'.attribute? "style").getD ""))) := by
  have hfilled := eq_fillAll_of_unwritten hown hnone h
  have htag : e'.tag = e.tag := by
    obtain ⟨attributes, heq⟩ := fillAll_eq (attributeWrites e.tag (firstOfEach ds)) e
    rw [hfilled, heq]
    rfl
  refine applyDeclarations_of_holds hown' ?_ ?_
  · rw [htag, styleDeclarations, List.filter_eq_nil_iff]
    intro d hd
    simpa using attributeFor?_ne_none_of_unwritten hnone d (mem_of_mem_countedAmong hd).1
  · intro write hwrite
    have hcounted : countedAmong (own'.map Declaration.property) ds =
        (firstOfEach ds).filter (·.property ∉ own'.map Declaration.property) := by
      rw [← List.nil_append (own'.map Declaration.property), countedAmong_append, countedAmong]
      simp
    rw [hcounted, htag] at hwrite
    rw [hfilled]
    exact holds_fillAll ((List.filter_sublist.filterMap _).subset hwrite) e

end Unwritten

/-! ### Elements that a value was made the style of -/

/-- A value alone declares something, or cannot be read. -/
theorem ne_nil_of_parseDeclarations {d : Declaration} (hd : d.Readable) (hvalue : d.value ≠ "")
    {ds : List Declaration} (h : parseDeclarations d.value = .ok ds) : ds ≠ [] := by
  rw [← String.ofList_toList (s := d.value), parseDeclarations_of_notMem hd.value_plain] at h
  have hmarked : ¬ allBlank d.value.toList = true := by
    rw [← trim_eq_nil_iff, trim_of_trimmed hd.value_trimmed]
    simpa using hvalue
  rw [if_neg hmarked] at h
  obtain ⟨x, -, rfl⟩ := map_eq_ok_iff.1 h
  simp

theorem openStyle_value {d : Declaration} (hd : d.Readable) :
    openStyle d.value = d.value ++ ";" := by
  have htrim : trimString d.value = d.value := by
    rw [trimString, trim_of_trimmed hd.value_trimmed, String.ofList_toList]
  unfold openStyle
  dsimp only
  rw [htrim, if_neg fun hlast => hd.value_plain (List.mem_of_getLast? hlast)]
  apply String.toList_injective
  simp

section Assigned

variable {e e' : Element} {ds : List Declaration} {value : String}

/-- An element that a value is made the style of declares nothing, and nothing is left for its
style. -/
theorem AssignsStyle.unwritten (hassigns : AssignsStyle e ds value) (taken : List String) :
    e.declarations = .ok [] ∧ styleDeclarations e.tag (countedAmong taken ds) = [] := by
  constructor
  · rw [Element.declarations, hassigns.unstyled]
    rfl
  · rw [styleDeclarations, List.filter_eq_nil_iff]
    intro d hd
    simpa using hassigns.to_attributes d (mem_of_mem_countedAmong hd).1

variable (hds : ∀ d ∈ ds, d.Readable) (hassigns : AssignsStyle e ds value)
  (h : applyDeclarations e ds = .ok e')
include hds hassigns h

/-- **A value that was made the style is read by the second application.** -/
theorem applyDeclarations_again_of_assigns :
    e'.attribute? "style" = some value ∧ applyDeclarations e' ds =
      (parseDeclarations value).map fun _ => e'.setAttribute "style" (value ++ ";") := by
  obtain ⟨d, hfind, rfl⟩ := Option.map_eq_some_iff.1 hassigns.first
  have hd := hds d (List.mem_of_find?_eq_some hfind)
  obtain ⟨hown, hnone⟩ := hassigns.unwritten []
  have hstyle := style_of_assigns hds hown hnone h hassigns
  refine ⟨hstyle, ?_⟩
  have hdeclares : e'.declarations = parseDeclarations d.value := by
    rw [Element.declarations, hstyle, Option.getD_some]
  cases hread : parseDeclarations d.value with
  | error fault => exact applyDeclarations_of_fault (hdeclares.trans hread) ds
  | ok own =>
      rw [applyDeclarations_again_of_unwritten hown hnone h (hdeclares.trans hread),
        if_neg (ne_nil_of_parseDeclarations hd hassigns.value_ne hread), hstyle,
        Option.getD_some, openStyle_value hd]
      rfl

theorem applyDeclarations_again_ne : applyDeclarations e' ds ≠ .ok e' := by
  intro hagain
  obtain ⟨hstyle, heffect⟩ := applyDeclarations_again_of_assigns hds hassigns h
  obtain ⟨own, -, hsame⟩ := map_eq_ok_iff.1 (heffect.symm.trans hagain)
  have hlonger : e'.attribute? "style" = some (value ++ ";") := by
    rw [← hsame, Element.attribute?_setAttribute, if_pos rfl]
  rw [hstyle, Option.some.injEq] at hlonger
  have hlength := congrArg String.length hlonger
  rw [String.length_append] at hlength
  exact absurd hlength (by simp)

end Assigned

/-- **Applying declarations once more changes nothing, unless they made a value the style.**  What
is applied is read from texts.  Where a value was made the style, it is the style now, and a second
application has to read it: it fails if it cannot, and otherwise only puts a semicolon behind it. -/
theorem applyDeclarations_again {e e' : Element} {ds : List Declaration}
    (hds : ∀ d ∈ ds, d.IsRead) (h : applyDeclarations e ds = .ok e') :
    (applyDeclarations e' ds = .ok e' ↔ ¬ ∃ value, AssignsStyle e ds value) ∧
      ∀ value, AssignsStyle e ds value → e'.attribute? "style" = some value ∧
        applyDeclarations e' ds =
          (parseDeclarations value).map fun _ => e'.setAttribute "style" (value ++ ";") := by
  have hreadable : ∀ d ∈ ds, d.Readable := fun d hd => (hds d hd).readable
  refine ⟨⟨?_, fun hassigns => ?_⟩, fun value hassigns =>
    applyDeclarations_again_of_assigns hreadable hassigns h⟩
  · rintro hagain ⟨value, hassigns⟩
    exact applyDeclarations_again_ne hreadable hassigns h hagain
  · obtain ⟨a, ha, -⟩ := map_eq_ok_iff.1 h
    obtain ⟨own, hown, -⟩ := start_eq_ok_iff.1 ha
    by_cases hwritten : own = [] ∧
        styleDeclarations e.tag (countedAmong (own.map Declaration.property) ds) = []
    · obtain ⟨rfl, hnone⟩ := hwritten
      have hdeclares := declarations_of_not_assigns hreadable hown hnone h hassigns
      rw [applyDeclarations_again_of_unwritten hown hnone h hdeclares, if_pos rfl]
    · exact applyDeclarations_again_of_written hreadable hown hwritten h

theorem applyDeclarations_again_filled :
    let e : Element := ⟨.html, "td", []⟩
    let ds : List Declaration := [⟨"text-align", ""⟩, ⟨"-attr-style", "y"⟩,
      ⟨"-attr-align", "right"⟩, ⟨"color", "red"⟩]
    let e' : Element := ⟨.html, "td", [⟨"align", "right"⟩, ⟨"style", "color:red;"⟩]⟩
    (∀ d ∈ ds, d.IsRead) ∧ applyDeclarations e ds = .ok e' ∧ applyDeclarations e' ds = .ok e' := by
  intro e ds e'
  have hread : parseDeclarations "Text-Align:;-attr-style:y; -attr-align: right; color:red" =
      .ok ds := by
    decide +kernel
  have hds : ∀ d ∈ ds, d.IsRead := fun d hd => ⟨_, ds, hread, hd⟩
  have happly : applyDeclarations e ds = .ok e' := by decide +kernel
  have hunassigned : ¬ ∃ value, AssignsStyle e ds value := by
    rintro ⟨value, hassigns⟩
    have hstyled : attributeFor? e.tag "color" = none := by decide +kernel
    exact hassigns.to_attributes ⟨"color", "red"⟩ (by simp [ds]) hstyled
  exact ⟨hds, happly, (applyDeclarations_again hds happly).1.2 hunassigned⟩

/-- A style that a declaration asked for is given a semicolon, or cannot be read at all. -/
theorem applyDeclarations_again_assigned :
    Attributes.Distinct [⟨"class", "a a"⟩] ∧
    (∃ ds once twice, parseDeclarations "-attr-style: color:red" = .ok ds ∧
      applyDeclarations ⟨.html, "p", [⟨"class", "a a"⟩]⟩ ds = .ok once ∧
      applyDeclarations once ds = .ok twice ∧
      once.attributes = [⟨"class", "a a"⟩, ⟨"style", "color:red"⟩] ∧
      twice.attributes = [⟨"class", "a a"⟩, ⟨"style", "color:red;"⟩]) ∧
    ∃ ds once, parseDeclarations "-attr-style: bold" = .ok ds ∧
      applyDeclarations ⟨.html, "p", [⟨"class", "a a"⟩]⟩ ds = .ok once ∧
      applyDeclarations once ds = .error (.missingColon "bold") := by
  refine ⟨by decide +kernel, ?_, ?_⟩
  · refine ⟨[⟨"-attr-style", "color:red"⟩], ⟨.html, "p", [⟨"class", "a a"⟩, ⟨"style", "color:red"⟩]⟩,
      ⟨.html, "p", [⟨"class", "a a"⟩, ⟨"style", "color:red;"⟩]⟩, ?_, ?_, ?_, rfl, rfl⟩
    all_goals decide +kernel
  · refine ⟨[⟨"-attr-style", "bold"⟩], ⟨.html, "p", [⟨"class", "a a"⟩, ⟨"style", "bold"⟩]⟩,
      ?_, ?_, ?_⟩
    all_goals decide +kernel

end Inline

end StyleInliner
