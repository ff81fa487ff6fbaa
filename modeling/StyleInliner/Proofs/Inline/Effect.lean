/-
The whole effect of applying declarations to an element.

Of the declarations applied those count whose property the element does not declare
itself, and of these the first one of each property (`countedAmong`).  Each of them is
written either to an attribute or to the style, so what comes out is told by two lists:
the values for each attribute, in their order, and the declarations left for the style.

An application goes over the declarations once, keeps a list of the properties it has
seen, and reads back the attributes it has filled.  `foldl_apply` takes these apart: what
it does is to write the counted declarations, the style text on one side and the
attributes on the other.  What an attribute holds after any number of writes does not
depend on what is written to others (`attribute?_fillAll`).  The style that is written
reads as an extension of what the element declared (`extension_of_applyDeclarations`).
-/
import StyleInliner.Proofs.Inline.Application

namespace StyleInliner.Inline

open StyleInliner.Css StyleInliner.Dom StyleInliner.Text

/-! ### The declarations that count -/

/-- Declarations without those whose property came before. -/
def firstOfEach : List Declaration → List Declaration
  | [] => []
  | d :: ds => d :: (firstOfEach ds).filter (·.property ≠ d.property)

/-- The declarations that count where some properties are taken. -/
def countedAmong (taken : List String) (ds : List Declaration) : List Declaration :=
  firstOfEach (ds.filter (·.property ∉ taken))

theorem filter_firstOfEach (p : String → Bool) (ds : List Declaration) :
    (firstOfEach ds).filter (fun d => p d.property) =
      firstOfEach (ds.filter fun d => p d.property) := by
  induction ds with
  | nil => rfl
  | cons d ds ih =>
      rw [firstOfEach]
      by_cases hd : p d.property = true
      · rw [List.filter_cons, List.filter_cons, if_pos hd, if_pos hd, List.filter_comm, ih,
          firstOfEach]
      · rw [List.filter_cons, List.filter_cons, if_neg hd, if_neg hd, ← ih, List.filter_filter]
        refine List.filter_congr fun other _ => ?_
        by_cases hsame : other.property = d.property
        · simp [hsame, hd]
        · simp [hsame]

theorem countedAmong_cons_of_mem {taken : List String} {d : Declaration}
    (h : d.property ∈ taken) (ds : List Declaration) :
    countedAmong taken (d :: ds) = countedAmong taken ds := by
  rw [countedAmong, List.filter_cons_of_neg (by simpa using h), countedAmong]

/-- A declaration that counts takes its property. -/
theorem countedAmong_cons_of_notMem {taken : List String} {d : Declaration}
    (h : d.property ∉ taken) (ds : List Declaration) :
    countedAmong taken (d :: ds) = d :: countedAmong (d.property :: taken) ds := by
  have htaken : ds.filter (·.property ∉ d.property :: taken) =
      (ds.filter (·.property ∉ taken)).filter fun other =>
        decide (other.property ≠ d.property) := by
    rw [List.filter_filter]
    refine List.filter_congr fun other _ => ?_
    simp
  rw [countedAmong, List.filter_cons_of_pos (by simpa using h), firstOfEach, countedAmong, htaken]
  rw [filter_firstOfEach fun property => decide (property ≠ d.property)]

theorem sublist_firstOfEach (ds : List Declaration) : (firstOfEach ds).Sublist ds := by
  induction ds with
  | nil => exact List.Sublist.slnil
  | cons d ds ih => exact (List.filter_sublist.trans ih).cons_cons d

theorem mem_of_mem_countedAmong {taken : List String} {ds : List Declaration} {d : Declaration}
    (h : d ∈ countedAmong taken ds) : d ∈ ds ∧ d.property ∉ taken := by
  simpa using (sublist_firstOfEach _).subset h

theorem nodup_countedAmong (taken : List String) (ds : List Declaration) :
    ((countedAmong taken ds).map Declaration.property).Nodup := by
  rw [countedAmong]
  induction ds.filter (·.property ∉ taken) with
  | nil => exact List.nodup_nil
  | cons d ds ih =>
      rw [firstOfEach, List.map_cons, List.nodup_cons]
      refine ⟨by simp, List.Nodup.sublist (List.filter_sublist.map _) ih⟩

/-! ### Where they are written -/

/-- The attributes that declarations are written to on elements of a tag, with the values. -/
def attributeWrites (tag : String) (ds : List Declaration) : List (String × String) :=
  ds.filterMap fun d => (attributeFor? tag d.property).map fun name => (name, d.value)

/-- The declarations that are written to the style on elements of a tag. -/
def styleDeclarations (tag : String) (ds : List Declaration) : List Declaration :=
  ds.filter fun d => attributeFor? tag d.property = none

/-- An element with writes to its attributes done one after the other. -/
def fillAll (e : Element) (writes : List (String × String)) : Element :=
  writes.foldl (fun e write => e.fillAttribute write.1 write.2) e

theorem fillAll_cons (e : Element) (write : String × String) (writes : List (String × String)) :
    fillAll e (write :: writes) = fillAll (e.fillAttribute write.1 write.2) writes :=
  rfl

/-- The values that are written to one attribute, whatever the letter case of its name. -/
def valuesFor (name : String) (writes : List (String × String)) : List String :=
  (writes.filter fun write => lower write.1 = lower name).map Prod.snd

theorem mem_valuesFor {name value : String} {writes : List (String × String)} :
    value ∈ valuesFor name writes ↔
      ∃ write ∈ writes, lower write.1 = lower name ∧ write.2 = value := by
  simp [valuesFor, and_assoc]

theorem valuesFor_cons (name : String) (write : String × String) (writes : List (String × String)) :
    valuesFor name (write :: writes) =
      if lower write.1 = lower name then write.2 :: valuesFor name writes
      else valuesFor name writes := by
  rw [valuesFor, valuesFor]
  by_cases hname : lower write.1 = lower name
  · rw [if_pos hname, List.filter_cons_of_pos (by simpa using hname), List.map_cons]
  · rw [if_neg hname, List.filter_cons_of_neg (by simpa using hname)]

/-- What an attribute holds after values were written to it one after the other: what it held if
that is not empty, and otherwise the first value that is not. -/
def settled (old : Option String) (values : List String) : Option String :=
  if old.getD "" ≠ "" then old
  else
    match values.find? (· ≠ "") with
    | some value => some value
    | none => if values = [] then old else some ""

@[simp] theorem settled_nil (old : Option String) : settled old [] = old := by
  simp [settled]

theorem settled_cons (old : Option String) (value : String) (values : List String) :
    settled old (value :: values) =
      settled (if old.getD "" = "" then some value else old) values := by
  unfold settled
  by_cases hold : old.getD "" = ""
  · by_cases hvalue : value = ""
    · simp [hold, hvalue]
    · simp [hold, hvalue]
  · simp [hold]

theorem settled_cases (old : Option String) (values : List String) :
    settled old values = old ∨
      old.getD "" = "" ∧ ∃ value ∈ values, settled old values = some value := by
  unfold settled
  by_cases hold : old.getD "" = ""
  · rw [if_neg (not_not_intro hold)]
    cases hfind : values.find? (· ≠ "") with
    | some value => exact Or.inr ⟨hold, value, List.mem_of_find?_eq_some hfind, rfl⟩
    | none =>
        cases values with
        | nil => exact Or.inl rfl
        | cons value values =>
            -- the first value is as empty as all the others
            have hvalue : value = "" := by simpa using (List.find?_eq_none.1 hfind) value (by simp)
            exact Or.inr ⟨hold, value, by simp, by simp [hvalue]⟩
  · exact Or.inl (if_pos hold)

theorem exists_of_mem_valuesFor {tag name value : String} {ds : List Declaration}
    (h : value ∈ valuesFor name (attributeWrites tag ds)) : ∃ d ∈ ds, value = d.value := by
  obtain ⟨write, hwrite, -, rfl⟩ := mem_valuesFor.1 h
  obtain ⟨d, hd, hname⟩ := List.mem_filterMap.1 hwrite
  obtain ⟨name, -, rfl⟩ := Option.map_eq_some_iff.1 hname
  exact ⟨d, hd, rfl⟩

/-- **Each attribute is settled by the values for its own name.** -/
theorem attribute?_fillAll (writes : List (String × String)) (e : Element) (name : String) :
    (fillAll e writes).attribute? name =
      settled (e.attribute? name) (valuesFor name writes) := by
  induction writes generalizing e with
  | nil => simp [fillAll, valuesFor]
  | cons write writes ih =>
      rw [fillAll_cons, ih, valuesFor_cons]
      by_cases hname : lower write.1 = lower name
      · rw [if_pos hname, settled_cons, Element.attribute?_fillAttribute_of_eq hname]
      · rw [if_neg hname, Element.attribute?_fillAttribute_of_ne hname]

/-- Filling attributes changes nothing else of an element. -/
theorem fillAll_eq (writes : List (String × String)) (e : Element) :
    ∃ attributes, fillAll e writes = { e with attributes } := by
  induction writes generalizing e with
  | nil => exact ⟨e.attributes, rfl⟩
  | cons write writes ih =>
      rw [fillAll_cons]
      rcases Element.fillAttribute_cases e write.1 write.2 with heq | heq
      · rw [heq]
        exact ih e
      · obtain ⟨attributes, hall⟩ := ih (e.setAttribute write.1 write.2)
        exact ⟨attributes, by rw [heq, hall]; rfl⟩

theorem namesAdded_fillAll (writes : List (String × String)) (e : Element) :
    Element.NamesAdded (writes.map Prod.fst) e (fillAll e writes) := by
  induction writes generalizing e with
  | nil => exact Element.NamesAdded.nil e
  | cons write writes ih =>
      exact (Element.namesAdded_fillAttribute e write.1 write.2).trans (ih _)

/-! ### The fold -/

/-- A style text with declarations written behind it, if there are any. -/
def grownStyle (style : Option String) (added : List Declaration) : Option String :=
  if added = [] then style else some (style.getD "" ++ String.join (added.map Declaration.text))

theorem grownStyle_cons (style : Option String) (d : Declaration) (added : List Declaration) :
    grownStyle style (d :: added) = grownStyle (some (style.getD "" ++ d.text)) added := by
  rw [grownStyle, if_neg (List.cons_ne_nil d added), grownStyle]
  split
  · rename_i hnil
    simp [hnil]
  · simp [String.append_assoc]

/-- **Declarations are applied as the counted ones of them are written.** -/
theorem foldl_apply (ds : List Declaration) (a : Application) :
    let counted := countedAmong a.seen ds
    (ds.foldl Application.apply a).element =
        fillAll a.element (attributeWrites a.element.tag counted) ∧
      (ds.foldl Application.apply a).style =
        grownStyle a.style (styleDeclarations a.element.tag counted) := by
  induction ds generalizing a with
  | nil => exact ⟨rfl, rfl⟩
  | cons d ds ih =>
      by_cases hseen : d.property ∈ a.seen
      · rw [List.foldl_cons, apply_of_mem hseen, countedAmong_cons_of_mem hseen]
        exact ih a
      · rw [List.foldl_cons, countedAmong_cons_of_notMem hseen]
        cases hname : attributeFor? a.element.tag d.property with
        | some name =>
            have htag : (a.element.fillAttribute name d.value).tag = a.element.tag := by
              rw [Element.tag, Element.name_fillAttribute, Element.tag]
            obtain ⟨helement, hstyle⟩ := ih (a.apply d)
            rw [apply_of_attribute hseen hname, htag] at helement hstyle
            rw [apply_of_attribute hseen hname, helement, hstyle]
            simp [attributeWrites, styleDeclarations, hname, fillAll_cons]
        | none =>
            obtain ⟨helement, hstyle⟩ := ih (a.apply d)
            rw [apply_of_style hseen hname] at helement hstyle
            rw [apply_of_style hseen hname, helement, hstyle, ← grownStyle_cons]
            simp [attributeWrites, styleDeclarations, hname]

/-! ### The effect -/

/-- A style is written if there was one to begin with or a declaration is left for it. -/
theorem grownStyle_begun (own : List Declaration) (opened : String) (styled : List Declaration) :
    grownStyle (if own = [] then none else some opened) styled =
      if own = [] ∧ styled = [] then none
      else some ((if own = [] then "" else opened) ++
        String.join (styled.map Declaration.text)) := by
  rw [grownStyle]
  by_cases hstyled : styled = []
  · by_cases hown : own = [] <;> simp [hstyled, hown]
  · by_cases hown : own = [] <;> simp [hstyled, hown]

/-- Applying declarations fills the attributes first and writes the style last. -/
theorem applyDeclarations_eq {e : Element} {own : List Declaration}
    (hown : e.declarations = .ok own) (ds : List Declaration) :
    let counted := countedAmong (own.map Declaration.property) ds
    let styled := styleDeclarations e.tag counted
    let filled := fillAll e (attributeWrites e.tag counted)
    applyDeclarations e ds = .ok
      (if own = [] ∧ styled = [] then filled
        else filled.setAttribute "style"
          ((if own = [] then "" else openStyle ((e.attribute? "style").getD "")) ++
            String.join (styled.map Declaration.text))) := by
  intro counted styled filled
  obtain ⟨helement, hstyle⟩ := foldl_apply ds ⟨e, own.map Declaration.property, _⟩
  rw [grownStyle_begun] at hstyle
  rw [applyDeclarations, start_eq_ok_iff.2 ⟨own, hown, rfl⟩, Except.map, Application.finish, hstyle,
    helement]
  by_cases hnone : own = [] ∧ styled = []
  · rw [if_pos hnone, if_pos hnone]
  · rw [if_neg hnone, if_neg hnone]

/-- What is left for the style is new to an element, and declares no property twice. -/
theorem extension_styleDeclarations (tag : String) (own ds : List Declaration) :
    Extension own
      (own ++ styleDeclarations tag (countedAmong (own.map Declaration.property) ds)) := by
  refine ⟨_, rfl, (nodup_countedAmong _ ds).sublist (List.filter_sublist.map _), fun d hd => ?_⟩
  exact (mem_of_mem_countedAmong (List.mem_filter.1 hd).1).2

/-- **Applying declarations extends what the element declares,** which has to be readable for it;
what it declares then may not be, as an attribute takes any value. -/
theorem extension_of_applyDeclarations {e e' : Element} {ds : List Declaration}
    (hds : ∀ d ∈ ds, d.Readable) (h : applyDeclarations e ds = .ok e') :
    ∃ own, e.declarations = .ok own ∧ ∀ all, e'.declarations = .ok all → Extension own all := by
  obtain ⟨a, ha, -⟩ := map_eq_ok_iff.1 h
  obtain ⟨own, hown, -⟩ := start_eq_ok_iff.1 ha
  refine ⟨own, hown, fun all hall => ?_⟩
  have hextension := extension_styleDeclarations e.tag own ds
  have hcounted : ∀ d ∈ countedAmong (own.map Declaration.property) ds, d.Readable := fun d hd =>
    hds d (mem_of_mem_countedAmong hd).1
  obtain rfl := Except.ok.inj (h.symm.trans (applyDeclarations_eq hown ds))
  generalize countedAmong (own.map Declaration.property) ds = counted at hextension hcounted hall
  have hstyled : ∀ d ∈ styleDeclarations e.tag counted, d.Readable := fun d hd =>
    hcounted d (List.mem_filter.1 hd).1
  unfold Element.declarations at hown hall
  by_cases hnone : own = [] ∧ styleDeclarations e.tag counted = []
  · -- no style is written, but one may have been filled in
    rw [if_pos hnone, attribute?_fillAll] at hall
    rcases settled_cases (e.attribute? "style")
      (valuesFor "style" (attributeWrites e.tag counted)) with hkeep | ⟨-, value, hvalue, hfilled⟩
    · rw [hkeep, hown] at hall
      obtain rfl := Except.ok.inj hall
      exact Extension.refl own
    · obtain ⟨d, hd, rfl⟩ := exists_of_mem_valuesFor hvalue
      rw [hfilled, Option.getD_some] at hall
      have hlength := length_of_parseDeclarations (hcounted d hd).value_plain hall
      rw [hnone.1]
      exact Extension.of_length_le_one hlength
  · rw [if_neg hnone, Element.attribute?_setAttribute, if_pos rfl, Option.getD_some] at hall
    by_cases hempty : own = []
    · rw [if_pos hempty, parseDeclarations_join hstyled] at hall
      obtain rfl := Except.ok.inj hall
      rw [hempty] at hextension ⊢
      exact hextension
    · rw [if_neg hempty, parseDeclarations_openStyle hown hstyled] at hall
      obtain rfl := Except.ok.inj hall
      exact hextension

/-- **The whole effect of applying declarations.**  It succeeds on every element whose style can be
read.  If the element declares something itself or a declaration is left for the style, the style
is its own one made ready for more, with those declarations behind it.  Every other attribute, and
the style if neither is so, is settled by the values for its name.  The attributes that were there
keep their places and the spelling of their names, and new ones come behind them, lower-cased, in
the order in which they are first written to and the style last. -/
theorem applyDeclarations_effect {e : Element} {own : List Declaration}
    (hown : e.declarations = .ok own) (ds : List Declaration) :
    let counted := countedAmong (own.map Declaration.property) ds
    let writes := attributeWrites e.tag counted
    let styled := styleDeclarations e.tag counted
    ∃ e', applyDeclarations e ds = .ok e' ∧ e'.ns = e.ns ∧ e'.name = e.name ∧
      (own ≠ [] ∨ styled ≠ [] →
        e'.attribute? "style" =
          some ((if own = [] then "" else openStyle ((e.attribute? "style").getD "")) ++
            String.join (styled.map Declaration.text))) ∧
      (∀ name, lower name ≠ "style" ∨ own = [] ∧ styled = [] →
        e'.attribute? name = settled (e.attribute? name) (valuesFor name writes)) ∧
      e'.attributeNames = e.attributeNames ++
        e.newNames (writes.map Prod.fst ++ if own = [] ∧ styled = [] then [] else ["style"]) := by
  intro counted writes styled
  obtain ⟨attributes, hsame⟩ := fillAll_eq writes e
  have hvalues := attribute?_fillAll writes e
  have hnames := namesAdded_fillAll writes e
  refine ⟨_, applyDeclarations_eq hown ds, ?_⟩
  by_cases hnone : own = [] ∧ styled = []
  · rw [if_pos hnone, if_pos hnone, List.append_nil]
    refine ⟨by rw [hsame], by rw [hsame], ?_, fun name _ => hvalues name, hnames⟩
    rintro (hown | hstyled)
    · exact absurd hnone.1 hown
    · exact absurd hnone.2 hstyled
  · rw [if_neg hnone, if_neg hnone]
    refine ⟨?_, ?_, ?_, ?_, ?_⟩
    · rw [hsame]
      rfl
    · rw [hsame]
      rfl
    · intro _
      rw [Element.attribute?_setAttribute, if_pos rfl]
    · intro name hname
      have hother : lower "style" ≠ lower name := by
        rw [show lower "style" = "style" by decide +kernel]
        exact Ne.symm (hname.resolve_right hnone)
      rw [Element.attribute?_setAttribute_of_ne hother, hvalues]
    · exact hnames.trans (Element.namesAdded_setAttribute _ "style" _)

/-- A cell with a style of its own, where several declarations come to one attribute, and elements of
each kind without attributes, which differ in what is written to an attribute. -/
theorem applyDeclarations_effect_shared_names :
    let e : Element := ⟨.html, "TD", [⟨"STYLE", " color:red "⟩, ⟨"Align", ""⟩]⟩
    let ds : List Declaration := [⟨"text-align", "left"⟩, ⟨"color", "blue"⟩,
      ⟨"-attr-align", "right"⟩, ⟨"width", ""⟩, ⟨"-attr-width", "5"⟩, ⟨"font", "x"⟩, ⟨"font", "y"⟩]
    let bare (tag : String) : Element := ⟨.html, tag, []⟩
    let look : List Declaration := [⟨"text-align", "left"⟩, ⟨"vertical-align", "top"⟩,
      ⟨"width", "5"⟩, ⟨"height", "6"⟩, ⟨"background-color", "red"⟩]
    let kinds : List (String × List (String × String) × String) :=
      [("td", [("align", "left"), ("valign", "top"), ("width", "5"), ("height", "6")],
          "background-color:red;"),
        ("TH", [("align", "left"), ("valign", "top")], "width:5;height:6;background-color:red;"),
        ("table", [("width", "5"), ("height", "6"), ("bgcolor", "red")],
          "text-align:left;vertical-align:top;"),
        ("img", [("width", "5"), ("height", "6")],
          "text-align:left;vertical-align:top;background-color:red;"),
        ("p", [], "text-align:left;vertical-align:top;width:5;height:6;background-color:red;")]
    e.declarations = .ok [⟨"color", "red"⟩] ∧
      (∃ e', applyDeclarations e ds = .ok e' ∧ e'.ns = .html ∧ e'.name = "TD" ∧
        e'.attribute? "style" = some "color:red;font:x;" ∧ e'.attribute? "align" = some "left" ∧
        e'.attribute? "width" = some "5" ∧ e'.attributeNames = ["STYLE", "Align", "width"]) ∧
      ∀ kind ∈ kinds, ∃ e', applyDeclarations (bare kind.1) look = .ok e' ∧
        (∀ write ∈ kind.2.1, e'.attribute? write.1 = some write.2) ∧
        e'.attribute? "style" = some kind.2.2 ∧
        e'.attributeNames = kind.2.1.map Prod.fst ++ ["style"] := by
  intro e ds bare look kinds
  have hSTYLE : lower "STYLE" = "style" := by decide +kernel
  have hAlign : lower "Align" = "align" := by decide +kernel
  have hstyle : lower "style" = "style" := by decide +kernel
  have halign : lower "align" = "align" := by decide +kernel
  have hwidth : lower "width" = "width" := by decide +kernel
  have htag : e.tag = "td" := by
    show lower "TD" = "td"
    decide +kernel
  have hattribute : ∀ name, e.attribute? name =
      if "style" = lower name then some " color:red "
      else if "align" = lower name then some "" else none := by
    intro name
    simp [e, Element.attribute?, Attributes.get?_cons, hSTYLE, hAlign]
  have hread : parseDeclarations " color:red " = .ok [⟨"color", "red"⟩] := by decide +kernel
  have hown : e.declarations = .ok [⟨"color", "red"⟩] := by
    simp [Element.declarations, hattribute, hstyle, hread]
  have hwrites : attributeWrites "td" (countedAmong ["color"] ds) =
      [("align", "left"), ("align", "right"), ("width", ""), ("width", "5")] := by decide +kernel
  have hstyled : styleDeclarations "td" (countedAmong ["color"] ds) = [⟨"font", "x"⟩] := by
    decide +kernel
  have hopen : openStyle " color:red " = "color:red;" := by decide +kernel
  obtain ⟨e', happly, hns, hname, hwritten, hvalues, hnames⟩ := applyDeclarations_effect hown ds
  simp only [htag, List.map_cons, List.map_nil, hwrites, hstyled] at hwritten hvalues hnames
  refine ⟨hown, ⟨e', happly, hns, hname, ?_, ?_, ?_, ?_⟩, ?_⟩
  · rw [hwritten (Or.inl (by simp)), hattribute, hstyle]
    simp [hopen, Declaration.text]
  · rw [hvalues "align" (Or.inl (by simp [halign])), hattribute]
    simp [halign, hwidth, valuesFor, settled]
  · rw [hvalues "width" (Or.inl (by simp [hwidth])), hattribute]
    simp [halign, hwidth, valuesFor, settled]
  · rw [hnames]
    simp only [e, Element.attributeNames, Element.newNames, Attributes.lowerNames, List.map_cons,
      List.map_nil, List.cons_append, List.nil_append, hSTYLE, hAlign, halign, hwidth]
    decide +kernel
  · have hkinds : ∀ kind ∈ kinds,
        attributeWrites (bare kind.1).tag (countedAmong [] look) = kind.2.1 ∧
          styleDeclarations (bare kind.1).tag (countedAmong [] look) ≠ [] ∧
          String.join ((styleDeclarations (bare kind.1).tag (countedAmong [] look)).map
            Declaration.text) = kind.2.2 ∧
          (∀ write ∈ kind.2.1, lower write.1 ≠ "style" ∧
            settled none (valuesFor write.1 kind.2.1) = some write.2) ∧
          (bare kind.1).newNames (kind.2.1.map Prod.fst ++ ["style"]) =
            kind.2.1.map Prod.fst ++ ["style"] := by decide +kernel
    intro kind hkind
    obtain ⟨hwrites, hne, htext, hattributes, hnew⟩ := hkinds kind hkind
    have hbare : (bare kind.1).declarations = .ok [] := rfl
    obtain ⟨e', happly, -, -, hstyle, hvalues, hnames⟩ := applyDeclarations_effect hbare look
    simp only [List.map_nil, hwrites] at hvalues hnames
    refine ⟨e', happly, fun write hwrite => ?_, ?_, ?_⟩
    · obtain ⟨hother, hvalue⟩ := hattributes write hwrite
      exact (hvalues write.1 (Or.inl hother)).trans hvalue
    · rw [hstyle (Or.inr hne), if_pos rfl, String.empty_append]
      exact congrArg some htext
    · rw [hnames, if_neg fun hnone => hne hnone.2, hnew]
      rfl

end StyleInliner.Inline
