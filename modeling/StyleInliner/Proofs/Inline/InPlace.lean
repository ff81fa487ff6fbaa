/-
Rewriting an element in the forest, one write after the other.

Applying declarations and making a table are defined on elements, and what comes out is
put into the forest in the end.  Here every write is done in the forest at once, so that
a fault leaves the forest with all that was written before it.  Both ways come to the
same: an application under way is written to its node at any time
(`Application.write_inForest`), and so are the parts of a table to theirs
(`writeAttribute_withTable`).

What a fault leaves behind follows.  An application reads the style before it writes
anything.  A conversion goes from attribute to attribute and may well have copied some
when it comes to a style that cannot be read, but only to the table and the cell, and
these are in a tree of their own until the last attribute is done (`intact_withTable`).
-/
import StyleInliner.Inline.Document
import StyleInliner.Proofs.Dom.Traversal
import StyleInliner.Proofs.Inline.TableConversion

namespace StyleInliner.Inline

open StyleInliner.Css StyleInliner.Dom

/-- In the second forest every node of the first one is as it was, and has the same nodes below
it. -/
structure Intact (f g : Forest) : Prop where
  content?_eq : ∀ m < f.size, g.content? m = f.content? m
  parent?_eq : ∀ m < f.size, g.parent? m = f.parent? m
  children_eq : ∀ m < f.size, g.children m = f.children m
  below_iff : ∀ r < f.size, ∀ m, g.Below m r ↔ f.Below m r

/-! ### Applying declarations -/

/-- An application whose writes go to the forest. -/
structure Writing where
  forest : Forest
  /-- The properties declared so far. -/
  seen : List String
  /-- The style to be written, if there is one. -/
  style : Option String

namespace Writing

/-- Writes one declaration to a node with the given tag. -/
def write (tag : String) (n : NodeId) (w : Writing) (d : Declaration) : Writing :=
  if d.property ∈ w.seen then w
  else
    let w := { w with seen := d.property :: w.seen }
    match attributeFor? tag d.property with
    | some name => { w with forest := w.forest.modifyElement n (·.fillAttribute name d.value) }
    | none => { w with style := some (w.style.getD "" ++ d.text) }

/-- The forest with the style written to the node. -/
def finish (n : NodeId) (w : Writing) : Forest :=
  match w.style with
  | some style => w.forest.modifyElement n (·.setAttribute "style" style)
  | none => w.forest

end Writing

/-- Writes declarations to a node, if it is an element. -/
def writeDeclarations (ds : List Declaration) (f : Forest) (n : NodeId) : Run Forest CssError :=
  match f.element? n with
  | none => Run.done f
  | some e =>
    match Application.start e with
    | .error fault => ⟨f, some fault⟩
    | .ok a => Run.done ((ds.foldl (Writing.write e.tag n) ⟨f, a.seen, a.style⟩).finish n)

namespace Application

/-- An application to a node, as far as it is written to the forest. -/
def inForest (f : Forest) (n : NodeId) (a : Application) : Writing :=
  ⟨f.setContent n (.element a.element), a.seen, a.style⟩

theorem tag_apply (a : Application) (d : Declaration) :
    (a.apply d).element.tag = a.element.tag := by
  rcases apply_cases a d with heq | ⟨-, ⟨name, -, heq⟩ | heq⟩
  · rw [heq]
  · rw [heq]
    show (a.element.fillAttribute name d.value).tag = a.element.tag
    rw [Element.tag, Element.name_fillAttribute, Element.tag]
  · rw [heq]

/-- An application fails at its start only, and there when the style cannot be read. -/
theorem start_eq_error_iff {e : Element} {fault : CssError} :
    start e = .error fault ↔
      ∃ style, e.attribute? "style" = some style ∧ parseDeclarations style = .error fault := by
  unfold start
  cases e.attribute? "style" with
  | none => simp
  | some style =>
      cases hread : parseDeclarations style with
      | error read => simp [hread, bind, Except.bind]
      | ok ds => cases ds <;> simp [hread, bind, Except.bind, pure, Except.pure]

section Written

variable {f : Forest} {n : NodeId} (hn : n < f.size)
include hn

/-- Writing a declaration to the node is applying it. -/
theorem write_inForest (a : Application) (d : Declaration) :
    (a.inForest f n).write a.element.tag n d = (a.apply d).inForest f n := by
  have hwrite := fun change => Forest.modifyElement_setContent hn a.element change
  unfold Writing.write apply inForest
  split
  · rfl
  · dsimp only
    cases attributeFor? a.element.tag d.property with
    | none => rfl
    | some name => simp only [hwrite]

theorem foldl_write_inForest (ds : List Declaration) (a : Application) :
    ds.foldl (Writing.write a.element.tag n) (a.inForest f n) =
      (ds.foldl apply a).inForest f n := by
  induction ds generalizing a with
  | nil => rfl
  | cons d ds ih =>
      rw [List.foldl_cons, List.foldl_cons, write_inForest hn, ← tag_apply a d]
      exact ih (a.apply d)

theorem finish_inForest (a : Application) :
    (a.inForest f n).finish n = f.setContent n (.element a.finish) := by
  unfold Writing.finish inForest finish
  cases a.style with
  | none => rfl
  | some style => exact Forest.modifyElement_setContent hn _ _

end Written

end Application

/-- **Writing declarations to the forest one by one is applying them,** fault and all. -/
theorem writeDeclarations_eq (ds : List Declaration) (f : Forest) (n : NodeId) :
    writeDeclarations ds f n = applyTo ds f n := by
  unfold writeDeclarations applyTo applyDeclarations
  cases he : f.element? n with
  | none => rfl
  | some e =>
      dsimp only
      cases hstart : Application.start e with
      | error fault => rfl
      | ok a =>
          have hn : n < f.size := Forest.lt_size_of_element? he
          obtain ⟨own, -, ha⟩ := start_eq_ok_iff.1 hstart
          have helement : a.element = e := by rw [ha]
          have hbegin : a.inForest f n = ⟨f, a.seen, a.style⟩ := by
            rw [Application.inForest, helement, Forest.setContent_self he]
          dsimp only
          rw [← helement, ← hbegin, Application.foldl_write_inForest hn, Application.finish_inForest hn]
          rfl

theorem fault_applyTo {f : Forest} {n : NodeId} {e : Element} (he : f.element? n = some e)
    (ds : List Declaration) (fault : CssError) :
    (applyTo ds f n).fault = some fault ↔
      ∃ style, e.attribute? "style" = some style ∧ parseDeclarations style = .error fault := by
  rw [applyTo, he, ← Application.start_eq_error_iff]
  dsimp only
  rw [Run.fault_step, applyDeclarations]
  cases Application.start e <;> simp [Except.map]

/-! ### Turning an element into a table -/

/-- Writes a declaration of the style to the table or to the cell; the result also holds the style
of the cell so far. -/
def writeDistributed (table cell : NodeId) (w : Forest × String) (d : Declaration) :
    Forest × String :=
  let (f, style) := w
  if d.property = tableDirective then w
  else if d.property = "width" then
    ((f.modifyElement table (·.setAttribute "width" d.value)).modifyElement cell
      (·.setAttribute "width" "100%"), style)
  else if d.property = "padding" then
    let digits := d.value.toList.filter Char.isDigit
    (f.modifyElement table (·.setAttribute "cellpadding" (String.ofList digits)), style)
  else if d.property = "text-align" then
    (f.modifyElement cell (·.fillAttribute "align" d.value), style)
  else if d.property = "vertical-align" then
    (f.modifyElement cell (·.fillAttribute "valign" d.value), style)
  else if d.property = "background-color" then
    (f.modifyElement cell (·.fillAttribute "bgcolor" d.value), style)
  else (f, style ++ d.text)

/-- Writes a style to the table and to the cell, once it has been read. -/
def writeStyle (table cell : NodeId) (f : Forest) (style : String) : Run Forest CssError :=
  match parseDeclarations style with
  | .error fault => ⟨f, some fault⟩
  | .ok ds =>
    let (f, rest) := ds.foldl (writeDistributed table cell) (f, "")
    Run.done (if rest.isEmpty then f else f.modifyElement cell (·.setAttribute "style" rest))

/-- Writes one attribute of the element to the table and to the cell. -/
def writeAttribute (table cell : NodeId) (f : Forest) (a : Attribute) : Run Forest CssError :=
  if a.isNamed "style" then writeStyle table cell f a.value
  else Run.done (f.modifyElement cell (·.setAttribute a.name a.value))

/-- Turns a node into a table: a bare one is made, is given the attributes of the element one after
the other, and is then put in place. -/
def convertInPlace (f : Forest) (n : NodeId) : Run Forest CssError :=
  match f.element? n, f.parent? n with
  | some e, some _ =>
    let table := f.size
    let row := table + 1
    let cell := table + 2
    let f := ((f.add (.element (Element.ofTag "table"))).add (.element (Element.ofTag "tr"))).add
      (.element (Element.ofTag "td"))
    let f := f.modifyElement table (·.setAttribute "cellspacing" "0")
    let f := f.modifyElement table (·.setAttribute "border" "0")
    let f := (f.appendChild table row).appendChild row cell
    (Run.forEach (writeAttribute table cell) f e.attributes).andThen fun f =>
      Run.done ((f.moveChildren n cell).replace n table).1
  | _, _ => Run.done f

section Parts

variable (f : Forest) (parts : CellTable) (change : Element → Element)

theorem content?_withNodes (m : NodeId) :
    (withNodes f parts).content? m =
      if m = f.size then some (.element parts.table)
      else if m = f.size + 1 then some (.element (Element.ofTag "tr"))
      else if m = f.size + 2 then some (.element parts.cell)
      else f.content? m := by
  rw [← content?_withTable, withTable, Forest.content?_appendChild, Forest.content?_appendChild]

theorem modifyElement_withNodes :
    (withNodes f parts).modifyElement f.size change =
      withNodes f { parts with table := change parts.table } := by
  have htable : (withNodes f parts).element? f.size = some parts.table := by
    rw [Forest.element?_eq_some_iff, content?_withNodes, if_pos rfl]
  refine Forest.modifyElement_eq_of htable ?_ (fun m => ?_) (fun m => ?_) fun m => ?_
  · rw [size_withNodes, size_withNodes]
  · rw [parent?_withNodes, parent?_withNodes]
  · rw [children_withNodes, children_withNodes]
  · rw [content?_withNodes, content?_withNodes]
    by_cases hm : f.size = m
    · subst hm
      simp
    · simp [hm, Ne.symm hm]

theorem modifyElement_table :
    (withTable f parts).modifyElement f.size change =
      withTable f { parts with table := change parts.table } := by
  have htable : (withTable f parts).element? f.size = some parts.table := by
    rw [Forest.element?_eq_some_iff, content?_withTable, if_pos rfl]
  refine Forest.modifyElement_eq_of htable ?_ (fun m => ?_) (fun m => ?_) fun m => ?_
  · rw [size_withTable, size_withTable]
  · rw [parent?_withTable, parent?_withTable]
  · rw [children_withTable, children_withTable]
  · rw [content?_withTable, content?_withTable]
    by_cases hm : f.size = m
    · subst hm
      simp
    · simp [hm, Ne.symm hm]

theorem modifyElement_cell :
    (withTable f parts).modifyElement (f.size + 2) change =
      withTable f { parts with cell := change parts.cell } := by
  have hcell : (withTable f parts).element? (f.size + 2) = some parts.cell := by
    rw [Forest.element?_eq_some_iff, content?_withTable]
    simp
  refine Forest.modifyElement_eq_of hcell ?_ (fun m => ?_) (fun m => ?_) fun m => ?_
  · rw [size_withTable, size_withTable]
  · rw [parent?_withTable, parent?_withTable]
  · rw [children_withTable, children_withTable]
  · rw [content?_withTable, content?_withTable]
    by_cases hm : f.size + 2 = m
    · subst hm
      simp
    · simp [hm, Ne.symm hm]

theorem writeDistributed_withTable (style : String) (d : Declaration) :
    writeDistributed f.size (f.size + 2) (withTable f parts, style) d =
      (CellTable.distribute (parts, style) d).map (withTable f) id := by
  unfold writeDistributed CellTable.distribute
  dsimp only
  simp only [modifyElement_table, modifyElement_cell]
  split_ifs <;> rfl

theorem foldl_writeDistributed (ds : List Declaration) (style : String) :
    ds.foldl (writeDistributed f.size (f.size + 2)) (withTable f parts, style) =
      (ds.foldl CellTable.distribute (parts, style)).map (withTable f) id := by
  induction ds generalizing parts style with
  | nil => rfl
  | cons d ds ih =>
      rw [List.foldl_cons, List.foldl_cons, writeDistributed_withTable]
      exact ih _ _

theorem writeStyle_withTable (style : String) :
    writeStyle f.size (f.size + 2) (withTable f parts) style =
      (Run.step parts (parts.takeStyle style)).map (withTable f) := by
  unfold writeStyle CellTable.takeStyle
  cases parseDeclarations style with
  | error fault => rfl
  | ok ds =>
      dsimp only
      rw [foldl_writeDistributed]
      show Run.done (if (ds.foldl CellTable.distribute (parts, "")).2.isEmpty then _ else _) =
        (Run.step parts (if (ds.foldl CellTable.distribute (parts, "")).2.isEmpty then _ else _)).map
          (withTable f)
      split
      · rfl
      · simp only [Prod.map, id_eq, modifyElement_cell]
        rfl

/-- Writing an attribute to the table and the cell is taking it over. -/
theorem writeAttribute_withTable (a : Attribute) :
    writeAttribute f.size (f.size + 2) (withTable f parts) a =
      (Run.step parts (parts.takeAttribute a)).map (withTable f) := by
  unfold writeAttribute CellTable.takeAttribute
  split
  · exact writeStyle_withTable f parts a.value
  · rw [modifyElement_cell]
    rfl

/-- A table in a tree of its own leaves all other trees alone. -/
theorem intact_withTable : Intact f (withTable f parts) := by
  have hold : ∀ m : Nat, m < f.size → m ≠ f.size ∧ m ≠ f.size + 1 ∧ m ≠ f.size + 2 :=
    fun m hm => by omega
  have hparent : ∀ m < f.size, (withTable f parts).parent? m = f.parent? m := by
    intro m hm
    rw [parent?_withTable, if_neg (hold m hm).2.1, if_neg (hold m hm).2.2]
  -- what is below one of the old nodes is an old node
  have hbelow : ∀ m p : Nat, p < f.size → (withTable f parts).parent? m = some p → m < f.size := by
    intro m p hp hm
    rw [parent?_withTable] at hm
    split_ifs at hm
    · obtain rfl := Option.some.inj hm
      omega
    · obtain rfl := Option.some.inj hm
      omega
    · exact Forest.lt_size_of_parent? hm
  refine ⟨fun m hm => ?_, hparent, fun m hm => ?_, fun r hr m => ⟨fun h => ?_, fun h => ?_⟩⟩
  · obtain ⟨htable, hrow, hcell⟩ := hold m hm
    rw [content?_withTable, if_neg htable, if_neg hrow, if_neg hcell]
  · rw [children_withTable, if_neg (hold m hm).1, if_neg (hold m hm).2.1]
  · induction h using Relation.ReflTransGen.head_induction_on with
    | refl => exact Relation.ReflTransGen.refl
    | head hstep _ ih =>
        have hm := hbelow _ _ (Forest.lt_size_of_below ih hr) hstep
        exact Relation.ReflTransGen.head ((hparent _ hm).symm.trans hstep) ih
  · refine Relation.ReflTransGen.mono ?_ m r h
    intro m p hstep
    exact (hparent m (Forest.lt_size_of_parent? hstep)).trans hstep

end Parts

/-- The parts of a table for an element, made from one attribute after the other. -/
def gatherParts (e : Element) : Run CellTable CssError :=
  Run.forEach (fun parts a => Run.step parts (parts.takeAttribute a)) CellTable.bare e.attributes

theorem toExcept_gatherParts (e : Element) :
    (gatherParts e).toExcept = CellTable.ofAttributes e.attributes := by
  rw [gatherParts, Run.toExcept_forEach]
  simp only [Run.toExcept_step]
  rfl

/-- A conversion fills a table in a tree of its own before it touches anything else. -/
theorem convertInPlace_eq {f : Forest} {n p : NodeId} {e : Element} (he : f.element? n = some e)
    (hparent : f.parent? n = some p) :
    convertInPlace f n = ((gatherParts e).map (withTable f)).andThen fun g =>
      Run.done ((g.moveChildren n (f.size + 2)).replace n f.size).1 := by
  have hbare : (((((f.add (.element (Element.ofTag "table"))).add
      (.element (Element.ofTag "tr"))).add (.element (Element.ofTag "td"))).modifyElement f.size
        (·.setAttribute "cellspacing" "0")).modifyElement f.size (·.setAttribute "border" "0")) =
      withNodes f CellTable.bare := by
    show ((withNodes f ⟨Element.ofTag "table", Element.ofTag "td"⟩).modifyElement f.size
      _).modifyElement f.size _ = _
    rw [modifyElement_withNodes, modifyElement_withNodes]
    rfl
  rw [convertInPlace, he, hparent]
  dsimp only
  rw [hbare, gatherParts, ← Run.forEach_map fun parts a => writeAttribute_withTable f parts a]
  rfl

/-- **Making a table in the forest is making it first and putting it in place then.** -/
theorem toExcept_convertInPlace (f : Forest) (n : NodeId) :
    (convertInPlace f n).toExcept = (convertToTable f n).map Prod.fst := by
  cases he : f.element? n with
  | none =>
      unfold convertInPlace convertToTable
      rw [he]
      rfl
  | some e =>
      cases hparent : f.parent? n with
      | none =>
          unfold convertInPlace convertToTable
          rw [he, hparent]
          rfl
      | some p =>
          rw [convertInPlace_eq he hparent, Run.toExcept_andThen, Run.toExcept_map,
            toExcept_gatherParts, convertToTable, he, hparent]
          dsimp only
          cases CellTable.ofAttributes e.attributes with
          | error fault => rfl
          | ok parts => rfl

/-- A conversion fails when a style it comes to cannot be read. -/
theorem exists_fault_convertInPlace {f : Forest} {n : NodeId} {e : Element}
    (he : f.element? n = some e) :
    (∃ fault, (convertInPlace f n).fault = some fault) ↔
      (∃ p, f.parent? n = some p) ∧ ∃ a ∈ e.attributes, a.isNamed "style" ∧
        ∃ fault, parseDeclarations a.value = .error fault := by
  have hfault : ∀ fault, (convertInPlace f n).fault = some fault ↔
      (convertToTable f n).map Prod.fst = .error fault := fun fault => by
    rw [Run.fault_eq_some_iff, toExcept_convertInPlace]
  simp only [hfault]
  unfold convertToTable
  rw [he]
  cases f.parent? n with
  | none => simp [Except.map]
  | some p =>
      have hparts : (∃ fault, CellTable.ofAttributes e.attributes = .error fault) ↔
          ∃ a ∈ e.attributes, a.isNamed "style" ∧
            ∃ fault, parseDeclarations a.value = .error fault := by
        simp only [exists_error_iff, CellTable.exists_ofAttributes_iff, not_forall, exists_prop]
      rw [← hparts]
      dsimp only
      cases CellTable.ofAttributes e.attributes <;> simp [Except.map]

/-- A conversion that fails leaves all trees there were alone. -/
theorem intact_convertInPlace {f : Forest} {n : NodeId} {fault : CssError}
    (h : (convertInPlace f n).fault = some fault) : Intact f (convertInPlace f n).state := by
  cases he : f.element? n with
  | none =>
      rw [convertInPlace, he] at h
      cases h
  | some e =>
      cases hparent : f.parent? n with
      | none =>
          rw [convertInPlace, he, hparent] at h
          cases h
      | some p =>
          rw [convertInPlace_eq he hparent] at h ⊢
          rw [Run.andThen_done_of_fault h]
          exact intact_withTable f (gatherParts e).state

/-- **A rewrite that fails leaves every node as it was,** although it writes as it goes.  Applying
declarations fails when the style of the element cannot be read, and turning it into a table when
the element has a parent and one of its styles cannot be read. -/
theorem failed_rewrite_intact {f : Forest} {n : NodeId} {e : Element}
    (he : f.element? n = some e) :
    (∀ ds : List Declaration,
      writeDeclarations ds f n = applyTo ds f n ∧
        ((∃ fault, (writeDeclarations ds f n).fault = some fault) ↔
          ∃ style, e.attribute? "style" = some style ∧
            ∃ fault, parseDeclarations style = .error fault) ∧
        ∀ fault, (writeDeclarations ds f n).fault = some fault →
          (writeDeclarations ds f n).state = f) ∧
    (convertInPlace f n).toExcept = (convertToTable f n).map Prod.fst ∧
    ((∃ fault, (convertInPlace f n).fault = some fault) ↔
      (∃ p, f.parent? n = some p) ∧ ∃ a ∈ e.attributes, a.isNamed "style" ∧
        ∃ fault, parseDeclarations a.value = .error fault) ∧
    ∀ fault, (convertInPlace f n).fault = some fault → Intact f (convertInPlace f n).state := by
  refine ⟨fun ds => ⟨writeDeclarations_eq ds f n, ?_, fun fault h => ?_⟩,
    toExcept_convertInPlace f n, exists_fault_convertInPlace he, fun fault => intact_convertInPlace⟩
  · simp only [writeDeclarations_eq, fault_applyTo he]
    constructor
    · rintro ⟨fault, style, hstyle, hread⟩
      exact ⟨style, hstyle, fault, hread⟩
    · rintro ⟨style, hstyle, fault, hread⟩
      exact ⟨fault, style, hstyle, hread⟩
  · rw [writeDeclarations_eq, applyTo, he] at h ⊢
    exact Run.state_step_of_fault h

/-- The second style of the cell cannot be read.  When it is come to, the new cell has been given
what comes before it.  Declarations are applied by the first style only, also without a parent. -/
theorem failed_rewrite_intact_second_style :
    let e : Element := ⟨.html, "td",
      [⟨"id", "a"⟩, ⟨"style", "color:red;width:9em"⟩, ⟨"style", "b"⟩, ⟨"title", "c"⟩]⟩
    let loose : Element := ⟨.html, "p", [⟨"style", "b"⟩]⟩
    let f : Forest := ⟨#[⟨none, [1], .element ⟨.html, "body", []⟩⟩, ⟨some 0, [2], .element e⟩,
      ⟨some 1, [], .text "x"⟩, ⟨none, [], .element loose⟩]⟩
    let ds : List Declaration := [⟨"width", "1em"⟩, ⟨"margin", "0"⟩]
    f.element? 1 = some e ∧ f.element? 3 = some loose ∧
      (writeDeclarations ds f 1).fault = none ∧
      (∃ fault, (convertInPlace f 1).fault = some fault) ∧
      (convertInPlace f 1).state.element? 6 = some ⟨.html, "td",
        [⟨"id", "a"⟩, ⟨"width", "100%"⟩, ⟨"style", "color:red;"⟩]⟩ ∧
      Intact f (convertInPlace f 1).state ∧
      (∃ fault, (writeDeclarations ds f 3).fault = some fault) ∧
      (writeDeclarations ds f 3).state = f ∧ (convertInPlace f 3).fault = none := by
  intro e loose f ds
  have he : f.element? 1 = some e := by decide +kernel
  have hloose : f.element? 3 = some loose := by decide +kernel
  have hparent : f.parent? 1 = some 0 := by decide +kernel
  have hnone : f.parent? 3 = none := by decide +kernel
  have hstyle : e.attribute? "style" = some "color:red;width:9em" := by decide +kernel
  have hread : parseDeclarations "color:red;width:9em" =
      .ok [⟨"color", "red"⟩, ⟨"width", "9em"⟩] := by decide +kernel
  have hsecond : (⟨"style", "b"⟩ : Attribute).isNamed "style" = true := by decide +kernel
  have hlooseStyle : loose.attribute? "style" = some "b" := by decide +kernel
  have hb : parseDeclarations "b" = .error (.missingColon "b") := by decide +kernel
  have hcell : (convertInPlace f 1).state.element? 6 = some ⟨.html, "td",
      [⟨"id", "a"⟩, ⟨"width", "100%"⟩, ⟨"style", "color:red;"⟩]⟩ := by decide +kernel
  obtain ⟨hwrite, -, hconvert, hintact⟩ := failed_rewrite_intact he
  obtain ⟨hwriteLoose, -, hconvertLoose, -⟩ := failed_rewrite_intact hloose
  obtain ⟨fault, hfault⟩ := hconvert.2 ⟨⟨0, hparent⟩, ⟨"style", "b"⟩, by simp [e], hsecond, _, hb⟩
  obtain ⟨other, hother⟩ := (hwriteLoose ds).2.1.2 ⟨"b", hlooseStyle, _, hb⟩
  refine ⟨he, hloose, ?_, ⟨fault, hfault⟩, hcell, hintact fault hfault, ⟨other, hother⟩,
    (hwriteLoose ds).2.2 other hother, ?_⟩
  · refine Option.eq_none_iff_forall_ne_some.2 fun found hfound => ?_
    obtain ⟨style, hfirst, fault, hfails⟩ := (hwrite ds).2.1.1 ⟨found, hfound⟩
    obtain rfl := Option.some.inj (hstyle.symm.trans hfirst)
    rw [hread] at hfails
    cases hfails
  · refine Option.eq_none_iff_forall_ne_some.2 fun found hfound => ?_
    obtain ⟨⟨p, hp⟩, -⟩ := hconvertLoose.1 ⟨found, hfound⟩
    rw [hnone] at hp
    cases hp

end StyleInliner.Inline
