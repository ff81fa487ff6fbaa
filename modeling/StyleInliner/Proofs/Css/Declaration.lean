/-
What reading and writing a declaration have to do with one another.

`Declaration.Settled` is what reading guarantees of a declaration, and in a block,
where no semicolon is left in it, `Declaration.Readable`.  That is enough for the
declaration to be read back from its text.  Texts are read piece by piece, so
reading the text of two blocks behind one another gives the declarations of one and
then those of the other (`parseDeclarations_append`), and blanks around a block make
no difference (`parseDeclarations_pad`).  From these two follows what holds of any
block of written declarations, however it is laid out (`parseDeclarations_written`).
-/
import StyleInliner.Css.Declaration.Parser
import StyleInliner.Proofs.Run
import StyleInliner.Proofs.Text

namespace StyleInliner.Css

open StyleInliner.Text

/-- What reading guarantees of a declaration in a block. -/
structure Declaration.Readable (d : Declaration) : Prop where
  property_ne : d.property.toList ≠ []
  property_lower : lower d.property = d.property
  property_trimmed : Trimmed d.property.toList
  property_plain : ':' ∉ d.property.toList ∧ ';' ∉ d.property.toList
  value_trimmed : Trimmed d.value.toList
  value_plain : ';' ∉ d.value.toList

/-- What reading guarantees of a declaration on its own, which may hold semicolons. -/
structure Declaration.Settled (d : Declaration) : Prop where
  property_ne : d.property.toList ≠ []
  property_lower : lower d.property = d.property
  property_trimmed : Trimmed d.property.toList
  property_plain : ':' ∉ d.property.toList
  value_trimmed : Trimmed d.value.toList

theorem Declaration.Settled.readable {d : Declaration} (hd : d.Settled)
    (hproperty : ';' ∉ d.property.toList) (hvalue : ';' ∉ d.value.toList) : d.Readable :=
  ⟨hd.property_ne, hd.property_lower, hd.property_trimmed, ⟨hd.property_plain, hproperty⟩,
    hd.value_trimmed, hvalue⟩

/-! ### One declaration -/

theorem splitAtColon_eq_some_iff {cs p v : List Char} :
    splitAtColon cs = some (p, v) ↔ cs = p ++ ':' :: v ∧ ':' ∉ p := by
  induction cs generalizing p with
  | nil => simp [splitAtColon]
  | cons c cs ih =>
      by_cases hc : c = ':'
      · subst hc
        rw [splitAtColon]
        cases p with
        | nil => simp [eq_comm]
        | cons d p => simp +contextual [eq_comm]
      · rw [splitAtColon, Option.map_eq_some_iff]
        · constructor
          · rintro ⟨⟨p', v'⟩, h, he⟩
            simp only [Prod.mk.injEq] at he
            obtain ⟨rfl, rfl⟩ := he
            obtain ⟨rfl, hp⟩ := ih.1 h
            exact ⟨by simp, by simp [hp, Ne.symm hc]⟩
          · rintro ⟨h, hp⟩
            cases p with
            | nil => exact absurd (List.cons.inj h).1 hc
            | cons d p =>
                obtain ⟨rfl, rfl⟩ := List.cons.inj h
                exact ⟨(p, v), ih.2 ⟨rfl, fun hm => hp (by simp [hm])⟩, rfl⟩
        · exact hc

theorem splitAtColon_eq_none_iff {cs : List Char} : splitAtColon cs = none ↔ ':' ∉ cs := by
  constructor
  · intro h hm
    obtain ⟨p, v, hp, hcs⟩ := List.eq_append_cons_of_mem hm
    rw [splitAtColon_eq_some_iff.2 ⟨hp, hcs⟩] at h
    simp at h
  · intro h
    cases hcase : splitAtColon cs with
    | none => rfl
    | some parts =>
        obtain ⟨p, v⟩ := parts
        rw [(splitAtColon_eq_some_iff.1 hcase).1] at h
        simp at h

/-- When a declaration can be read, and what is read then. -/
theorem parseDeclaration_eq_ok_iff {cs : List Char} {d : Declaration} :
    parseDeclaration (String.ofList cs) = .ok d ↔
      ∃ p v, cs = p ++ ':' :: v ∧ ':' ∉ p ∧ trim p ≠ [] ∧
        d = ⟨lower (String.ofList (trim p)), String.ofList (dropSemicolon (trim v))⟩ := by
  unfold parseDeclaration
  rw [String.toList_ofList]
  cases hcase : splitAtColon cs with
  | none =>
      have hcs := splitAtColon_eq_none_iff.1 hcase
      simp only [reduceCtorEq, false_iff, not_exists]
      rintro p v ⟨rfl, -⟩
      simp at hcs
  | some parts =>
      obtain ⟨p, v⟩ := parts
      obtain ⟨rfl, hp⟩ := splitAtColon_eq_some_iff.1 hcase
      constructor
      · intro h
        refine ⟨p, v, rfl, hp, ?_⟩
        by_cases hne : trim p = []
        · simp [Declaration.ofRead, hne] at h
        · simp only [Declaration.ofRead, String.isEmpty_iff, String.ofList_eq_empty_iff, hne,
            if_false] at h
          exact ⟨hne, (Except.ok.inj h).symm⟩
      · rintro ⟨p', v', he, hp', hne, rfl⟩
        have hsplit := splitAtColon_eq_some_iff.2 ⟨he, hp'⟩
        rw [hcase, Option.some.injEq, Prod.mk.injEq] at hsplit
        obtain ⟨rfl, rfl⟩ := hsplit
        simp [Declaration.ofRead, hne]

theorem colon_notMem_of_allBlank {l : List Char} (hl : allBlank l = true) : ':' ∉ l := by
  intro hm
  have hb : isBlank ':' = true := by
    simp only [allBlank, List.all_eq_true] at hl
    exact hl ':' hm
  exact absurd hb (by decide)

/-- Blanks around a declaration make no difference, to a fault in it neither. -/
theorem parseDeclaration_pad {l r : List Char} (cs : List Char) (hl : allBlank l = true)
    (hr : allBlank r = true) :
    parseDeclaration (String.ofList (l ++ cs ++ r)) = parseDeclaration (String.ofList cs) := by
  have htrim := trim_append_append (t := cs) hl hr
  unfold parseDeclaration trimString
  simp only [String.toList_ofList, htrim]
  cases hcase : splitAtColon cs with
  | none =>
      have hcs := splitAtColon_eq_none_iff.1 hcase
      have hno : splitAtColon (l ++ cs ++ r) = none := by
        rw [splitAtColon_eq_none_iff]
        simp [hcs, colon_notMem_of_allBlank hl, colon_notMem_of_allBlank hr]
      rw [hno]
  | some parts =>
      obtain ⟨p, v⟩ := parts
      obtain ⟨rfl, hp⟩ := splitAtColon_eq_some_iff.1 hcase
      have hsplit : splitAtColon (l ++ (p ++ ':' :: v) ++ r) = some (l ++ p, v ++ r) := by
        rw [splitAtColon_eq_some_iff]
        simp [hp, colon_notMem_of_allBlank hl]
      have hp' := trim_append_append (t := p) hl (r := []) rfl
      have hv' := trim_append_append (l := []) (t := v) rfl hr
      rw [List.append_nil] at hp'
      rw [List.nil_append] at hv'
      rw [hsplit]
      simp only [hp', hv']

theorem dropSemicolon_of_notMem {v : List Char} (h : ';' ∉ v) : dropSemicolon v = v := by
  unfold dropSemicolon
  rw [if_neg]
  intro he
  exact h (List.mem_of_getLast? he)

/-- Dropping a semicolon leaves no blanks at the edges. -/
theorem trimmed_dropSemicolon {v : List Char} (hv : Trimmed v) : Trimmed (dropSemicolon v) := by
  unfold dropSemicolon
  split
  · rename_i hlast
    have hhead : ∀ c ∈ v.dropLast.head?, isBlank c = false := by
      intro c hc
      refine hv.1 c ?_
      rw [← List.dropLast_append_getLast? ';' hlast, List.head?_append, Option.mem_def.1 hc]
      rfl
    rw [trimEnd_eq_trim hhead]
    exact trimmed_trim _
  · exact hv

theorem settled_of_parseDeclaration {source : String} {d : Declaration}
    (h : parseDeclaration source = .ok d) : d.Settled := by
  rw [← String.ofList_toList (s := source), parseDeclaration_eq_ok_iff] at h
  obtain ⟨p, v, -, hp, hne, rfl⟩ := h
  have hcolon : ':' ∉ trim p := fun hm => hp (mem_of_mem_trim hm)
  constructor
  · simpa using hne
  · exact lower_lower _
  · rw [toList_lower, String.toList_ofList]
    exact trimmed_map_toLower (trimmed_trim p)
  · rwa [toList_lower, String.toList_ofList, mem_map_toLower (by decide)]
  · rw [String.toList_ofList]
    exact trimmed_dropSemicolon (trimmed_trim v)

theorem readable_of_parseDeclaration {piece : List Char} {d : Declaration} (hpiece : ';' ∉ piece)
    (h : parseDeclaration (String.ofList piece) = .ok d) : d.Readable := by
  have hsettled := settled_of_parseDeclaration h
  obtain ⟨p, v, rfl, -, -, rfl⟩ := parseDeclaration_eq_ok_iff.1 h
  have hproperty : ';' ∉ trim p := fun hm => hpiece (by simp [mem_of_mem_trim hm])
  have hvalue : ';' ∉ trim v := fun hm => hpiece (by simp [mem_of_mem_trim hm])
  refine hsettled.readable ?_ ?_
  · rwa [toList_lower, String.toList_ofList, mem_map_toLower (by decide)]
  · rwa [String.toList_ofList, dropSemicolon_of_notMem hvalue]

theorem Declaration.toList_text (d : Declaration) :
    d.text.toList = d.property.toList ++ ':' :: d.value.toList ++ [';'] := by
  simp [Declaration.text]

/-- A readable declaration is read back from its text. -/
theorem parseDeclaration_written {d : Declaration} (hd : d.Readable) :
    parseDeclaration (String.ofList (d.property.toList ++ ':' :: d.value.toList)) = .ok d := by
  rw [parseDeclaration_eq_ok_iff]
  refine ⟨d.property.toList, d.value.toList, rfl, hd.property_plain.1, ?_, ?_⟩
  · rw [trim_of_trimmed hd.property_trimmed]
    exact hd.property_ne
  · rw [trim_of_trimmed hd.property_trimmed, trim_of_trimmed hd.value_trimmed,
      dropSemicolon_of_notMem hd.value_plain, String.ofList_toList, String.ofList_toList,
      hd.property_lower]

/-! ### Blocks -/

/-- Reading is piecewise. -/
theorem parseDeclarations_append (a b : List Char) :
    parseDeclarations (String.ofList (a ++ ';' :: b)) =
      (do return (← parseDeclarations (String.ofList a)) ++
        (← parseDeclarations (String.ofList b))) := by
  simp [parseDeclarations, splitAt_append]

theorem parseDeclarations_of_notMem {cs : List Char} (h : ';' ∉ cs) :
    parseDeclarations (String.ofList cs) =
      if allBlank cs then .ok [] else (parseDeclaration (String.ofList cs)).map ([·]) := by
  unfold parseDeclarations
  rw [String.toList_ofList, splitAt_of_notMem h]
  by_cases hb : allBlank cs = true
  · simp [hb, pure, Except.pure]
  · rw [Bool.not_eq_true] at hb
    simp only [List.filter_cons, hb, Bool.not_false, if_true, List.filter_nil, List.mapM_cons,
      List.mapM_nil]
    cases parseDeclaration (String.ofList cs) <;> rfl

theorem semicolon_notMem_of_allBlank {l : List Char} (hl : allBlank l = true) : ';' ∉ l := by
  intro hm
  simp only [allBlank, List.all_eq_true] at hl
  exact absurd (hl ';' hm) (by decide)

/-- Blanks around a block make no difference. -/
theorem parseDeclarations_pad {l r : List Char} (cs : List Char) (hl : allBlank l = true)
    (hr : allBlank r = true) :
    parseDeclarations (String.ofList (l ++ cs ++ r)) = parseDeclarations (String.ofList cs) := by
  have hsl := semicolon_notMem_of_allBlank hl
  have hsr := semicolon_notMem_of_allBlank hr
  -- a block without a semicolon is a single piece
  have hpiece : ∀ {l cs r : List Char}, allBlank l = true → allBlank r = true → ';' ∉ cs →
      parseDeclarations (String.ofList (l ++ cs ++ r)) = parseDeclarations (String.ofList cs) := by
    intro l cs r hl hr hcs
    have hblank : allBlank (l ++ cs ++ r) = allBlank cs := by
      simp only [allBlank, List.all_append] at hl hr ⊢
      simp [hl, hr]
    rw [parseDeclarations_of_notMem hcs, parseDeclarations_of_notMem (by
      simp [hcs, semicolon_notMem_of_allBlank hl, semicolon_notMem_of_allBlank hr]),
      hblank, parseDeclaration_pad cs hl hr]
  -- the blanks in front belong to the first piece, those behind to the last one
  have hend : ∀ cs, parseDeclarations (String.ofList (cs ++ r))
      = parseDeclarations (String.ofList cs) := by
    intro cs
    induction cs using pieces_induction ';' with
    | last cs hcs => exact hpiece (l := []) rfl hr hcs
    | more piece rest hp ih =>
        rw [List.append_assoc, List.cons_append, parseDeclarations_append,
          parseDeclarations_append, ih]
  rw [hend]
  induction cs using pieces_induction ';' with
  | last cs hcs => simpa using hpiece hl (r := []) rfl hcs
  | more piece rest hp ih =>
      have hfirst := hpiece hl (r := []) rfl hp
      rw [List.append_nil] at hfirst
      rw [← List.append_assoc, parseDeclarations_append, hfirst, parseDeclarations_append]

theorem parseDeclarations_trim (s : String) :
    parseDeclarations (trimString s) = parseDeclarations s := by
  obtain ⟨l, r, hl, hr, hs⟩ := exists_eq_trim s.toList
  rw [trimString, ← parseDeclarations_pad _ hl hr, ← hs, String.ofList_toList]

theorem readable_of_parseDeclarations {s : String} {ds : List Declaration}
    (h : parseDeclarations s = .ok ds) : ∀ d ∈ ds, d.Readable := by
  intro d hd
  obtain ⟨piece, hpiece, hread⟩ := exists_of_mem_mapM h hd
  have hmem := mem_of_mem_splitAt (List.mem_filter.1 hpiece).1
  exact readable_of_parseDeclaration (fun hm => (hmem ';' hm).2 rfl) hread

/-- Reading brings in no character, letters aside. -/
theorem notMem_of_parseDeclarations {s : String} {ds : List Declaration} {c : Char}
    (h : parseDeclarations s = .ok ds) (hletter : NoLetter c) (hc : c ∉ s.toList) :
    ∀ d ∈ ds, c ∉ d.property.toList ∧ c ∉ d.value.toList := by
  intro d hd
  obtain ⟨piece, hpiece, hread⟩ := exists_of_mem_mapM h hd
  have hmem := mem_of_mem_splitAt (List.mem_filter.1 hpiece).1
  obtain ⟨p, v, rfl, -, -, rfl⟩ := parseDeclaration_eq_ok_iff.1 hread
  have hsemi : ';' ∉ trim v := fun hm => (hmem ';' (by simp [mem_of_mem_trim hm])).2 rfl
  rw [dropSemicolon_of_notMem hsemi, toList_lower, String.toList_ofList, String.toList_ofList,
    mem_map_toLower hletter]
  constructor
  · exact fun hm => hc (hmem c (by simp [mem_of_mem_trim hm])).1
  · exact fun hm => hc (hmem c (by simp [mem_of_mem_trim hm])).1

/-- **Written declarations are read back,** with whatever blanks around each of them. -/
theorem parseDeclarations_written {ds : List Declaration} {l r : List Char}
    (hds : ∀ d ∈ ds, d.Readable) (hl : allBlank l = true) (hr : allBlank r = true) :
    parseDeclarations (String.ofList (ds.flatMap fun d => l ++ d.text.toList ++ r)) = .ok ds := by
  induction ds with
  | nil => rfl
  | cons d ds ih =>
      have hd := hds d (by simp)
      have hsplit : ((d :: ds).flatMap fun d => l ++ d.text.toList ++ r)
          = (l ++ (d.property.toList ++ ':' :: d.value.toList) ++ [])
            ++ ';' :: (r ++ (ds.flatMap fun d => l ++ d.text.toList ++ r) ++ []) := by
        simp [Declaration.toList_text]
      have hplain : ';' ∉ d.property.toList ++ ':' :: d.value.toList := by
        simp [hd.property_plain.2, hd.value_plain]
      have hmark : allBlank (d.property.toList ++ ':' :: d.value.toList) = false := by
        simp only [allBlank, List.all_append, List.all_cons]
        rw [show isBlank ':' = false from rfl, Bool.false_and, Bool.and_false]
      rw [hsplit, parseDeclarations_append, parseDeclarations_pad _ hl rfl,
        parseDeclarations_pad _ hr rfl, ih fun e he => hds e (by simp [he]),
        parseDeclarations_of_notMem hplain, hmark, parseDeclaration_written hd]
      rfl

end StyleInliner.Css
