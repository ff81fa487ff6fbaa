/-
Start tags are read as they are written.

A start tag is written attribute by attribute, and each round of the reader takes one
attribute of the text and leaves the rest alone (`readAttributes_writeAttribute`).  It
needs two things for that.  The name must not end before its last character, which is
what makes it carriable.  The value must not end before its last character and must
come out of its references as it went in; that holds of any value, because quotes and
ampersands are written as references that the reader knows.

What the reader changes it changes in any source: names are lower-cased, a name that is
repeated counts once, ends of line become newlines, and null characters are replaced.
-/
import StyleInliner.Html.Token.Lexer
import StyleInliner.Html.Writer
import StyleInliner.Proofs.Text

namespace StyleInliner.Html

open StyleInliner.Dom

/-! ### Names -/

/-- The characters that mean something in a tag. -/
def markupCharacters : List Char :=
  ['"', '\'', '<', '>', '/', '=']

/-- A name that a start tag can carry: not empty, and free of blanks and of the characters that mean
something in a tag. -/
def Carriable (name : String) : Prop :=
  name ≠ "" ∧ ∀ c ∈ name.toList, Text.isBlank c = false ∧ c ∉ markupCharacters

instance (name : String) : Decidable (Carriable name) :=
  @instDecidableAnd _ _ inferInstance
    (List.decidableBAll (fun c => Text.isBlank c = false ∧ c ∉ markupCharacters) name.toList)

theorem Carriable.lower {name : String} (h : Carriable name) : Carriable (Text.lower name) := by
  have hletters : ∀ c ∈ markupCharacters, Text.NoLetter c := by
    simp only [markupCharacters, List.forall_mem_cons, List.not_mem_nil, false_implies,
      implies_true, and_true]
    decide
  refine ⟨fun hempty => h.1 ?_, fun c hc => ?_⟩
  · have hlist := congrArg String.toList hempty
    rw [Text.toList_lower, String.toList_empty, List.map_eq_nil_iff] at hlist
    exact String.toList_eq_nil_iff.1 hlist
  · rw [Text.toList_lower] at hc
    obtain ⟨d, hd, rfl⟩ := List.mem_map.1 hc
    obtain ⟨hblank, hmarkup⟩ := h.2 d hd
    refine ⟨(Text.isBlank_toLower d).trans hblank, fun hmem => hmarkup ?_⟩
    have hsame : d = d.toLower := (Text.toLower_eq_iff (hletters _ hmem)).1 rfl
    exact hsame ▸ hmem

theorem isBlank_of_isSpace {c : Char} (h : isSpace c = true) : Text.isBlank c = true := by
  simp only [isSpace, Bool.or_eq_true, beq_iff_eq] at h
  rcases h with (((rfl | rfl) | rfl) | rfl) | rfl <;> decide

theorem Carriable.endsAttributeName {name : String} (h : Carriable name) :
    ∀ c ∈ name.toList, endsAttributeName c = false := by
  intro c hc
  obtain ⟨hblank, hmarkup⟩ := h.2 c hc
  have hspace : isSpace c = false := by
    rw [← Bool.not_eq_true]
    intro hspace
    rw [isBlank_of_isSpace hspace] at hblank
    cases hblank
  simp only [markupCharacters, List.mem_cons, not_or] at hmarkup
  simp [Html.endsAttributeName, hspace, hmarkup]

/-! ### References -/

/-- A name of the table is read as a reference when its semicolon is there. -/
theorem namedReference?_of_entry {name : String} {characters : List Char}
    (hname : ∀ c ∈ name.toList, c.isAlphanum = true) (hlength : name.toList.length ≤ longestName)
    (hentry : referenceTable[name]? = some characters) (inAttribute : Bool) (rest : List Char) :
    namedReference? inAttribute (name.toList ++ ';' :: rest) = some ⟨characters, rest, false⟩ := by
  have hword : ((name.toList ++ ';' :: rest).take (longestName + 1)).takeWhile Char.isAlphanum =
      name.toList := by
    obtain ⟨more, hmore⟩ : ∃ more, longestName + 1 - name.toList.length = more + 1 :=
      ⟨longestName - name.toList.length, by omega⟩
    rw [List.take_append, List.take_of_length_le (by omega), hmore, List.take_succ_cons,
      List.takeWhile_append_of_pos hname, List.takeWhile_cons_of_neg (by decide),
      List.append_nil]
  unfold namedReference?
  dsimp only
  rw [hword, List.drop_left, String.ofList_toList, hentry]
  rfl

theorem referenceTable_written {name : String} {c : Char} (h : (name, c) ∈ writtenReferences) :
    referenceTable[name]? = some [c] := by
  -- the last entry of a name holds, and these are the last entries
  rw [referenceTable, Std.HashMap.ofList_eq_insertMany_empty, Std.HashMap.insertMany_append]
  refine Std.HashMap.getElem?_insertMany_list_of_mem BEq.rfl ?_ (List.mem_map_of_mem h)
  decide

/-- The references that are written are read. -/
theorem reference?_written {name : String} {c : Char} (h : (name, c) ∈ writtenReferences)
    (inAttribute : Bool) (rest : List Char) :
    reference? inAttribute (name.toList ++ ';' :: rest) = some ⟨[c], rest, false⟩ := by
  have hplain : ∀ entry ∈ writtenReferences, entry.1.toList.all Char.isAlphanum = true ∧
      entry.1.toList.length ≤ longestName ∧ entry.1.toList ≠ [] := by
    decide +kernel
  obtain ⟨hname, hlength, hne⟩ := hplain _ h
  rw [List.all_eq_true] at hname
  rw [← namedReference?_of_entry hname hlength (referenceTable_written h) inAttribute rest]
  obtain ⟨first, more, hfirst⟩ := List.exists_cons_of_ne_nil hne
  -- a name does not begin like a number
  have hsharp : first ≠ '#' := by
    rintro rfl
    have := hname '#' (by rw [hfirst]; simp)
    cases this
  dsimp only at hfirst
  rw [hfirst, List.cons_append, reference?]
  all_goals exact fun _ heq => hsharp (List.cons.inj heq).1

/-! ### Values -/

/-- A character is written as it is, or as a reference to it. -/
theorem escapeValue_cases (c : Char) :
    (c ≠ '&' ∧ c ≠ '"' ∧ escapeValue c = [c]) ∨
      ∃ name, (name, c) ∈ writtenReferences ∧ escapeValue c = '&' :: name.toList ++ [';'] := by
  unfold escapeValue
  split
  · exact Or.inr ⟨"amp", by decide, by decide +kernel⟩
  · exact Or.inr ⟨"nbsp", by decide, by decide +kernel⟩
  · exact Or.inr ⟨"quot", by decide, by decide +kernel⟩
  · rename_i hamp _ hquot
    exact Or.inl ⟨hamp, hquot, rfl⟩

theorem quote_notMem_escaped (cs : List Char) : '"' ∉ cs.flatMap escapeValue := by
  have hname : ∀ entry ∈ writtenReferences, '"' ∉ '&' :: entry.1.toList ++ [';'] := by
    decide +kernel
  rw [List.mem_flatMap]
  rintro ⟨c, -, hc⟩
  rcases escapeValue_cases c with ⟨-, hquot, heq⟩ | ⟨name, hentry, heq⟩
  · rw [heq, List.mem_singleton] at hc
    exact hquot hc.symm
  · rw [heq] at hc
    exact hname _ hentry hc

/-- **What was escaped is decoded to what it was,** given fuel for each character. -/
theorem decodeWithin_escaped (cs : List Char) {fuel : Nat}
    (hfuel : (cs.flatMap escapeValue).length ≤ fuel) :
    decodeWithin true fuel (cs.flatMap escapeValue) = cs := by
  induction cs generalizing fuel with
  | nil => cases fuel <;> rfl
  | cons c cs ih =>
      rw [List.flatMap_cons] at hfuel ⊢
      rw [List.length_append] at hfuel
      rcases escapeValue_cases c with ⟨hamp, -, heq⟩ | ⟨name, hentry, heq⟩
      · rw [heq, List.length_singleton] at hfuel
        obtain ⟨fuel, rfl⟩ : ∃ n, fuel = n + 1 := ⟨fuel - 1, by omega⟩
        rw [heq, List.singleton_append, decodeWithin, ih (by omega)]
        exact hamp
      · rw [heq, List.length_append, List.length_cons] at hfuel
        obtain ⟨fuel, rfl⟩ : ∃ n, fuel = n + 1 := ⟨fuel - 1, by omega⟩
        rw [heq, List.cons_append, List.cons_append, List.append_assoc, List.singleton_append,
          decodeWithin, reference?_written hentry]
        dsimp only
        rw [ih (by omega)]
        rfl

theorem withoutNulls_escaped (cs : List Char) :
    withoutNulls (cs.flatMap escapeValue) = (withoutNulls cs).flatMap escapeValue := by
  have hname : ∀ entry ∈ writtenReferences,
      withoutNulls ('&' :: entry.1.toList ++ [';']) = '&' :: entry.1.toList ++ [';'] ∧
        entry.2 ≠ '\x00' := by
    decide +kernel
  have hreplaced : escapeValue replacementCharacter = [replacementCharacter] := by decide
  rw [withoutNulls, withoutNulls, List.map_flatMap, List.flatMap_map]
  refine List.flatMap_congr fun c _ => ?_
  rcases escapeValue_cases c with ⟨-, -, heq⟩ | ⟨name, hentry, heq⟩
  · rw [heq, List.map_singleton]
    split
    · exact hreplaced.symm
    · exact heq.symm
  · obtain ⟨hsame, hnull⟩ := hname _ hentry
    rw [if_neg hnull, heq]
    exact hsame

theorem attributeValue_escaped (cs : List Char) :
    attributeValue (cs.flatMap escapeValue) = String.ofList (withoutNulls cs) := by
  have hlength : ((withoutNulls cs).flatMap escapeValue).length =
      (cs.flatMap escapeValue).length := by
    rw [← withoutNulls_escaped, withoutNulls, List.length_map]
  rw [attributeValue, withoutNulls_escaped, decodeWithin_escaped _ (Nat.le_of_eq hlength)]

/-- A value is read up to its closing quote. -/
theorem readValue_escaped (cs rest : List Char) :
    readValue ('"' :: cs.flatMap escapeValue ++ '"' :: rest) =
      some (cs.flatMap escapeValue, rest) := by
  have hinside : ∀ c ∈ cs.flatMap escapeValue, (c != '"') = true := by
    intro c hc
    rw [bne_iff_ne]
    rintro rfl
    exact quote_notMem_escaped cs hc
  rw [List.cons_append, readValue, List.dropWhile_cons_of_neg (by decide)]
  show (if _ then _ else _) = _
  rw [if_pos (Or.inl rfl), List.dropWhile_append_of_pos hinside,
    List.takeWhile_append_of_pos hinside, List.dropWhile_cons_of_neg (by simp),
    List.takeWhile_cons_of_neg (by simp), List.append_nil]

/-! ### Attributes -/

theorem toList_writeAttribute (a : Attribute) :
    (writeAttribute a).toList =
      ' ' :: a.name.toList ++ '=' :: '"' :: a.value.toList.flatMap escapeValue ++ ['"'] := by
  simp [writeAttribute, escaped]

/-- An attribute as it is read from characters: its name lower-cased, and both parts without null
characters. -/
def lexedAttribute (a : Attribute) : Attribute :=
  ⟨nameOf a.name.toList, String.ofList (withoutNulls a.value.toList)⟩

/-- **One round of reading takes one attribute as it is written,** whatever follows it. -/
theorem readAttributes_writeAttribute {a : Attribute} (ha : Carriable a.name) (fuel : Nat)
    (found : List Attribute) (rest : List Char) :
    readAttributes (fuel + 1) found ((writeAttribute a).toList ++ rest) =
      readAttributes fuel (addAttribute found (lexedAttribute a)) rest := by
  have hends := ha.endsAttributeName
  obtain ⟨c, cs, hname⟩ :=
    List.exists_cons_of_ne_nil fun hnil => ha.1 (String.toList_eq_nil_iff.1 hnil)
  rw [hname] at hends
  have hc := hends c (by simp)
  have hcs : ∀ d ∈ cs, (!endsAttributeName d) = true := fun d hd => by
    rw [hends d (by simp [hd])]
    rfl
  simp only [endsAttributeName, Bool.or_eq_false_iff, beq_eq_false_iff_ne] at hc
  obtain ⟨⟨⟨hspace, hslash⟩, hbracket⟩, -⟩ := hc
  have htext : (writeAttribute a).toList ++ rest =
      ' ' :: c :: (cs ++ '=' :: ('"' :: a.value.toList.flatMap escapeValue ++ '"' :: rest)) := by
    rw [toList_writeAttribute, hname]
    simp
  rw [htext, readAttributes, List.dropWhile_cons_of_pos (by decide),
    List.dropWhile_cons_of_neg (by simp [hspace])]
  split
  · rename_i heq
    cases heq
  · rename_i heq
    exact absurd (List.cons.inj heq).1 hbracket
  · rename_i heq
    exact absurd (List.cons.inj heq).1 hslash
  · rename_i heq
    exact absurd (List.cons.inj heq).1 hslash
  · rename_i heq
    obtain ⟨rfl, rfl⟩ := List.cons.inj heq
    rw [List.takeWhile_append_of_pos hcs, List.dropWhile_append_of_pos hcs,
      List.takeWhile_cons_of_neg (by decide), List.dropWhile_cons_of_neg (by decide),
      List.dropWhile_cons_of_neg (by decide), List.append_nil]
    dsimp only
    split
    · rename_i hvalue
      obtain ⟨-, rfl⟩ := List.cons.inj hvalue
      rw [readValue_escaped]
      dsimp only
      rw [attributeValue_escaped, lexedAttribute, hname]
    · rename_i hnone
      exact absurd rfl (hnone _)

/-- The attributes of a start tag as they are written. -/
def writtenAttributes (attributes : List Attribute) : List Char :=
  attributes.flatMap fun a => (writeAttribute a).toList

theorem length_le_writtenAttributes (attributes : List Attribute) :
    attributes.length ≤ (writtenAttributes attributes).length := by
  rw [writtenAttributes]
  induction attributes with
  | nil => simp
  | cons a attributes ih =>
      rw [List.flatMap_cons, List.length_append, toList_writeAttribute, List.length_cons,
        List.cons_append, List.cons_append, List.length_cons]
      omega

/-- The attributes of a tag as they are read from characters, the first of every name. -/
def lexedAttributes (attributes : List Attribute) : List Attribute :=
  (attributes.map lexedAttribute).foldl addAttribute []

/-- **The attributes of a start tag are read up to its end,** given fuel for each of them. -/
theorem readAttributes_written {attributes : List Attribute}
    (h : ∀ a ∈ attributes, Carriable a.name) {fuel : Nat} (hfuel : attributes.length < fuel)
    (rest : List Char) :
    readAttributes fuel [] (writtenAttributes attributes ++ '>' :: rest) =
      some (lexedAttributes attributes, false, rest) := by
  rw [writtenAttributes, lexedAttributes]
  generalize ([] : List Attribute) = found
  obtain ⟨fuel, rfl⟩ : ∃ n, fuel = n + 1 := ⟨fuel - 1, by omega⟩
  induction attributes generalizing fuel found with
  | nil => rfl
  | cons a attributes ih =>
      rw [List.length_cons] at hfuel
      obtain ⟨fuel, rfl⟩ : ∃ n, fuel = n + 1 := ⟨fuel - 1, by omega⟩
      rw [List.flatMap_cons, List.append_assoc, readAttributes_writeAttribute (h a (by simp)),
        List.map_cons, List.foldl_cons]
      exact ih (fun b hb => h b (by simp [hb])) _ fuel (by omega)

/-! ### Tags -/

/-- A name that can be read as that of a tag. -/
def TagName (name : String) : Prop :=
  name.toList.head?.any isLetter = true ∧ ∀ c ∈ name.toList, endsTagName c = false

instance (name : String) : Decidable (TagName name) :=
  @instDecidableAnd _ _ inferInstance
    (List.decidableBAll (fun c => endsTagName c = false) name.toList)

theorem toList_startTag (e : Element) :
    (startTag e).toList =
      '<' :: (e.name.toList ++ (writtenAttributes e.attributes ++ ['>'])) := by
  simp [startTag, writtenAttributes, List.flatMap_map]

/-- What follows the name of a written tag ends the name. -/
theorem exists_cons_of_written (attributes : List Attribute) (rest : List Char) :
    ∃ c cs, writtenAttributes attributes ++ '>' :: rest = c :: cs ∧ endsTagName c = true := by
  cases attributes with
  | nil => exact ⟨'>', rest, rfl, by decide⟩
  | cons a attributes =>
      refine ⟨' ', (a.name.toList ++ '=' :: '"' :: a.value.toList.flatMap escapeValue ++ ['"']) ++
        (writtenAttributes attributes ++ '>' :: rest), ?_, by decide⟩
      rw [writtenAttributes, List.flatMap_cons, toList_writeAttribute, ← writtenAttributes,
        List.append_assoc]
      rfl

theorem readTag_written {e : Element} (hname : TagName e.name)
    (h : ∀ a ∈ e.attributes, Carriable a.name) (rest : List Char) :
    readTag (e.name.toList ++ (writtenAttributes e.attributes ++ '>' :: rest)) =
      some (⟨nameOf e.name.toList, lexedAttributes e.attributes, false⟩, rest) := by
  have hletters : ∀ c ∈ e.name.toList, (!endsTagName c) = true := fun c hc => by
    rw [hname.2 c hc]
    rfl
  obtain ⟨c, cs, hrest, hc⟩ := exists_cons_of_written e.attributes rest
  have hfuel : e.attributes.length <
      (e.name.toList ++ (writtenAttributes e.attributes ++ '>' :: rest)).length + 1 := by
    have := length_le_writtenAttributes e.attributes
    simp only [List.length_append]
    omega
  rw [readTag, List.dropWhile_append_of_pos hletters, List.takeWhile_append_of_pos hletters, hrest,
    List.dropWhile_cons_of_neg (by simp [hc]), List.takeWhile_cons_of_neg (by simp [hc]), ← hrest,
    readAttributes_written h hfuel, List.append_nil]
  rfl

/-- A letter behind an opening bracket begins a tag. -/
theorem lexMarkup_of_isLetter {c : Char} (hc : isLetter c = true) (foreign : Bool)
    {cs rest : List Char} {tag : Tag} (htag : readTag (c :: cs) = some (tag, rest)) :
    lexMarkup foreign (c :: cs) = ([.startTag tag], rest) := by
  have hother : ∀ d : Char, isLetter d = false → c ≠ d := by
    rintro d hd rfl
    rw [hc] at hd
    cases hd
  have hslash : c ≠ '/' := hother '/' (by decide)
  rw [lexMarkup]
  · rw [if_pos hc, htag]
  · exact hother '!' (by decide)
  · exact hother '?' (by decide)
  · exact fun h => absurd h hslash
  · exact fun _ h => absurd h hslash
  · exact fun _ _ h => absurd h hslash

theorem lexData_startTag {e : Element} (hname : TagName e.name)
    (h : ∀ a ∈ e.attributes, Carriable a.name) (foreign : Bool) (rest : List Char) :
    lexData foreign ((startTag e).toList ++ rest) =
      ([.startTag ⟨nameOf e.name.toList, lexedAttributes e.attributes, false⟩], rest) := by
  have htext : (startTag e).toList ++ rest =
      '<' :: (e.name.toList ++ (writtenAttributes e.attributes ++ '>' :: rest)) := by
    rw [toList_startTag]
    simp
  obtain ⟨c, hc, hletter⟩ := (Option.any_eq_true _ _).1 hname.1
  obtain ⟨cs, hcs⟩ := List.head?_eq_some_iff.1 hc
  have hread := readTag_written hname h rest
  rw [hcs, List.cons_append] at hread
  rw [htext, lexData, hcs, List.cons_append, lexMarkup_of_isLetter hletter foreign hread]

/-! ### Ends of line -/

theorem normalizeNewlines_cons {c : Char} (hc : c ≠ '\r') (cs : List Char) :
    normalizeNewlines (c :: cs) = c :: normalizeNewlines cs := by
  rw [normalizeNewlines]
  · exact fun _ h => absurd h hc
  · exact hc

theorem normalizeNewlines_append {a : List Char} (ha : '\r' ∉ a) (b : List Char) :
    normalizeNewlines (a ++ b) = a ++ normalizeNewlines b := by
  induction a with
  | nil => rfl
  | cons c a ih =>
      rw [List.mem_cons, not_or] at ha
      rw [List.cons_append, normalizeNewlines_cons (Ne.symm ha.1), ih ha.2]
      rfl

theorem return_notMem_escapeValue {c : Char} (hc : c ≠ '\r') : '\r' ∉ escapeValue c := by
  have hname : ∀ entry ∈ writtenReferences, '\r' ∉ '&' :: entry.1.toList ++ [';'] := by
    decide +kernel
  rcases escapeValue_cases c with ⟨-, -, heq⟩ | ⟨name, hentry, heq⟩
  · rw [heq, List.mem_singleton]
    exact Ne.symm hc
  · rw [heq]
    exact hname _ hentry

/-- An escaped value begins with a newline only if the value does. -/
theorem exists_newline_of_escaped {cs b rest : List Char}
    (h : cs.flatMap escapeValue ++ '"' :: b = '\n' :: rest) : ∃ more, cs = '\n' :: more := by
  cases cs with
  | nil => cases h
  | cons c cs =>
      rw [List.flatMap_cons] at h
      rcases escapeValue_cases c with ⟨-, -, heq⟩ | ⟨name, -, heq⟩
      · rw [heq, List.singleton_append, List.cons_append] at h
        exact ⟨cs, by rw [(List.cons.inj h).1]⟩
      · rw [heq] at h
        cases h

/-- Ends of line may be normalized before a value is escaped or after. -/
theorem normalizeNewlines_escaped (cs b : List Char) :
    normalizeNewlines (cs.flatMap escapeValue ++ '"' :: b) =
      (normalizeNewlines cs).flatMap escapeValue ++ '"' :: normalizeNewlines b := by
  have hreturn : escapeValue '\r' = ['\r'] := by decide
  have hnewline : escapeValue '\n' = ['\n'] := by decide
  fun_induction normalizeNewlines cs with
  | case1 => exact normalizeNewlines_cons (by decide) b
  | case2 cs ih =>
      rw [List.flatMap_cons, List.flatMap_cons, List.flatMap_cons, hreturn, hnewline]
      exact congrArg (List.cons '\n') ih
  | case3 cs hnot ih =>
      rw [List.flatMap_cons, List.flatMap_cons, hreturn, hnewline, List.singleton_append,
        List.cons_append, normalizeNewlines]
      · exact congrArg (List.cons '\n') ih
      · intro rest heq
        obtain ⟨more, hmore⟩ := exists_newline_of_escaped heq
        exact hnot more hmore
  | case4 c cs _ hc ih =>
      rw [List.flatMap_cons, List.flatMap_cons, List.append_assoc, List.append_assoc,
        normalizeNewlines_append (return_notMem_escapeValue hc), ih]

/-- An attribute with every end of line in its value a newline. -/
def withNewlines (a : Attribute) : Attribute :=
  { a with value := String.ofList (normalizeNewlines a.value.toList) }

theorem normalizeNewlines_writeAttribute {a : Attribute} (ha : Carriable a.name)
    (rest : List Char) :
    normalizeNewlines ((writeAttribute a).toList ++ rest) =
      (writeAttribute (withNewlines a)).toList ++ normalizeNewlines rest := by
  have hname : '\r' ∉ ' ' :: a.name.toList ++ ['=', '"'] := by
    have hblank : '\r' ∉ a.name.toList := fun hmem => by
      have := (ha.2 _ hmem).1
      cases this
    simp [hblank]
  have htext : ∀ (value : String) (rest : List Char),
      (writeAttribute ⟨a.name, value⟩).toList ++ rest =
        (' ' :: a.name.toList ++ ['=', '"']) ++
          (value.toList.flatMap escapeValue ++ '"' :: rest) := by
    intro value rest
    rw [toList_writeAttribute]
    simp
  rw [htext a.value, withNewlines, htext, normalizeNewlines_append hname,
    normalizeNewlines_escaped, String.toList_ofList]

theorem normalizeNewlines_written {attributes : List Attribute}
    (h : ∀ a ∈ attributes, Carriable a.name) (rest : List Char) :
    normalizeNewlines (writtenAttributes attributes ++ '>' :: rest) =
      writtenAttributes (attributes.map withNewlines) ++ '>' :: normalizeNewlines rest := by
  induction attributes with
  | nil => exact normalizeNewlines_cons (by decide) rest
  | cons a attributes ih =>
      rw [writtenAttributes, List.flatMap_cons, ← writtenAttributes, List.append_assoc,
        normalizeNewlines_writeAttribute (h a (by simp)), ih fun b hb => h b (by simp [hb]),
        List.map_cons, writtenAttributes, writtenAttributes, List.flatMap_cons, List.append_assoc]

/-- The attributes that a written start tag is read with. -/
def readBack (attributes : List Attribute) : List Attribute :=
  lexedAttributes (attributes.map withNewlines)

/-- **A start tag is read as a start tag with the attributes it was written with,** and what follows
it is left alone. -/
theorem lexData_written {e : Element} (hname : TagName e.name)
    (h : ∀ a ∈ e.attributes, Carriable a.name) (foreign : Bool) (rest : List Char) :
    lexData foreign (normalizeNewlines ((startTag e).toList ++ rest)) =
      ([.startTag ⟨nameOf e.name.toList, readBack e.attributes, false⟩],
        normalizeNewlines rest) := by
  have hreturn : '\r' ∉ '<' :: e.name.toList := by
    rw [List.mem_cons, not_or]
    refine ⟨by decide, fun hmem => ?_⟩
    have := hname.2 _ hmem
    cases this
  have hsource : normalizeNewlines ((startTag e).toList ++ rest) =
      (startTag { e with attributes := e.attributes.map withNewlines }).toList ++
        normalizeNewlines rest := by
    rw [toList_startTag, toList_startTag, ← List.cons_append, List.append_assoc,
      normalizeNewlines_append hreturn, List.append_assoc, List.singleton_append,
      normalizeNewlines_written h]
    simp
  have hnames : ∀ a ∈ e.attributes.map withNewlines, Carriable a.name := by
    intro a ha
    obtain ⟨b, hb, rfl⟩ := List.mem_map.1 ha
    exact h b hb
  rw [hsource]
  exact lexData_startTag (e := { e with attributes := e.attributes.map withNewlines }) hname hnames
    foreign _

/-- An attribute that reading does not change. -/
structure Plain (a : Attribute) : Prop where
  name_lower : Text.lower a.name = a.name
  name_null : '\x00' ∉ a.name.toList
  value_null : '\x00' ∉ a.value.toList
  value_return : '\r' ∉ a.value.toList

theorem withoutNulls_of_notMem {cs : List Char} (h : '\x00' ∉ cs) : withoutNulls cs = cs := by
  refine (List.map_congr_left fun c hc => if_neg ?_).trans (List.map_id cs)
  rintro rfl
  exact h hc

theorem Plain.lexedAttribute {a : Attribute} (ha : Plain a) :
    lexedAttribute (withNewlines a) = a := by
  have hvalue : normalizeNewlines a.value.toList = a.value.toList := by
    have hsame := normalizeNewlines_append ha.value_return []
    rwa [List.append_nil, show normalizeNewlines [] = [] from rfl, List.append_nil] at hsame
  rw [Html.lexedAttribute, withNewlines, nameOf, hvalue]
  dsimp only
  rw [String.toList_ofList, withoutNulls_of_notMem ha.name_null,
    withoutNulls_of_notMem ha.value_null, String.ofList_toList, String.ofList_toList,
    ha.name_lower]

/-- Attributes with new names are all added. -/
theorem foldl_addAttribute {found more : List Attribute}
    (hnodup : ((found ++ more).map Attribute.name).Nodup) :
    more.foldl addAttribute found = found ++ more := by
  induction more generalizing found with
  | nil => simp
  | cons a more ih =>
      have hnew : found.any (·.name == a.name) = false := by
        rw [List.map_append, List.nodup_append] at hnodup
        rw [List.any_eq_false]
        intro b hb
        have := hnodup.2.2 b.name (List.mem_map_of_mem hb) a.name (by simp)
        simpa using this
      rw [List.foldl_cons, addAttribute, hnew]
      exact (ih (by simpa using hnodup)).trans (by simp)

/-- Attributes that reading does not change are read as they were, if their names are distinct. -/
theorem readBack_eq_self {attributes : List Attribute}
    (hdistinct : (attributes.map Attribute.name).Nodup) (hplain : ∀ a ∈ attributes, Plain a) :
    readBack attributes = attributes := by
  have hsame : (attributes.map withNewlines).map lexedAttribute = attributes := by
    rw [List.map_map]
    exact (List.map_congr_left fun a ha => (hplain a ha).lexedAttribute).trans (List.map_id _)
  rw [readBack, lexedAttributes, hsame]
  exact foldl_addAttribute hdistinct

/-- Letters become small, ends of line newlines, and a name counts once. -/
example : readBack [⟨"Title", "a\rb"⟩, ⟨"title", "c"⟩] = [⟨"title", "a\nb"⟩] := by
  cbv

end StyleInliner.Html
