/-
Declarations are read back from what they are written as.

A block is cut at its semicolons before anything else, so what is read from one is
`Declaration.Readable`, with no semicolon left, and `parseDeclarations_written` does the
rest.  A declaration read on its own is not cut: semicolons stay in it, wherever they
stand, apart from one at the end of the value, and that is the one that writing puts
back.  `Declaration.Settled` says what such a declaration is like.  It meets both
directions: reading ends in it (`settled_of_parseDeclaration`) and writing needs no more
(`parseDeclaration_text`), so it marks off the declarations that are read back.
-/
import StyleInliner.Proofs.Css.Rule

namespace StyleInliner.Css

open StyleInliner.Text

/-! ### One declaration -/

/-- The semicolon that is written behind a value is the one that reading drops. -/
theorem dropSemicolon_trim_append {v : List Char} (hv : Trimmed v) :
    dropSemicolon (trim (v ++ [';'])) = v := by
  have hmark : isBlank ';' = false := rfl
  have htrimmed : Trimmed (v ++ [';']) := by
    constructor
    · cases v with
      | nil => simpa using hmark
      | cons c v => simpa using hv.1
    · simpa using hmark
  rw [trim_of_trimmed htrimmed, dropSemicolon, if_pos (by simp), List.dropLast_concat,
    trimEnd_eq_trim hv.1, trim_of_trimmed hv]

theorem parseDeclaration_text {d : Declaration} (hd : d.Settled) :
    parseDeclaration d.text = .ok d := by
  have htext : d.text.toList = d.property.toList ++ ':' :: (d.value.toList ++ [';']) := by
    rw [Declaration.toList_text, List.append_assoc, List.cons_append]
  rw [← String.ofList_toList (s := d.text), parseDeclaration_eq_ok_iff]
  refine ⟨d.property.toList, d.value.toList ++ [';'], htext, hd.property_plain, ?_, ?_⟩
  · rw [trim_of_trimmed hd.property_trimmed]
    exact hd.property_ne
  · rw [trim_of_trimmed hd.property_trimmed, dropSemicolon_trim_append hd.value_trimmed,
      String.ofList_toList, String.ofList_toList, hd.property_lower]

/-- **The declarations that are read back from their text are the settled ones.** -/
theorem parseDeclaration_text_iff {d : Declaration} :
    parseDeclaration d.text = .ok d ↔ d.Settled :=
  ⟨settled_of_parseDeclaration, parseDeclaration_text⟩

/-! ### Declarations that are written one after the other -/

/-- A declaration made of two parts is settled when its text shows where the parts begin and end. -/
theorem settled_of_ofParts {property value : String} {d : Declaration}
    (h : Declaration.ofParts property value = .ok d) (hplain : ':' ∉ d.property.toList)
    (hproperty : Trimmed d.property.toList) (hvalue : Trimmed d.value.toList) : d.Settled := by
  unfold Declaration.ofParts Declaration.ofRead at h
  split at h
  · cases h
  split at h
  · cases h
  rename_i hne
  obtain rfl := Except.ok.inj h
  refine ⟨?_, lower_lower _, hproperty, hplain, hvalue⟩
  simpa [String.isEmpty_iff] using hne

/-- **Declarations survive writing:** a block that was read, in either layout; a declaration read on
its own, semicolons in it or not; and a list of declarations made of parts, as long as no part holds
a mark that reading cuts at or a blank at an edge. -/
theorem declarations_survive_writing :
    (∀ (layout : Layout) (source : String) (ds : List Declaration),
      parseDeclarations source = .ok ds → parseDeclarations (layout.declarations ds) = .ok ds) ∧
    (∀ (source : String) (d : Declaration),
      parseDeclaration source = .ok d → parseDeclaration d.text = .ok d) ∧
    ∀ (layout : Layout) (ds : List Declaration),
      (∀ d ∈ ds, (∃ property value, Declaration.ofParts property value = .ok d) ∧
        ':' ∉ d.property.toList ∧ ';' ∉ d.property.toList ∧ ';' ∉ d.value.toList ∧
        Trimmed d.property.toList ∧ Trimmed d.value.toList) →
      parseDeclarations (layout.declarations ds) = .ok ds := by
  refine ⟨fun layout source ds h => ?_, fun source d h => ?_, fun layout ds hds => ?_⟩
  · exact layout.parseDeclarations_text (readable_of_parseDeclarations h)
  · exact parseDeclaration_text (settled_of_parseDeclaration h)
  · refine layout.parseDeclarations_text fun d hd => ?_
    obtain ⟨⟨property, value, hmade⟩, hcolon, hproperty, hvalue, hedges⟩ := hds d hd
    exact (settled_of_ofParts hmade hcolon hedges.1 hedges.2).readable hproperty hvalue

/-- Braces, colons, comment marks and line breaks in the values make no difference, nor do
semicolons in a declaration read on its own. -/
theorem declarations_survive_writing_marks :
    (∃ ds, parseDeclarations " Filter : progid:X(a=1) ;; B:\x7b//\n\x7d ; c :" = .ok ds ∧
      ds.length = 3 ∧ ∀ layout : Layout, parseDeclarations (layout.declarations ds) = .ok ds) ∧
    (∃ d, parseDeclaration "A;b : c ; ;" = .ok d ∧ d.property = "a;b" ∧ d.value = "c ;" ∧
      parseDeclaration d.text = .ok d) ∧
    ∃ d, Declaration.ofParts "É a" "/* \x7d:\n */ x" = .ok d ∧
      ∀ layout : Layout, parseDeclarations (layout.declarations [d, d]) = .ok [d, d] := by
  obtain ⟨hblock, hone, hmade⟩ := declarations_survive_writing
  have htrimmed : ∀ {text : String}, trimString text = text → Trimmed text.toList := by
    intro text h
    rw [← h, trimString, String.toList_ofList]
    exact trimmed_trim text.toList
  let block := " Filter : progid:X(a=1) ;; B:\x7b//\n\x7d ; c :"
  refine ⟨⟨[⟨"filter", "progid:X(a=1)"⟩, ⟨"b", "\x7b//\n\x7d"⟩, ⟨"c", ""⟩], ?_, rfl, ?_⟩,
    ⟨⟨"a;b", "c ;"⟩, ?_, rfl, rfl, ?_⟩, ⟨⟨"É a", "/* \x7d:\n */ x"⟩, ?_, ?_⟩⟩
  · decide +kernel
  · exact fun layout => hblock layout block _ (by decide +kernel)
  · decide +kernel
  · exact hone "A;b : c ; ;" _ (by decide +kernel)
  · decide +kernel
  · intro layout
    refine hmade layout _ fun d hd => ?_
    obtain rfl : d = ⟨"É a", "/* \x7d:\n */ x"⟩ := by simpa using hd
    exact ⟨⟨"É A", "/* \x7d:\n */ x", by decide +kernel⟩, by decide, by decide, by decide,
      htrimmed (by decide +kernel), htrimmed (by decide +kernel)⟩

end StyleInliner.Css
