/-
Comparing the declarations of a rule with others.

Declarations are compared by how they are written, so what is compared are two lists
of texts.  The comparison asks for as many texts and for each of the others among the
rule's own; it does not count how often one comes.  So it never misses a list that is
the rule's own in another order, and of what else it lets through one text comes more
often than in the rule (`perm_iff`).  Lists that repeat nothing are told apart.

The comparison goes one way only: it can be passed from rule to rule, but not turned
round.
-/
import Mathlib.Data.List.Perm.Subperm
import StyleInliner.Css.Rule

namespace StyleInliner.Css

/-- Declarations as they are written. -/
def textsOf (ds : List Declaration) : List String :=
  ds.map Declaration.text

namespace Rule

variable {rule : Rule} {others : List Declaration}

theorem hasDeclarations_iff : rule.hasDeclarations others = true ↔
    (textsOf rule.declarations).length = (textsOf others).length ∧
      textsOf others ⊆ textsOf rule.declarations := by
  have hamong : ∀ other, (rule.declarations.any (·.sameText other) = true ↔
      other.text ∈ textsOf rule.declarations) := by
    simp [textsOf, Declaration.sameText]
  simp [hasDeclarations, hamong, textsOf, List.subset_def]

/-- The declarations of the rule in another order are never missed. -/
theorem hasDeclarations_of_perm (h : (textsOf rule.declarations).Perm (textsOf others)) :
    rule.hasDeclarations others = true :=
  hasDeclarations_iff.2 ⟨h.length_eq, h.symm.subset⟩

/-- As many texts, none of them more often than in the rule, are the texts of the rule. -/
theorem perm_iff : (textsOf rule.declarations).Perm (textsOf others) ↔
    rule.hasDeclarations others = true ∧
      ∀ text, (textsOf others).count text ≤ (textsOf rule.declarations).count text := by
  constructor
  · exact fun h => ⟨hasDeclarations_of_perm h, fun text => Nat.le_of_eq (h.count_eq text).symm⟩
  · rintro ⟨hhas, hcount⟩
    have hsubperm := List.subperm_ext_iff.2 fun text _ => hcount text
    exact (hsubperm.perm_of_length_le (Nat.le_of_eq (hasDeclarations_iff.1 hhas).1)).symm

/-- Where nothing is repeated, the comparison is one up to order. -/
theorem hasDeclarations_iff_perm_of_nodup (h : (textsOf others).Nodup) :
    rule.hasDeclarations others = true ↔
      (textsOf rule.declarations).Perm (textsOf others) := by
  refine ⟨fun hhas => ?_, hasDeclarations_of_perm⟩
  obtain ⟨hlength, hsubset⟩ := hasDeclarations_iff.1 hhas
  exact ((List.subperm_of_subset h hsubset).perm_of_length_le (Nat.le_of_eq hlength)).symm

/-- What a rule has, and what a rule with those declarations has, the first rule has. -/
theorem hasDeclarations_trans {middle : Rule} {more : List Declaration}
    (h : rule.hasDeclarations middle.declarations = true)
    (hmore : middle.hasDeclarations more = true) : rule.hasDeclarations more = true := by
  obtain ⟨hlength, hsubset⟩ := hasDeclarations_iff.1 h
  obtain ⟨hlength', hsubset'⟩ := hasDeclarations_iff.1 hmore
  exact hasDeclarations_iff.2 ⟨hlength.trans hlength', fun _ ht => hsubset (hsubset' ht)⟩

/-- Two rules have the declarations of each other just when they have as many, of the same texts. -/
theorem hasDeclarations_both_iff {other : Rule} :
    rule.hasDeclarations other.declarations = true ∧
        other.hasDeclarations rule.declarations = true ↔
      (textsOf rule.declarations).length = (textsOf other.declarations).length ∧
        ∀ text, text ∈ textsOf rule.declarations ↔ text ∈ textsOf other.declarations := by
  rw [hasDeclarations_iff, hasDeclarations_iff]
  constructor
  · rintro ⟨⟨hlength, hsubset⟩, -, hsubset'⟩
    exact ⟨hlength, fun text => ⟨fun ht => hsubset' ht, fun ht => hsubset ht⟩⟩
  · rintro ⟨hlength, hsame⟩
    exact ⟨⟨hlength, fun text => (hsame text).2⟩, hlength.symm, fun text => (hsame text).1⟩

/-- **A rule has the declarations of a list just when there are as many and each is written like one
of its own.**  A list that is the rule's own in another order is one of these; it is told from the
others by having no text more often than the rule, and where the list repeats nothing there are no
others.  The comparison goes on from rule to rule, and both ways only between rules with as many
declarations of the same texts. -/
theorem hasDeclarations_up_to_order (rule other : Rule) (others : List Declaration) :
    (rule.hasDeclarations others = true ↔
        (textsOf rule.declarations).length = (textsOf others).length ∧
          textsOf others ⊆ textsOf rule.declarations) ∧
      ((textsOf rule.declarations).Perm (textsOf others) ↔
        rule.hasDeclarations others = true ∧
          ∀ text, (textsOf others).count text ≤ (textsOf rule.declarations).count text) ∧
      ((textsOf others).Nodup → (rule.hasDeclarations others = true ↔
        (textsOf rule.declarations).Perm (textsOf others))) ∧
      (rule.hasDeclarations other.declarations = true →
        other.hasDeclarations others = true → rule.hasDeclarations others = true) ∧
      (rule.hasDeclarations other.declarations = true ∧
          other.hasDeclarations rule.declarations = true ↔
        (textsOf rule.declarations).length = (textsOf other.declarations).length ∧
          ∀ text, text ∈ textsOf rule.declarations ↔ text ∈ textsOf other.declarations) :=
  ⟨hasDeclarations_iff, perm_iff, hasDeclarations_iff_perm_of_nodup, hasDeclarations_trans,
    hasDeclarations_both_iff⟩

/-- A rule compared with its own declarations in another order, and, by way of a second rule, with a
list that repeats one of them; `a:b` with value `c` is written like `a` with value `b:c`. -/
theorem hasDeclarations_up_to_order_repeats :
    let rule : Rule := ⟨[], [⟨"a", "b:c"⟩, ⟨"x", "1"⟩, ⟨"y", ""⟩]⟩
    let other : Rule := ⟨[], [⟨"x", "1"⟩, ⟨"y", ""⟩, ⟨"x", "1"⟩]⟩
    let turned : List Declaration := [⟨"y", ""⟩, ⟨"a:b", "c"⟩, ⟨"x", "1"⟩]
    let repeated : List Declaration := [⟨"y", ""⟩, ⟨"y", ""⟩, ⟨"x", "1"⟩]
    (textsOf rule.declarations).Perm (textsOf turned) ∧
      rule.hasDeclarations other.declarations = true ∧ other.hasDeclarations repeated = true ∧
      rule.hasDeclarations repeated = true ∧
      ¬ (textsOf rule.declarations).Perm (textsOf repeated) := by
  intro rule other turned repeated
  have hmiddle : rule.hasDeclarations other.declarations = true := by decide
  have hmore : other.hasDeclarations repeated = true := by decide
  obtain ⟨-, -, hnodup, -, -⟩ := hasDeclarations_up_to_order rule other turned
  obtain ⟨-, hperm, -, htrans, -⟩ := hasDeclarations_up_to_order rule other repeated
  refine ⟨(hnodup (by decide)).1 (by decide), hmiddle, hmore, htrans hmiddle hmore, fun h => ?_⟩
  exact absurd ((hperm.1 h).2 "y:;") (by decide)

/-- A list that repeats one declaration of two is let through, and it has not the other one: this
is no permutation, and the other way round the comparison fails. -/
theorem hasDeclarations_repeated :
    let rule : Rule := ⟨[], [⟨"a", "1"⟩, ⟨"b", "2"⟩]⟩
    let other : Rule := ⟨[], [⟨"a", "1"⟩, ⟨"a", "1"⟩]⟩
    rule.hasDeclarations other.declarations = true ∧
      ¬ (textsOf rule.declarations).Perm (textsOf other.declarations) ∧
      other.hasDeclarations rule.declarations = false := by
  decide

end Rule

end StyleInliner.Css
