/-
The document between the steps of a run.

After the stylesheet is collected the first two passes change elements in place,
by the edits of their schedule (`applyStylesheet_eq_done`), so all that is known
of the edits for one node is known of what a run makes of that node.
-/
import StyleInliner.Proofs.Css.Rule
import StyleInliner.Proofs.Inline.Schedule
import StyleInliner.Proofs.Inline.Stylesheet

namespace StyleInliner.Inline

open StyleInliner.Css StyleInliner.Dom

/-- What the first two passes are, if no fault stops them, and what they match elements with. -/
theorem exists_matchable_of_applyStylesheet {order : List String → List String} {css : String}
    {remove : Bool} {c styled : Document}
    (h : applyStylesheet order css remove c = Run.done styled) :
    ∃ (rules : List Rule) (m : Matchable), parseRules css = .ok rules ∧
      Matchable.ofDictionary (Dictionary.ofRules rules) = .ok m ∧
      styled = { c with forest := styled.forest } ∧
      Edited c.forest styled.forest fun n e e' =>
        editOf (passes (Dictionary.ofRules rules) { m with tags := order m.tags }
          (Index.ofDocument c) remove) n e = .ok e' := by
  unfold applyStylesheet at h
  split at h
  · cases h
  · rename_i dictionary m hread
    obtain ⟨dictionary', hparse, hread⟩ := bind_eq_ok_iff.1 hread
    obtain ⟨rules, hrules, rfl⟩ := map_eq_ok_iff.1 hparse
    obtain ⟨m', hm, hread⟩ := bind_eq_ok_iff.1 hread
    obtain ⟨rfl, rfl⟩ := Prod.mk.inj (Except.ok.inj hread)
    obtain ⟨hstate, hfault⟩ := Run.mk.inj h
    have hdone := Run.eq_done_iff.1 (Run.eq_done_of_fault hfault)
    rw [toExcept_inlineRules, runSchedule_eq_ok_iff] at hdone
    refine ⟨rules, m', hrules, hm, ?_, ?_⟩
    · rw [← hstate]
    · rw [← hstate]
      exact hdone

/-- What the first two passes are, if no fault stops them. -/
theorem applyStylesheet_eq_done {order : List String → List String} {css : String} {remove : Bool}
    {c styled : Document} (h : applyStylesheet order css remove c = Run.done styled) :
    ∃ (rules : List Rule) (m : Matchable), parseRules css = .ok rules ∧
      styled = { c with forest := styled.forest } ∧
      Edited c.forest styled.forest fun n e e' =>
        editOf (passes (Dictionary.ofRules rules) { m with tags := order m.tags }
          (Index.ofDocument c) remove) n e = .ok e' := by
  obtain ⟨rules, m, hread, -, hsame, hedited⟩ := exists_matchable_of_applyStylesheet h
  exact ⟨rules, m, hread, hsame, hedited⟩

end StyleInliner.Inline
