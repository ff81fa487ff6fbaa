/-
Chaining selectors appends their steps.

A chain is put behind another by going down to the last step of the first one, which
has no joint until then.  So the steps of the whole are those of both parts, and
nothing in either of them changes but the joint of that one step (`steps_append`).

The written text is put together from the steps, each with the gap behind it that its
joint asks for (`text_eq_join`).  What chaining does to the text is therefore told by
what it does to the steps.
-/
import StyleInliner.Css.Selector

namespace StyleInliner.Css.Selector

/-- A step as it is written, with the gap behind it. -/
def stepWithGap (s : Step × Joint) : String :=
  s.1.text ++ s.2.text

/-- A selector is written step by step. -/
theorem text_eq_join (a : Selector) : a.text = String.join (a.steps.map stepWithGap) := by
  induction a with
  | single step => simp [text, steps, stepWithGap, Joint.text]
  | chain step joint rest ih => rw [text, steps, List.map_cons, String.join_cons, stepWithGap, ih]

/-- **The steps of a chain are those of its parts.**  The last step of the first part gets the joint
in place of none. -/
theorem steps_append (a b : Selector) (joint : Joint) :
    ∃ before last, a.steps = before ++ [(last, .combination)] ∧
      (a.append joint b).steps = before ++ (last, joint) :: b.steps := by
  induction a with
  | single step => exact ⟨[], step, rfl, rfl⟩
  | chain step inner rest ih =>
      obtain ⟨before, last, hrest, happend⟩ := ih
      exact ⟨(step, inner) :: before, last, by rw [steps, hrest, List.cons_append],
        by rw [append, steps, happend, List.cons_append]⟩

theorem text_append (a b : Selector) (joint : Joint) :
    (a.append joint b).text = a.text ++ joint.text ++ b.text := by
  obtain ⟨before, last, hsteps, happend⟩ := steps_append a b joint
  have ha : a.text = String.join (before.map stepWithGap) ++ last.text := by
    rw [text_eq_join, hsteps, List.map_append, String.join_append]
    simp [stepWithGap, Joint.text]
  rw [text_eq_join, happend, ha, text_eq_join b, List.map_append, List.map_cons,
    String.join_append, String.join_cons, stepWithGap, String.append_assoc, String.append_assoc,
    String.append_assoc]

theorem append_assoc (a b c : Selector) (r q : Joint) :
    (a.append r b).append q c = a.append r (b.append q c) := by
  induction a with
  | single step => rfl
  | chain step joint rest ih => rw [append, append, append, ih]

/-- **Chaining selectors is appending lists of steps.**  The steps of the first selector come first,
then those of the second one, and only the joint of the first one's last step is new; the text is
that of both with a space between them if the steps are further apart; and of three selectors it
makes no difference which two are chained first. -/
theorem chaining_appends (a b c : Selector) (r q : Joint) :
    (∃ before last, a.steps = before ++ [(last, .combination)] ∧
      (a.append r b).steps = before ++ (last, r) :: b.steps) ∧
    (a.append r b).text = a.text ++ (if r = .descendant then " " else "") ++ b.text ∧
    (a.append r b).append q c = a.append r (b.append q c) := by
  refine ⟨steps_append a b r, ?_, append_assoc a b c r q⟩
  rw [text_append]
  cases r <;> rfl

example :
    let td := Selector.single ⟨.tagName, "td"⟩
    let field := Selector.single ⟨.className, "field"⟩
    let total := Selector.single ⟨.elementId, "total"⟩
    ((td.append .combination field).append .descendant total).text = "td.field #total" := by
  decide +kernel

end StyleInliner.Css.Selector
