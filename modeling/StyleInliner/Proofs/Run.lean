/-
Runs and their results.

A `Run` keeps the state a fault stopped it in; most of what is proved is about
runs that nothing stopped, and those are computations in `Except`.  `toExcept`
forgets the rest, and it turns going on into binding and a loop into a monadic
fold (`toExcept_andThen`, `toExcept_forEach`).  Where the fault is what matters,
`fault_eq` reads it off that result.
-/
import Mathlib.Data.List.Forall2
import Mathlib.Tactic.Common
import StyleInliner.Inline.Run

namespace StyleInliner

variable {σ ε α β γ : Type}

/-! ### Computations that may fail -/

theorem bind_eq_ok_iff {x : Except ε α} {f : α → Except ε β} {b : β} :
    x >>= f = .ok b ↔ ∃ a, x = .ok a ∧ f a = .ok b := by
  cases x with
  | error e => simp [bind, Except.bind]
  | ok a => simp [bind, Except.bind]

theorem bind_eq_error_iff {x : Except ε α} {f : α → Except ε β} {e : ε} :
    x >>= f = .error e ↔ x = .error e ∨ ∃ a, x = .ok a ∧ f a = .error e := by
  cases x with
  | error d => simp [bind, Except.bind]
  | ok a => simp [bind, Except.bind]

theorem map_eq_ok_iff {x : Except ε α} {f : α → β} {b : β} :
    x.map f = .ok b ↔ ∃ a, x = .ok a ∧ f a = b := by
  cases x with
  | error e => simp [Except.map]
  | ok a => simp [Except.map]

theorem exists_error_iff {x : Except ε α} : (∃ e, x = .error e) ↔ ¬ ∃ a, x = .ok a := by
  cases x <;> simp

theorem mapError_eq_ok_iff {δ : Type} {x : Except ε α} {f : ε → δ} {a : α} :
    x.mapError f = .ok a ↔ x = .ok a := by
  cases x with
  | error e => simp [Except.mapError]
  | ok a => simp [Except.mapError]

theorem mapError_eq_error_iff {δ : Type} {x : Except ε α} {f : ε → δ} {d : δ} :
    x.mapError f = .error d ↔ ∃ e, x = .error e ∧ f e = d := by
  cases x with
  | error e => simp [Except.mapError]
  | ok a => simp [Except.mapError]

/-- The fault of a computation, if it ends in one. -/
def faultOf : Except ε α → Option ε
  | .ok _ => none
  | .error e => some e

theorem faultOf_eq_some_iff {x : Except ε α} {e : ε} : faultOf x = some e ↔ x = .error e := by
  cases x <;> simp [faultOf]

theorem faultOf_eq_none_iff {x : Except ε α} : faultOf x = none ↔ ∃ a, x = .ok a := by
  cases x <;> simp [faultOf]

@[simp] theorem faultOf_map (x : Except ε α) (f : α → β) : faultOf (x.map f) = faultOf x := by
  cases x <;> rfl

/-- A list is read when each of its items is. -/
theorem mapM_eq_ok_iff {f : α → Except ε β} {l : List α} {ys : List β} :
    l.mapM f = .ok ys ↔ List.Forall₂ (fun a b => f a = .ok b) l ys := by
  induction l generalizing ys with
  | nil =>
      show Except.ok [] = Except.ok ys ↔ _
      cases ys <;> simp
  | cons a l ih =>
      rw [List.mapM_cons, bind_eq_ok_iff, List.forall₂_cons_left_iff]
      constructor
      · rintro ⟨b, hb, h⟩
        obtain ⟨bs, hbs, h⟩ := bind_eq_ok_iff.1 h
        cases h
        exact ⟨b, bs, hb, ih.1 hbs, rfl⟩
      · rintro ⟨b, bs, hb, hbs, rfl⟩
        exact ⟨b, hb, bind_eq_ok_iff.2 ⟨bs, ih.2 hbs, rfl⟩⟩

theorem exists_of_mem_mapM {f : α → Except ε β} {l : List α} {ys : List β}
    (h : l.mapM f = .ok ys) {b : β} (hb : b ∈ ys) : ∃ a ∈ l, f a = .ok b := by
  have hall := mapM_eq_ok_iff.1 h
  induction hall with
  | nil => simp at hb
  | cons hab htail ih =>
      rcases List.mem_cons.1 hb with rfl | hb
      · exact ⟨_, by simp, hab⟩
      · obtain ⟨a, ha, hread⟩ := ih (mapM_eq_ok_iff.2 htail) hb
        exact ⟨a, by simp [ha], hread⟩

/-- A loop whose steps are idle but for one item takes that one step. -/
theorem foldlM_eq_of_nodup [DecidableEq α] {l : List α} {a : α} (hl : l.Nodup)
    {step : σ → α → Except ε σ} (hidle : ∀ b ∈ l, b ≠ a → ∀ s, step s b = .ok s) (s : σ) :
    l.foldlM step s = if a ∈ l then step s a else .ok s := by
  induction l generalizing s with
  | nil => rfl
  | cons b l ih =>
      obtain ⟨hb, hl⟩ := List.nodup_cons.1 hl
      have hrest := ih hl fun c hc => hidle c (by simp [hc])
      rw [List.foldlM_cons]
      by_cases hab : b = a
      · subst hab
        rw [if_pos (by simp)]
        cases step s b with
        | error e => rfl
        | ok s' =>
            refine (hrest s').trans ?_
            rw [if_neg hb]
      · rw [hidle b (by simp) hab s]
        refine (hrest s).trans ?_
        simp [Ne.symm hab]

/-- What each step of a loop keeps, a loop without a fault keeps. -/
theorem rel_of_foldlM {R : σ → σ → Prop} (hrefl : ∀ s, R s s)
    (htrans : ∀ {a b c}, R a b → R b c → R a c) {step : σ → α → Except ε σ} {l : List α}
    (hstep : ∀ a ∈ l, ∀ s s', step s a = .ok s' → R s s') {s s' : σ}
    (h : l.foldlM step s = .ok s') : R s s' := by
  induction l generalizing s with
  | nil =>
      obtain rfl := Except.ok.inj h
      exact hrefl s
  | cons a l ih =>
      rw [List.foldlM_cons] at h
      obtain ⟨mid, hmid, h⟩ := bind_eq_ok_iff.1 h
      exact htrans (hstep a (by simp) s mid hmid) (ih (fun b hb => hstep b (by simp [hb])) h)

namespace Run

/-! ### Runs without a fault -/

theorem eq_done_iff {r : Run σ ε} {s : σ} : r = done s ↔ r.toExcept = .ok s := by
  obtain ⟨state, fault⟩ := r
  cases fault <;> simp [done, toExcept]

theorem eq_done_of_fault {r : Run σ ε} (h : r.fault = none) : r = done r.state := by
  obtain ⟨state, fault⟩ := r
  obtain rfl : fault = none := h
  rfl

@[simp] theorem toExcept_done (s : σ) : (done s : Run σ ε).toExcept = .ok s := rfl

@[simp] theorem toExcept_step (s : σ) (x : Except ε σ) : (step s x).toExcept = x := by
  cases x <;> rfl

@[simp] theorem toExcept_andThen (r : Run σ ε) (next : σ → Run σ ε) :
    (r.andThen next).toExcept = r.toExcept >>= fun s => (next s).toExcept := by
  obtain ⟨state, fault⟩ := r
  cases fault <;> rfl

@[simp] theorem toExcept_forEach (body : σ → α → Run σ ε) (s : σ) (l : List α) :
    (forEach body s l).toExcept = l.foldlM (fun s a => (body s a).toExcept) s := by
  induction l generalizing s with
  | nil => rfl
  | cons a l ih =>
      rw [forEach, toExcept_andThen, List.foldlM_cons]
      simp only [ih]

/-- The fault of a run is that of its result. -/
theorem fault_eq (r : Run σ ε) : r.fault = faultOf r.toExcept := by
  obtain ⟨state, fault⟩ := r
  cases fault <;> rfl

theorem fault_eq_some_iff {r : Run σ ε} {e : ε} : r.fault = some e ↔ r.toExcept = .error e := by
  rw [fault_eq, faultOf_eq_some_iff]

theorem fault_step (s : σ) (x : Except ε σ) (e : ε) :
    (step s x).fault = some e ↔ x = .error e := by
  rw [fault_eq_some_iff, toExcept_step]

theorem state_step_of_fault {s : σ} {x : Except ε σ} {e : ε} (h : (step s x).fault = some e) :
    (step s x).state = s := by
  cases x with
  | ok next => cases h
  | error fault => rfl

/-- After a fault nothing more is done. -/
theorem andThen_of_fault {r : Run σ ε} {e : ε} (h : r.fault = some e) (next : σ → Run σ ε) :
    r.andThen next = r := by
  rw [andThen, h]

/-- A step that cannot fail is not taken after a fault. -/
theorem andThen_done_of_fault {r : Run σ ε} {next : σ → σ} {e : ε}
    (h : (r.andThen fun s => done (next s)).fault = some e) :
    (r.andThen fun s => done (next s)) = r := by
  obtain ⟨state, fault⟩ := r
  cases fault with
  | none => cases h
  | some found => rfl

/-! ### Runs over another kind of state -/

/-- The run with its state seen in another way. -/
def map (view : σ → α) (r : Run σ ε) : Run α ε :=
  ⟨view r.state, r.fault⟩

@[simp] theorem toExcept_map (view : σ → α) (r : Run σ ε) :
    (r.map view).toExcept = r.toExcept.map view := by
  obtain ⟨state, fault⟩ := r
  cases fault <;> rfl

/-- A loop that does at each step what another one does is that loop, seen in another way. -/
theorem forEach_map {view : σ → β} {body : β → α → Run β ε} {plain : σ → α → Run σ ε}
    (hbody : ∀ s a, body (view s) a = (plain s a).map view) (s : σ) (l : List α) :
    forEach body (view s) l = (forEach plain s l).map view := by
  induction l generalizing s with
  | nil => rfl
  | cons a l ih =>
      rw [forEach, forEach, hbody]
      obtain ⟨state, fault⟩ := plain s a
      cases fault with
      | none => exact ih state
      | some e => rfl

end Run

end StyleInliner
