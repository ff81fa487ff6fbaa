/-
Runs that stop at the first fault.

Inlining changes a document step by step.  A step that fails leaves the document
as the step found it, but what earlier steps did stays done.  So a run ends with
a state in any case, and with the fault that ended it, if one did.
-/

namespace StyleInliner

/-- How far a run came: the state it reached, and the fault that stopped it there. -/
structure Run (σ ε : Type) where
  state : σ
  fault : Option ε
  deriving Repr

namespace Run

variable {σ ε α : Type}

/-- A run that has nothing to do. -/
def done (state : σ) : Run σ ε :=
  ⟨state, none⟩

/-- A single step from a state, which stays as it is if the step fails. -/
def step (state : σ) : Except ε σ → Run σ ε
  | .ok next => ⟨next, none⟩
  | .error e => ⟨state, some e⟩

/-- Goes on from where a run came, unless a fault stopped it. -/
def andThen (r : Run σ ε) (next : σ → Run σ ε) : Run σ ε :=
  match r.fault with
  | none => next r.state
  | some _ => r

/-- Does something for each item in turn, up to the first fault. -/
def forEach (body : σ → α → Run σ ε) (state : σ) : List α → Run σ ε
  | [] => done state
  | a :: rest => (body state a).andThen fun next => forEach body next rest

/-- The state of a run that no fault stopped. -/
def toExcept (r : Run σ ε) : Except ε σ :=
  match r.fault with
  | none => .ok r.state
  | some e => .error e

end Run

end StyleInliner
