import TimeStepping.Failure

/-!
# Outcomes

An operation that works on a value in place may stop half way.  Its outcome
therefore holds both the value as it was left and how the operation ended: done,
stopped by a failure, or abandoned because of a fault.  A failure is reported to
the caller; a fault means that a precondition was violated, or that code
supplied by the user gave up, and unwinds the whole computation.
-/

namespace TimeStepping

/-- A violated precondition. -/
inductive Fault where
  | emptyStencil
  | lagOutOfRange (lag size : Nat)
  | sizeMismatch
  | outOfBounds
  | abandoned
  deriving DecidableEq

def Fault.message : Fault → String
  | emptyStencil => "a stencil must hold at least one state"
  | lagOutOfRange lag size =>
      s!"stencil index n-{lag} out of range for stencil of size {size}"
  | sizeMismatch => "operands differ in size"
  | outOfBounds => "entry out of bounds"
  | abandoned => "abandoned"

theorem exists_of_bind_ok {β γ : Type} {first : Except Fault β} {next : β → Except Fault γ}
    {result : γ} (h : first >>= next = .ok result) :
    ∃ value, first = .ok value ∧ next value = .ok result := by
  cases first with
  | error cause => cases h
  | ok value => exact ⟨value, rfl, h⟩

inductive Ending (α : Type) where
  | done
  | failed (cause : Failure α)
  | fault (cause : Fault)

def Ending.isDone {α : Type} : Ending α → Bool
  | .done => true
  | _ => false

theorem Ending.isDone_iff {α : Type} {ending : Ending α} : ending.isDone ↔ ending = .done := by
  cases ending <;> simp [isDone]

/-- A value worked on in place, as it was left, with the ending of the work. -/
structure Outcome (α β : Type) where
  value : β
  ending : Ending α

namespace Outcome

variable {α β : Type}

def done (value : β) : Outcome α β :=
  ⟨value, .done⟩

theorem eq_done {outcome : Outcome α β} (h : outcome.ending = .done) :
    outcome = done outcome.value := by
  cases outcome
  cases h
  rfl

/-- Keep the result of checked arithmetic; where a check fails, the value worked
on stays as it is and the work ends in that fault. -/
def ofChecked (old : β) : Except Fault β → Outcome α β
  | .ok value => ⟨value, .done⟩
  | .error cause => ⟨old, .fault cause⟩

def mapFailure (f : Failure α → Failure α) : Outcome α β → Outcome α β
  | ⟨value, .failed cause⟩ => ⟨value, .failed (f cause)⟩
  | outcome => outcome

theorem ending_mapFailure_eq_done {f : Failure α → Failure α} {outcome : Outcome α β} :
    (outcome.mapFailure f).ending = .done ↔ outcome.ending = .done := by
  cases outcome with
  | mk value ending => cases ending <;> simp [mapFailure]

/-- What becomes of an ending does not depend on the value. -/
theorem ending_mapFailure_mk {γ : Type} (f : Failure α → Failure α) (value : β)
    (outcome : Outcome α γ) :
    (mapFailure f ⟨value, outcome.ending⟩).ending = (outcome.mapFailure f).ending := by
  cases outcome with
  | mk other ending => cases ending <;> rfl

end Outcome

end TimeStepping
