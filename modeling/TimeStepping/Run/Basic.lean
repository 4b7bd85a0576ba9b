import TimeStepping.Linear.Vec

/-!
# Runs

A run drives a stepper over a number of steps or up to a target time, and shows
every accepted state to an observer, the initial state as step 0.
-/

namespace TimeStepping

/-- Anything that can be driven step by step.  A step works on the live state in
place and on an environment that holds all else. -/
structure Steppable (σ α : Type) where
  order : Nat
  step (live : Vec α) (time dt : α) (step : Nat) : StateM σ (Outcome α (Vec α))

/-- How a run ended. -/
inductive RunEnding (α β : Type) where
  | finished (result : β)
  | failed (cause : Failure α)
  | fault (cause : Fault)
  | unfinished

structure Run (α β : Type) where
  live : Vec α
  ending : RunEnding α β

namespace Run

variable {σ α : Type}

/-- Called with every accepted step, its time and its state. -/
abbrev Observer (σ α : Type) := Nat → α → Vec α → StateM σ Unit

/-- Chooses a value for the step with the given number that starts at the given time. -/
abbrev Policy (σ α β : Type) := Nat → α → StateM σ β

def refused {β : Type} (live : Vec α) (cause : Misconfiguration α) : Run α β :=
  ⟨live, .failed (.configuration cause)⟩

end Run

end TimeStepping
