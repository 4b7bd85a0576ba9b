import TimeStepping.Event
import TimeStepping.Run.Basic
import TimeStepping.Run.StepControl
import TimeStepping.Run.TimeGrid

/-!
# Runs with retries

A step that fails is repeated with a reduced time step until it succeeds or the
step falls below its minimum.  Loops that the arguments do not bound take the
number of turns they are allowed as `fuel`; a run that uses it up is unfinished.
-/

namespace TimeStepping

namespace Run

variable {σ α : Type} [Scalar α] [Journal α σ]

/-- Attempt a step with the time step `dt`, and as long as it fails, with
smaller ones; the result is the time step that was accepted. -/
def retryFrom (stepper : Steppable σ α) (control : StepControl α) (time : α) (step : Nat) :
    (fuel : Nat) → (dt : α) → (live : Vec α) → StateM σ (Run α α)
  | 0, _, live => pure ⟨live, .unfinished⟩
  | fuel + 1, dt, live => do
      let outcome ← stepper.step live time dt step
      match outcome.ending with
      | .done => pure ⟨outcome.value, .finished dt⟩
      | .fault cause => pure ⟨outcome.value, .fault cause⟩
      | .failed cause =>
          if cause.isTimeStepFailure then
            let reduced := dt / control.reduction
            if reduced < control.minimum then
              note (.gaveUp step cause)
              pure ⟨outcome.value, .failed (.timeStepTooSmall step reduced control.minimum)⟩
            else
              note (.retrying step dt reduced)
              retryFrom stepper control time step fuel reduced outcome.value
          else pure ⟨outcome.value, .failed cause⟩

/-- Take one step under a control; a step that reaches the final time, if there
is one, is first attempted with what is left. -/
def stepRetrying (fuel : Nat) (stepper : Steppable σ α) (control : StepControl α)
    (final : Option α) (time : α) (step : Nat) (live : Vec α) : StateM σ (Run α α) :=
  match control.validate with
  | .error cause => pure (refused live cause)
  | .ok _ =>
      let dt :=
        match final with
        | some final => TimeGrid.clamp time control.dt final
        | none => control.dt
      retryFrom stepper control time step fuel dt live

def stepsRetryingFrom (fuel : Nat) (stepper : Steppable σ α)
    (control : Policy σ α (StepControl α)) (observer : Observer σ α) :
    (remaining step : Nat) → (time : α) → (live : Vec α) → StateM σ (Run α α)
  | 0, _, time, live => pure ⟨live, .finished time⟩
  | remaining + 1, step, time, live => do
      let sizes ← control (step + 1) time
      let run ← stepRetrying fuel stepper sizes none time (step + 1) live
      match run.ending with
      | .finished dt =>
          observer (step + 1) (time + dt) run.live
          stepsRetryingFrom fuel stepper control observer remaining (step + 1) (time + dt) run.live
      | ending => pure ⟨run.live, ending⟩

/-- Take `count` steps, retrying each as its control allows; the result is the
final time. -/
def stepsRetrying (fuel : Nat) (stepper : Steppable σ α) (control : Policy σ α (StepControl α))
    (observer : Observer σ α) (start : α) (count : Nat) (live : Vec α) :
    StateM σ (Run α α) := do
  observer 0 start live
  stepsRetryingFrom fuel stepper control observer count 0 start live

def arrival (time dt final : α) : α :=
  if Scalar.abs (final - (time + dt)) ≤ TimeGrid.tolerance final then final else time + dt

/-- Continue a retrying run to the final time, from `time` after `step` steps.
`retries` is the fuel of each step. -/
def toTimeRetryingFrom (retries : Nat) (stepper : Steppable σ α)
    (control : Policy σ α (StepControl α)) (observer : Observer σ α) (final : α) :
    (fuel step : Nat) → (time : α) → (live : Vec α) → StateM σ (Run α Nat)
  | 0, _, _, live => pure ⟨live, .unfinished⟩
  | fuel + 1, step, time, live =>
      if TimeGrid.endAhead time final then do
        let sizes ← control (step + 1) time
        let run ← stepRetrying retries stepper sizes (some final) time (step + 1) live
        match run.ending with
        | .finished dt =>
            let time := arrival time dt final
            observer (step + 1) time run.live
            toTimeRetryingFrom retries stepper control observer final fuel (step + 1) time run.live
        | .failed cause => pure ⟨run.live, .failed cause⟩
        | .fault cause => pure ⟨run.live, .fault cause⟩
        | .unfinished => pure ⟨run.live, .unfinished⟩
      else pure ⟨live, .finished step⟩

/-- Step from `start` to `final`, retrying each step as its control allows; the
result is the number of steps. -/
def toTimeRetrying (fuel : Nat) (stepper : Steppable σ α) (control : Policy σ α (StepControl α))
    (observer : Observer σ α) (start final : α) (live : Vec α) : StateM σ (Run α Nat) :=
  match TimeGrid.checkInterval start final with
  | .error cause => pure (refused live cause)
  | .ok _ => do
      observer 0 start live
      toTimeRetryingFrom fuel stepper control observer final fuel 0 start live

end Run

end TimeStepping
