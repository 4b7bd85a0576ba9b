import TimeStepping.Run.Basic
import TimeStepping.Run.TimeGrid

/-!
# Runs with prescribed time steps

Every step is attempted once, and the first failure ends the run.  The loop to a
target time is not bounded by its arguments: it takes the number of steps it may
make as `fuel`, and a run that uses it up is unfinished.
-/

namespace TimeStepping

namespace Run

variable {σ α : Type} [Scalar α]

/-- Take the steps `step + 1`, …, `step + remaining` of a run with one time step. -/
def stepsFrom (stepper : Steppable σ α) (observer : Observer σ α) (start dt : α) :
    (remaining step : Nat) → (time : α) → (live : Vec α) → StateM σ (Run α α)
  | 0, _, time, live => pure ⟨live, .finished time⟩
  | remaining + 1, step, time, live => do
      let outcome ← stepper.step live time dt (step + 1)
      match outcome.ending with
      | .done =>
          let time := start + ((step + 1 : Nat) : α) * dt
          observer (step + 1) time outcome.value
          stepsFrom stepper observer start dt remaining (step + 1) time outcome.value
      | .failed cause => pure ⟨outcome.value, .failed cause⟩
      | .fault cause => pure ⟨outcome.value, .fault cause⟩

def steps (stepper : Steppable σ α) (observer : Observer σ α) (start dt : α) (count : Nat)
    (live : Vec α) : StateM σ (Run α α) :=
  match TimeGrid.checkDt dt 1 with
  | .error cause => pure (refused live cause)
  | .ok _ => do
      observer 0 start live
      stepsFrom stepper observer start dt count 0 start live

def toTimeFrom (stepper : Steppable σ α) (policy : Policy σ α α) (observer : Observer σ α)
    (final : α) : (fuel step : Nat) → (time : α) → (live : Vec α) → StateM σ (Run α Nat)
  | 0, _, _, live => pure ⟨live, .unfinished⟩
  | fuel + 1, step, time, live =>
      if TimeGrid.endAhead time final then do
        let dt ← policy (step + 1) time
        match TimeGrid.checkDt dt (step + 1) with
        | .error cause => pure (refused live cause)
        | .ok _ =>
            let outcome ← stepper.step live time (TimeGrid.clamp time dt final) (step + 1)
            match outcome.ending with
            | .done =>
                let time := if TimeGrid.reachesEnd time dt final then final else time + dt
                observer (step + 1) time outcome.value
                toTimeFrom stepper policy observer final fuel (step + 1) time outcome.value
            | .failed cause => pure ⟨outcome.value, .failed cause⟩
            | .fault cause => pure ⟨outcome.value, .fault cause⟩
      else pure ⟨live, .finished step⟩

/-- Step from `start` to `final`, each step as long as the policy says but the
last one shortened; the result is the number of steps. -/
def toTime (fuel : Nat) (stepper : Steppable σ α) (policy : Policy σ α α)
    (observer : Observer σ α) (start final : α) (live : Vec α) : StateM σ (Run α Nat) :=
  match TimeGrid.checkInterval start final with
  | .error cause => pure (refused live cause)
  | .ok _ => do
      observer 0 start live
      toTimeFrom stepper policy observer final fuel 0 start live

end Run

end TimeStepping
