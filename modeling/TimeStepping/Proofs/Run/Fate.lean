import TimeStepping.Proofs.Fate
import TimeStepping.Proofs.Run.Retries

/-!
# From a failed evaluation to the end of the run

A failed evaluation is followed through everything that is built on the system.
It ends its attempt, and then a run with retries either makes another attempt at
the same step or ends, depending on nothing but the kind of the failure and the
control of the step.
-/

namespace TimeStepping

variable {σ τ α β γ : Type}

/-- No retry can mend the failure. -/
def Failure.Fatal : Failure α → Prop
  | timeStepTooSmall .. => True
  | configuration _ => True
  | _ => False

/-- What becomes of a failed evaluation in a step of the given number, time and length. -/
abbrev Fate (α : Type) := (step : Nat) → (time dt : α) → (updates : Nat) → Failure α → Failure α

/-- A fatal failure stays what it is, and any other becomes a time-step failure. -/
structure Fate.Proper (fate : Fate α) : Prop where
  fatal (step : Nat) (time dt : α) (updates : Nat) (cause : Failure α) (h : cause.Fatal) :
    fate step time dt updates cause = cause
  recoverable (step : Nat) (time dt : α) (updates : Nat) (cause : Failure α) (h : ¬cause.Fatal) :
    (fate step time dt updates cause).isTimeStepFailure

/-- Work with a watched system is work with the system, and ends with the first
failed evaluation, in its fate. -/
structure MeetsFate (fate : Nat → Failure α → Failure α) (ending : β → Ending α)
    (watched : StateM (Watched σ α) β) (plain : StateM σ β) : Prop where
  actsAs : ActsAs watched plain
  logs : Logs watched fun evaluations result => FailsWith fate evaluations (ending result)

/-- The steps of a stepper meet the fate, if it is itself kept in front of the environment. -/
structure Steppable.MeetsFate (fate : Fate α) (watched : Steppable (τ × Watched σ α) α)
    (plain : Steppable (τ × σ) α) : Prop where
  same (live : Vec α) (time dt : α) (step : Nat) (env : τ × Watched σ α) :
    let result := watched.step live time dt step env
    (result.1, result.2.1, result.2.2.2) = plain.step live time dt step (env.1, env.2.2)
  logs (live : Vec α) (time dt : α) (step : Nat) (env : τ × Watched σ α) :
    let result := watched.step live time dt step env
    ∃ evaluations, result.2.2.1 = env.2.1 ++ evaluations ∧
      FailsWith (fate step time dt) evaluations result.1.ending

namespace Run

/-! ## Runs of watched steppers -/

/-- A policy that sees neither the stepper nor the evaluations. -/
abbrev Policy.aside (τ : Type) (policy : Policy σ α β) : Policy (τ × Watched σ α) α β :=
  (policy.beside (List (Evaluated α))).beside τ

abbrev Observer.aside (τ : Type) (observer : Observer σ α) : Observer (τ × Watched σ α) α :=
  (observer.beside (List (Evaluated α))).beside τ

/-- In every attempt of a run with retries, an evaluation that failed was the
last, and the attempt failed with its fate.  A fatal failure ended the run.  Any
other was followed by an attempt at the same step, with the time step divided by
the reduction factor of the control, unless that was below its minimum or the
step had used up its attempts. -/
def Decided (fate : Fate α) [Scalar α] (trace : Trace (τ × Watched σ α) α (StepControl α))
    (ending : RunEnding α γ) : Prop :=
  ∀ (before : Trace (τ × Watched σ α) α (StepControl α)) trial after,
    trace = before ++ .attempted trial :: after →
    ∃ evaluations, trial.after.2.1 = trial.before.2.1 ++ evaluations ∧
      ∀ earlier evaluation later cause, evaluations = earlier ++ evaluation :: later →
        evaluation.ending = .failed cause →
          later = [] ∧
          trial.outcome.ending =
            .failed (fate trial.step trial.time trial.dt (jacobians earlier) cause) ∧
          (cause.Fatal → after = [] ∧ ending = .failed cause) ∧
          (¬cause.Fatal → ∃ control,
            before.answers.getLast? = some (trial.step, trial.time, control) ∧
            if trial.dt / control.reduction < control.minimum then
              after = [] ∧ ending = .failed
                (.timeStepTooSmall trial.step (trial.dt / control.reduction) control.minimum)
            else (after = [] ∧ ending = .unfinished) ∨
              ∃ next rest, after = .attempted next :: rest ∧ next.step = trial.step ∧
                next.time = trial.time ∧ next.dt = trial.dt / control.reduction)

variable [Scalar α]

variable [Journal α σ]

/-- The runs of a watched stepper with retries, whatever the callbacks are, are
those of the stepper, and are decided by the failed evaluations. -/
structure Meets (fate : Fate α) (watched : Steppable (τ × Watched σ α) α)
    (plain : Steppable (τ × σ) α) : Prop where
  stepsRetrying (control : Policy σ α (StepControl α)) (observer : Observer σ α) (fuel : Nat)
    (start : α) (count : Nat) (live : Vec α) (env : τ × Watched σ α) :
    let result := stepsRetrying fuel (watched.traced _) (control.aside τ).traced
      ((observer.aside τ).traced _) start count live ([], env)
    (result.1, result.2.2.1, result.2.2.2.2) = stepsRetrying fuel plain (control.beside τ)
        (observer.beside τ) start count live (env.1, env.2.2) ∧
      Decided fate result.2.1 result.1.ending
  toTimeRetrying (control : Policy σ α (StepControl α)) (observer : Observer σ α) (fuel : Nat)
    (start final : α) (live : Vec α) (env : τ × Watched σ α) :
    let result := toTimeRetrying fuel (watched.traced _) (control.aside τ).traced
      ((observer.aside τ).traced _) start final live ([], env)
    (result.1, result.2.2.1, result.2.2.2.2) = toTimeRetrying fuel plain (control.beside τ)
        (observer.beside τ) start final live (env.1, env.2.2) ∧
      Decided fate result.2.1 result.1.ending

end Run

/-! ## Systems -/

variable [Scalar α] [Journal α σ]

/-- Implicit steps with Newton iteration, at any chain and with any guess, meet
their fate, and so do the runs that are made of them. -/
structure StepEquation.MeetsFate (watched : StepEquation (Watched σ α) α)
    (plain : StepEquation σ α) : Prop where
  attempt (settings : Newton.Settings α) (linear : Newton.LinearSolver α) (keep : Nat → σ → σ)
    (chain : Chain α) (guess : Guess σ α) (live : Vec α) (now dt : α) (step : Nat) :
    TimeStepping.MeetsFate (implicitFate step now dt) Attempt.ending
      (Chain.attempt watched (Newton.solver settings linear (Newton.keepBeside _ keep)) chain
        (guess.beside _) live now dt step)
      (Chain.attempt plain (Newton.solver settings linear keep) chain guess live now dt step)
  runs (settings : Newton.Settings α) (linear : Newton.LinearSolver α) (keep : Nat → σ → σ)
    (order : Nat) :
    Run.Meets implicitFate
      (Chain.steppable watched (Newton.solver settings linear (Newton.keepBeside _ keep)) order)
      (Chain.steppable plain (Newton.solver settings linear keep) order)

/-- Explicit steps meet their fate, and so do the runs that are made of them. -/
structure ContinuousSystem.MeetsFate (watched : ContinuousSystem (Watched σ α) α)
    (plain : ContinuousSystem σ α) : Prop where
  attempt (stepper : ExplicitStepper α) (live : Vec α) (time dt : α) (step : Nat) :
    TimeStepping.MeetsFate (explicitFate step time dt) Outcome.ending
      (ExplicitStepper.attempt watched stepper live time dt step)
      (ExplicitStepper.attempt plain stepper live time dt step)
  runs (scheme : ExplicitScheme) :
    Run.Meets explicitFate (ExplicitStepper.steppable watched scheme)
      (ExplicitStepper.steppable plain scheme)

end TimeStepping
