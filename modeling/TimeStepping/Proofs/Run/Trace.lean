import TimeStepping.Proofs.Run.Tandem

/-!
# Traces of runs

A trace lists, in order, what a run asked, attempted and showed, every attempt
with the environment before and after it.  It is made by running the same program
with callbacks that also write to a list, and the traced run is the run itself:
`steps_traced`, `toTime_traced`, `stepsRetrying_traced`, `toTimeRetrying_traced`.
-/

namespace TimeStepping

/-- One attempt at a step: with what it was made, and what came of it. -/
structure Trial (σ α : Type) where
  step : Nat
  time : α
  dt : α
  live : Vec α
  before : σ
  outcome : Outcome α (Vec α)
  after : σ

/-- One thing a run did. -/
inductive Deed (σ α β : Type) where
  | asked (step : Nat) (time : α) (answer : β)
  | attempted (trial : Trial σ α)
  | observed (step : Nat) (time : α) (live : Vec α)

abbrev Trace (σ α β : Type) := List (Deed σ α β)

variable {σ α β γ : Type}

/-- The attempt a stepper makes from the given live state and environment. -/
def Steppable.trial (stepper : Steppable σ α) (live : Vec α) (time dt : α) (step : Nat)
    (env : σ) : Trial σ α :=
  let result := stepper.step live time dt step env
  ⟨step, time, dt, live, env, result.1, result.2⟩

/-- A stepper that completes every step and changes nothing. -/
def Steppable.idle (α : Type) : Steppable Unit α where
  order := 1
  step live _ _ _ := pure (.done live)

namespace Trace

/-! ## Reading a trace -/

/-- The steps, times and states shown. -/
def shown (trace : Trace σ α β) : List (Nat × α × Vec α) :=
  trace.filterMap fun
    | .observed step time live => some (step, time, live)
    | _ => none

/-- The steps and times asked about, with the answers. -/
def answers (trace : Trace σ α β) : List (Nat × α × β) :=
  trace.filterMap fun
    | .asked step time answer => some (step, time, answer)
    | _ => none

/-- The attempts that were completed. -/
def acceptances (trace : Trace σ α β) : List (Trial σ α) :=
  trace.filterMap fun
    | .attempted trial => if trial.outcome.ending.isDone then some trial else none
    | _ => none

variable (trace : Trace σ α β) (step : Nat) (time : α) (live : Vec α) (answer : β)
  (trial : Trial σ α)

@[simp] theorem shown_asked : shown (trace ++ [.asked step time answer]) = shown trace := by
  simp [shown]

@[simp] theorem shown_attempted : shown (trace ++ [.attempted trial]) = shown trace := by
  simp [shown]

@[simp] theorem shown_observed :
    shown (trace ++ [.observed step time live]) = shown trace ++ [(step, time, live)] := by
  simp [shown]

@[simp] theorem answers_asked :
    answers (trace ++ [.asked step time answer]) = answers trace ++ [(step, time, answer)] := by
  simp [answers]

@[simp] theorem answers_attempted : answers (trace ++ [.attempted trial]) = answers trace := by
  simp [answers]

@[simp] theorem answers_observed :
    answers (trace ++ [.observed step time live]) = answers trace := by
  simp [answers]

@[simp] theorem acceptances_asked :
    acceptances (trace ++ [.asked step time answer]) = acceptances trace := by
  simp [acceptances]

theorem acceptances_of_done {trial : Trial σ α} (h : trial.outcome.ending = .done) :
    acceptances (trace ++ [.attempted trial]) = acceptances trace ++ [trial] := by
  simp [acceptances, Ending.isDone_iff.2 h]

theorem acceptances_of_undone {trial : Trial σ α} (h : trial.outcome.ending ≠ .done) :
    acceptances (trace ++ [.attempted trial]) = acceptances trace := by
  simp [acceptances, mt Ending.isDone_iff.1 h]

@[simp] theorem acceptances_observed :
    acceptances (trace ++ [.observed step time live]) = acceptances trace := by
  simp [acceptances]

end Trace

def Steppable.traced (β : Type) (stepper : Steppable σ α) : Steppable (Trace σ α β × σ) α where
  order := stepper.order
  step live time dt step :=
    logging (fun before outcome after => .attempted ⟨step, time, dt, live, before, outcome, after⟩)
      (stepper.step live time dt step)

namespace Run

def Policy.traced (policy : Policy σ α β) : Policy (Trace σ α β × σ) α β :=
  fun step time => logging (fun _ answer _ => .asked step time answer) (policy step time)

def Observer.traced (β : Type) (observer : Observer σ α) : Observer (Trace σ α β × σ) α :=
  fun step time live =>
    logging (fun _ _ _ => .observed step time live) (observer step time live)

/-! ## What each part writes -/

theorem attempt_logs (stepper : Steppable σ α) (live : Vec α) (time dt : α) (step : Nat) :
    Logs ((stepper.traced β).step live time dt step) fun deeds outcome =>
      ∃ env, deeds = [.attempted (stepper.trial live time dt step env)] ∧
        (stepper.trial live time dt step env).outcome = outcome :=
  ⟨fun env => ⟨_, rfl, env.2, rfl, rfl⟩⟩

theorem ask_logs (policy : Policy σ α β) (step : Nat) (time : α) :
    Logs (policy.traced step time) fun deeds answer => deeds = [.asked step time answer] :=
  ⟨fun _ => ⟨_, rfl, rfl⟩⟩

theorem observe_logs (observer : Observer σ α) (step : Nat) (time : α) (live : Vec α) :
    Logs (observer.traced β step time live) fun deeds _ => deeds = [.observed step time live] :=
  ⟨fun _ => ⟨_, rfl, rfl⟩⟩

/-! ## The traced run is the run itself -/

theorem traced_stepper (stepper : Steppable σ α) :
    (stepper.traced β).Tandem (behind _) stepper :=
  stepper_behind fun _ _ _ _ => ⟨fun _ => rfl⟩

theorem traced_policy (policy : Policy σ α β) : policy.traced.Tandem (behind _) policy :=
  policy_behind fun _ _ => .logging ..

theorem traced_observer (observer : Observer σ α) :
    (observer.traced β).Tandem (behind _) observer :=
  observer_behind fun _ _ _ => .logging ..

variable [Scalar α] (stepper : Steppable σ α) (observer : Observer σ α) (live : Vec α)

theorem steps_traced (start dt : α) (count : Nat) :
    ActsAs (steps (stepper.traced β) (observer.traced β) start dt count live)
      (steps stepper observer start dt count live) :=
  actsAs_of_behind
    (steps_tandem (traced_stepper stepper) (traced_observer observer) start dt count live live)

theorem toTime_traced (policy : Policy σ α α) (fuel : Nat) (start final : α) :
    ActsAs (toTime fuel (stepper.traced α) policy.traced (observer.traced α) start final live)
      (toTime fuel stepper policy observer start final live) :=
  actsAs_of_behind
    (toTime_tandem (traced_stepper stepper) (traced_policy policy) (traced_observer observer)
      fuel start final live live)

variable [Journal α σ] (control : Policy σ α (StepControl α))

theorem stepsRetrying_traced (fuel : Nat) (start : α) (count : Nat) :
    ActsAs
      (stepsRetrying fuel (stepper.traced _) control.traced (observer.traced _) start count live)
      (stepsRetrying fuel stepper control observer start count live) :=
  actsAs_of_behind
    (stepsRetrying_tandem (traced_stepper stepper) (traced_policy control)
      (traced_observer observer) notes_behind fuel start count live live)

theorem toTimeRetrying_traced (fuel : Nat) (start final : α) :
    ActsAs
      (toTimeRetrying fuel (stepper.traced _) control.traced (observer.traced _) start final live)
      (toTimeRetrying fuel stepper control observer start final live) :=
  actsAs_of_behind
    (toTimeRetrying_tandem (traced_stepper stepper) (traced_policy control)
      (traced_observer observer) notes_behind fuel start final live live)

end Run

end TimeStepping
