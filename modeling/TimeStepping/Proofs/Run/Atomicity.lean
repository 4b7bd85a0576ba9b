import TimeStepping.Explicit
import TimeStepping.Proofs.Implicit.Transaction
import TimeStepping.Proofs.Run.Sequence

/-!
# Failed runs

A run that fails leaves everything as it was when it last accepted a step.  For
this a stepper has to undo what it does not complete, which implicit and explicit
steppers do: `Chain.steppable_transactional`,
`ExplicitStepper.steppable_transactional`.  The rest follows from the course of a
run, in which nothing but an attempt touches the live state or the stepper.
-/

namespace TimeStepping

variable {σ τ α β γ η : Type}

/-! ## Steppers that undo what they do not complete -/

/-- A step that is not completed leaves the live state, and of the environment
what `history` sees of it. -/
structure Steppable.Transactional (history : σ → η) (stepper : Steppable σ α) : Prop where
  undone (live : Vec α) (time dt : α) (step : Nat) (env : σ)
    (h : (stepper.step live time dt step env).1.ending ≠ .done) :
    (stepper.step live time dt step env).1.value = live ∧
      history (stepper.step live time dt step env).2 = history env

theorem Chain.steppable_transactional [Scalar α] [Journal α σ] (equation : StepEquation σ α)
    (solver : Solver σ α) (order : Nat) :
    (Chain.steppable equation solver order).Transactional fun env => env.1.stencils :=
  ⟨fun _ _ _ _ _ h => attempt_restores equation solver h⟩

namespace ExplicitStepper

variable [Scalar α] [Journal α σ] (system : ContinuousSystem σ α)

theorem attempt_restores (stepper : ExplicitStepper α) (live : Vec α) (time dt : α) (step : Nat) :
    Ensures (fun _ => True) (attempt system stepper live time dt step)
      fun outcome _ => outcome.ending ≠ .done → outcome.value.2 = live := by
  refine (Ensures.note (Q := fun _ _ => True) fun _ _ => trivial).bind fun _ => ?_
  refine Ensures.bind (Q := fun _ _ => True) ⟨fun _ _ => trivial⟩ fun stages => ?_
  dsimp only
  cases stages.ending with
  | failed cause => exact .pure fun _ _ _ => rfl
  | fault cause => exact .pure fun _ _ _ => rfl
  | done =>
      cases finalState stepper.scheme live dt stages.value with
      | error cause => exact .pure fun _ _ _ => rfl
      | ok next => exact .pure fun _ _ h => absurd rfl h

theorem steppable_transactional (scheme : ExplicitScheme) :
    (steppable system scheme).Transactional fun _ => () :=
  ⟨fun live time dt step env h =>
    ⟨(attempt_restores system env.1 live time dt step).holds env.2 trivial h, rfl⟩⟩

end ExplicitStepper

namespace Run

/-! ## What the course of a run keeps -/

/-- A plan in which only completed steps change what `history` sees. -/
structure Plan.Keeps [Journal α σ] (history : σ → η) (plan : Plan σ α β γ) : Prop where
  stepper : plan.stepper.Transactional history
  policy (step : Nat) (time : α) (env : σ) : history (plan.policy step time env).2 = history env
  observer (step : Nat) (time : α) (live : Vec α) (env : σ) :
    history (plan.observer step time live env).2 = history env
  note (event : Event α) (env : σ) : history (Journal.record event env) = history env

end Run

/-- The environment right after the last completed attempt. -/
def Trace.lastAccepted (env₀ : σ) (trace : Trace σ α β) : σ :=
  (trace.acceptances.getLast?.map (·.after)).getD env₀

/-- The deed is about the given step, and does not complete it. -/
def Deed.WorksOn (step : Nat) : Deed σ α β → Prop
  | .asked number _ _ => number = step
  | .attempted trial => trial.step = step ∧ trial.outcome.ending ≠ .done
  | .observed .. => False

namespace Run

open Trace

section Courses

variable [Journal α σ] {plan : Plan σ α β γ} {history : σ → η} {start : α} {initial : Vec α}
  {env₀ : σ} {trace : Trace σ α β} {here : Position σ α} {turn : Turn α β}

theorem noteAll_keeps (hkeeps : plan.Keeps history) (events : List (Event α)) (env : σ) :
    history (noteAll events env).2 = history env := by
  induction events generalizing env with
  | nil => rfl
  | cons event events ih => exact (ih _).trans (hkeeps.note event env)

/-- Between an accepted step and the next, the live state is the one shown last. -/
theorem Course.live_shown (hkeeps : plan.Keeps history)
    (h : Course plan start initial env₀ trace here turn)
    (hturn : ∀ answer dt, turn ≠ .observe answer dt) :
    trace.shown.getLast? = some (here.step, here.time, here.live) := by
  induction h with
  | opened => rfl
  | unasked before hahead h ih => exact ih (by simp)
  | asked before hahead h hcheck ih => simpa using ih (by simp)
  | @retried trace here answer dt dt' cause before hfailed hagain ih =>
      have hundone : (plan.trial here dt).outcome.ending ≠ .done := by simp [hfailed]
      have hlive := (hkeeps.stepper.undone _ _ _ _ _ hundone).1
      rw [shown_attempted, ih (by simp)]
      exact congrArg (fun live => some (here.step, here.time, live)) hlive.symm
  | accepted before hdone => exact absurd rfl (hturn _ _)
  | observed before => simp [Plan.shown]

theorem Course.history_kept (hkeeps : plan.Keeps history)
    (h : Course plan start initial env₀ trace here turn) :
    history here.env = history (trace.lastAccepted env₀) := by
  induction h with
  | opened => exact hkeeps.observer _ _ _ _
  | unasked before hahead h ih => exact ih
  | asked before hahead h hcheck ih =>
      rw [lastAccepted, acceptances_asked]
      exact (hkeeps.policy _ _ _).trans ih
  | @retried trace here answer dt dt' cause before hfailed hagain ih =>
      have hundone : (plan.trial here dt).outcome.ending ≠ .done := by simp [hfailed]
      rw [lastAccepted, acceptances_of_undone _ hundone]
      exact (noteAll_keeps hkeeps _ _).trans ((hkeeps.stepper.undone _ _ _ _ _ hundone).2.trans ih)
  | accepted before hdone ih =>
      rw [lastAccepted, acceptances_of_done _ hdone, List.getLast?_concat]
      rfl
  | observed before ih =>
      rw [lastAccepted, acceptances_observed]
      exact (hkeeps.observer _ _ _ _).trans ih

end Courses

/-! ## Where failed runs end -/

/-- How a run that failed after `step` accepted steps leaves things: it was at
the next step, it has shown the steps up to `step`, the live state is the one shown
last, and what `history` sees is as it was when that step was accepted. -/
structure FailedAfter (history : σ → η) (env₀ : σ) (trace : Trace σ α β) (live : Vec α) (env : σ)
    (step : Nat) : Prop where
  working : ∃ deed ∈ trace.getLast?, deed.WorksOn (step + 1)
  shown : trace.shown.map (·.1) = List.range (step + 1)
  live : ∃ time, trace.shown.getLast? = some (step, time, live)
  accepted : trace.acceptances.map (·.step) = List.range' 1 step
  history : history env = history (trace.lastAccepted env₀)

theorem Ended.failedAfter [Journal α σ] {plan : Plan σ α β γ} {history : σ → η} {start : α}
    {initial : Vec α} {env₀ : σ} {trace : Trace σ α β} {live : Vec α} {env : σ}
    {cause : Failure α} (hkeeps : plan.Keeps history)
    (h : Ended plan start initial env₀ trace live env (.failed cause)) :
    ∃ step, FailedAfter history env₀ trace live env step := by
  cases h with
  | @refused trace here cause before hahead hcheck =>
      refine ⟨here.step, ?_, ?_, ⟨here.time, ?_⟩, ?_, ?_⟩
      · exact ⟨_, List.getLast?_concat, rfl⟩
      · rw [shown_asked, before.shown_steps]
      · rw [shown_asked, before.live_shown hkeeps (by simp)]
      · rw [acceptances_asked]
        exact before.accepted_steps
      · rw [lastAccepted, acceptances_asked]
        exact (hkeeps.policy _ _ _).trans (before.history_kept hkeeps)
  | @failed trace here answer dt raised surfaced before hfailed hagain =>
      have hundone : (plan.trial here dt).outcome.ending ≠ .done := by simp [hfailed]
      obtain ⟨hlive, hhistory⟩ := hkeeps.stepper.undone _ _ _ _ _ hundone
      refine ⟨here.step, ?_, ?_, ⟨here.time, ?_⟩, ?_, ?_⟩
      · exact ⟨_, List.getLast?_concat, rfl, hundone⟩
      · rw [shown_attempted, before.shown_steps]
      · rw [shown_attempted, before.live_shown hkeeps (by simp)]
        exact congrArg (fun live => some (here.step, here.time, live)) hlive.symm
      · rw [acceptances_of_undone _ hundone]
        exact before.accepted_steps
      · rw [lastAccepted, acceptances_of_undone _ hundone]
        exact (noteAll_keeps hkeeps _ _).trans (hhistory.trans (before.history_kept hkeeps))

/-- A run that is refused for its arguments, as `check` says, does nothing at all,
and one that fails at a step leaves things as they were when the step before it
was accepted. -/
structure FailsCleanly (history : σ → η) (check : Except (Misconfiguration α) Unit)
    (live : Vec α) (env : σ) (traced : StateM (Trace σ α β × σ) (Run α γ))
    (plain : StateM σ (Run α γ)) : Prop where
  mirrors : ((traced ([], env)).1, (traced ([], env)).2.2) = plain env
  refused (cause : Misconfiguration α) (h : check = .error cause) :
    traced ([], env) = (refused live cause, [], env)
  failed (cause : Failure α) (h : check = .ok ())
    (hfailed : (traced ([], env)).1.ending = .failed cause) :
    ∃ step, FailedAfter history env (traced ([], env)).2.1 (traced ([], env)).1.live
      (traced ([], env)).2.2 step

theorem keeps_of_beside [Journal α σ] {history : τ → η} {stepper : Steppable (τ × σ) α}
    (hstepper : stepper.Transactional fun env => history env.1)
    {plan : Plan (τ × σ) α β γ} (hplan : plan.stepper = stepper) (policy : Policy σ α β)
    (hpolicy : plan.policy = policy.beside τ) (observer : Observer σ α)
    (hobserver : plan.observer = observer.beside τ) :
    plan.Keeps fun env => history env.1 where
  stepper := by rwa [hplan]
  policy step time env := by rw [hpolicy]; rfl
  observer step time live env := by rw [hobserver]; rfl
  note _ _ := rfl

variable [Scalar α] [Journal α σ]

/-- Whatever the callbacks are that stand beside the stepper, each of the four
runs fails cleanly. -/
structure Atomic (history : τ → η) (stepper : Steppable (τ × σ) α) : Prop where
  steps (observer : Observer σ α) (start dt : α) (count : Nat) (live : Vec α) (env : τ × σ) :
    let observer := observer.beside τ
    FailsCleanly (fun env => history env.1) (TimeGrid.checkDt dt 1) live env
      (steps (stepper.traced Unit) (observer.traced Unit) start dt count live)
      (steps stepper observer start dt count live)
  toTime (policy : Policy σ α α) (observer : Observer σ α) (fuel : Nat) (start final : α)
    (live : Vec α) (env : τ × σ) :
    let policy := policy.beside τ
    let observer := observer.beside τ
    FailsCleanly (fun env => history env.1) (TimeGrid.checkInterval start final) live env
      (toTime fuel (stepper.traced α) policy.traced (observer.traced α) start final live)
      (toTime fuel stepper policy observer start final live)
  stepsRetrying (control : Policy σ α (StepControl α)) (observer : Observer σ α) (fuel : Nat)
    (start : α) (count : Nat) (live : Vec α) (env : τ × σ) :
    let control := control.beside τ
    let observer := observer.beside τ
    FailsCleanly (fun env => history env.1) (.ok ()) live env
      (stepsRetrying fuel (stepper.traced _) control.traced (observer.traced _) start count live)
      (stepsRetrying fuel stepper control observer start count live)
  toTimeRetrying (control : Policy σ α (StepControl α)) (observer : Observer σ α) (fuel : Nat)
    (start final : α) (live : Vec α) (env : τ × σ) :
    let control := control.beside τ
    let observer := observer.beside τ
    FailsCleanly (fun env => history env.1) (TimeGrid.checkInterval start final) live env
      (toTimeRetrying fuel (stepper.traced _) control.traced (observer.traced _) start final live)
      (toTimeRetrying fuel stepper control observer start final live)

theorem atomic_of_transactional {history : τ → η} {stepper : Steppable (τ × σ) α}
    (hstepper : stepper.Transactional fun env => history env.1) :
    Atomic history stepper where
  steps observer start dt count live env := by
    refine ⟨(steps_traced ..).eq _, fun cause hdt => ?_, fun cause hdt hfailed => ?_⟩
    · simp only [Run.steps, hdt]
      rfl
    · have hended := (steps_ended start live env stepper (observer.beside τ) hdt count).holds _ rfl
      rw [EndedAs, hfailed] at hended
      exact hended.failedAfter (keeps_of_beside hstepper rfl (fun _ _ => pure ()) rfl observer rfl)
  toTime policy observer fuel start final live env := by
    refine ⟨(toTime_traced ..).eq _, fun cause hinterval => ?_, fun cause hinterval hfailed => ?_⟩
    · simp only [Run.toTime, hinterval]
      rfl
    · have hended := (toTime_ended start live env stepper (observer.beside τ) (policy.beside τ)
        hinterval fuel).holds _ rfl
      rw [EndedAs, hfailed] at hended
      exact hended.failedAfter (keeps_of_beside hstepper rfl policy rfl observer rfl)
  stepsRetrying control observer fuel start count live env := by
    refine ⟨(stepsRetrying_traced ..).eq _, nofun, fun cause _ hfailed => ?_⟩
    have hended := (stepsRetrying_ended start live env stepper (observer.beside τ)
      (control.beside τ) fuel count).holds _ rfl
    rw [EndedAs, hfailed] at hended
    exact hended.failedAfter (keeps_of_beside hstepper rfl control rfl observer rfl)
  toTimeRetrying control observer fuel start final live env := by
    refine ⟨(toTimeRetrying_traced ..).eq _, fun cause hinterval => ?_,
      fun cause hinterval hfailed => ?_⟩
    · simp only [Run.toTimeRetrying, hinterval]
      rfl
    · have hended := (toTimeRetrying_ended start live env stepper (observer.beside τ)
        (control.beside τ) hinterval fuel).holds _ rfl
      rw [EndedAs, hfailed] at hended
      exact hended.failedAfter (keeps_of_beside hstepper rfl control rfl observer rfl)

/-- A run that fails at some step, after any retries and whatever failed, leaves
the live state last shown to the observer and, of an implicit stepper, the stencils
of the whole chain as they were when that state was accepted. -/
theorem failed_runs_end_at_last_accepted :
    (∀ (equation : StepEquation σ α) (solver : Solver σ α) (order : Nat),
      Atomic Chain.stencils (Chain.steppable equation solver order)) ∧
    ∀ (system : ContinuousSystem σ α) (scheme : ExplicitScheme),
      Atomic (fun _ => ()) (ExplicitStepper.steppable system scheme) :=
  ⟨fun equation solver order =>
      atomic_of_transactional (Chain.steppable_transactional equation solver order),
    fun system scheme =>
      atomic_of_transactional (ExplicitStepper.steppable_transactional system scheme)⟩

end Run

end TimeStepping
