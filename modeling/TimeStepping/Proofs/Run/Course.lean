import TimeStepping.Proofs.Run.Trace

/-!
# The course of a run

All runs take their steps in the same way and differ in a few rules: how far they go,
whether they ask for a time step and which answers they take, what they attempt first,
what they do after a failed attempt, and which time they arrive at.  `Plan` holds these
rules, `Course` builds up the trace of a run by them one deed at a time, and
`Ended` says where a run may stop.  The traces of the four runs are built that way:
`steps_ended`, `toTime_ended`, `stepsRetrying_ended`, `toTimeRetrying_ended`.
-/

namespace TimeStepping

namespace Run

variable {σ α β γ : Type}

/-- How far a run goes: up to `limit` if there is one, and as long as `goesOn` says after
the step and time shown last; `result` is what it tells of the last ones. -/
structure Extent (α γ : Type) where
  limit : Option α
  goesOn (step : Nat) (time : α) : Bool
  result (step : Nat) (time : α) : γ

namespace Extent

/-- A number of steps; the result is the time they lead to. -/
def steps (count : Nat) : Extent α α where
  limit := none
  goesOn step _ := decide (step < count)
  result _ time := time

/-- All steps up to a final time; the result is their number. -/
def upTo [Scalar α] (final : α) : Extent α Nat where
  limit := some final
  goesOn _ time := TimeGrid.endAhead time final
  result step _ := step

end Extent

/-- Whom a run drives, asks and shows, and the rules it takes its steps by. -/
structure Plan (σ α β γ : Type) where
  stepper : Steppable σ α
  policy : Policy σ α β
  observer : Observer σ α
  extent : Extent α γ
  /-- The answer for every step, if none is asked for. -/
  standing : Option β
  check (step : Nat) (answer : β) : Except (Misconfiguration α) Unit
  first (time : α) (answer : β) : α
  /-- After a failed attempt with `dt`, the time step of the next one or what the
  run fails with. -/
  again (step : Nat) (answer : β) (dt : α) (cause : Failure α) : Except (Failure α) α
  notes (step : Nat) (answer : β) (dt : α) (cause : Failure α) : List (Event α)
  arrival (step : Nat) (time : α) (answer : β) (dt : α) : α

/-! ## The plans of the four runs -/

namespace Plan

variable [Scalar α] (stepper : Steppable σ α) (observer : Observer σ α)

def steps (start dt : α) (count : Nat) : Plan σ α Unit α where
  stepper := stepper
  policy _ _ := pure ()
  observer := observer
  extent := .steps count
  standing := some ()
  check _ _ := .ok ()
  first _ _ := dt
  again _ _ _ cause := .error cause
  notes _ _ _ _ := []
  arrival step _ _ _ := start + (step : α) * dt

def toTime (policy : Policy σ α α) (final : α) : Plan σ α α Nat where
  stepper := stepper
  policy := policy
  observer := observer
  extent := .upTo final
  standing := none
  check step dt := TimeGrid.checkDt dt step
  first time dt := TimeGrid.clamp time dt final
  again _ _ _ cause := .error cause
  notes _ _ _ _ := []
  arrival _ time dt _ := if TimeGrid.reachesEnd time dt final then final else time + dt

/-- A time-step failure is answered by a smaller time step, unless that falls
below the minimum; any other failure ends the run. -/
def reduce (step : Nat) (control : StepControl α) (dt : α) (cause : Failure α) :
    Except (Failure α) α :=
  if cause.isTimeStepFailure then
    if dt / control.reduction < control.minimum then
      .error (.timeStepTooSmall step (dt / control.reduction) control.minimum)
    else .ok (dt / control.reduction)
  else .error cause

def reductionNotes (step : Nat) (control : StepControl α) (dt : α) (cause : Failure α) :
    List (Event α) :=
  if cause.isTimeStepFailure then
    if dt / control.reduction < control.minimum then [.gaveUp step cause]
    else [.retrying step dt (dt / control.reduction)]
  else []

section Reducing

variable (step : Nat) {control : StepControl α} {dt : α} {cause : Failure α}

theorem reduce_of_other (control : StepControl α) (dt : α) (h : cause.isTimeStepFailure = false) :
    reduce step control dt cause = .error cause ∧ reductionNotes step control dt cause = [] := by
  simp [reduce, reductionNotes, h]

theorem reduce_of_too_small (h : cause.isTimeStepFailure)
    (hsmall : dt / control.reduction < control.minimum) :
    reduce step control dt cause =
        .error (.timeStepTooSmall step (dt / control.reduction) control.minimum) ∧
      reductionNotes step control dt cause = [.gaveUp step cause] := by
  simp [reduce, reductionNotes, h, hsmall]

theorem reduce_of_retry (h : cause.isTimeStepFailure)
    (hlarge : ¬dt / control.reduction < control.minimum) :
    reduce step control dt cause = .ok (dt / control.reduction) ∧
      reductionNotes step control dt cause = [.retrying step dt (dt / control.reduction)] := by
  simp [reduce, reductionNotes, h, hlarge]

/-- A time step that is tried next is the reduced one. -/
theorem of_reduce {next : α} (h : reduce step control dt cause = .ok next) :
    next = dt / control.reduction := by
  unfold reduce at h
  split at h
  · split at h
    · cases h
    · exact (Except.ok.inj h).symm
  · cases h

end Reducing

variable (control : Policy σ α (StepControl α))

/-- The rules of a run with retries. -/
def retrying (extent : Extent α γ) : Plan σ α (StepControl α) γ where
  stepper := stepper
  policy := control
  observer := observer
  extent := extent
  standing := none
  check _ control := control.validate
  first time control :=
    match extent.limit with
    | some final => TimeGrid.clamp time control.dt final
    | none => control.dt
  again := reduce
  notes := reductionNotes
  arrival _ time _ dt :=
    match extent.limit with
    | some final => Run.arrival time dt final
    | none => time + dt

end Plan

/-! ## Building a trace -/

/-- Where a run stands: the step and time shown last, and the live state and the
environment as they are now. -/
structure Position (σ α : Type) where
  step : Nat
  time : α
  live : Vec α
  env : σ

/-- What a run does next: begin a step, attempt it, or show it. -/
inductive Turn (α β : Type) where
  | begin
  | attempt (answer : β) (dt : α)
  | observe (answer : β) (dt : α)

namespace Plan

variable (plan : Plan σ α β γ) (here : Position σ α)

/-- The answer about the next step, and the environment it leaves. -/
def ask : β × σ :=
  plan.policy (here.step + 1) here.time here.env

/-- The attempt at the next step. -/
def trial (dt : α) : Trial σ α :=
  plan.stepper.trial here.live here.time dt (here.step + 1) here.env

/-- Where a completed attempt leads, once it is shown. -/
def shown (answer : β) (dt : α) : Position σ α :=
  let time := plan.arrival (here.step + 1) here.time answer dt
  ⟨here.step + 1, time, here.live, (plan.observer (here.step + 1) time here.live here.env).2⟩

end Plan

/-- What an attempt makes of the live state and the environment. -/
def Position.tried (here : Position σ α) (trial : Trial σ α) : Position σ α :=
  ⟨here.step, here.time, trial.outcome.value, trial.after⟩

variable [Journal α σ]

def Position.noted (here : Position σ α) (events : List (Event α)) : Position σ α :=
  { here with env := (noteAll events here.env).2 }

variable (plan : Plan σ α β γ) (start : α) (initial : Vec α) (env₀ : σ)

/-- The traces of runs under way, with their positions and what comes next. -/
inductive Course : Trace σ α β → Position σ α → Turn α β → Prop
  | opened : Course [.observed 0 start initial]
      ⟨0, start, initial, (plan.observer 0 start initial env₀).2⟩ .begin
  | unasked {trace : Trace σ α β} {here : Position σ α} {answer : β}
      (before : Course trace here .begin) (hahead : plan.extent.goesOn here.step here.time)
      (h : plan.standing = some answer) :
      Course trace here (.attempt answer (plan.first here.time answer))
  | asked {trace : Trace σ α β} {here : Position σ α} (before : Course trace here .begin)
      (hahead : plan.extent.goesOn here.step here.time) (h : plan.standing = none)
      (hcheck : plan.check (here.step + 1) (plan.ask here).1 = .ok ()) :
      Course (trace ++ [.asked (here.step + 1) here.time (plan.ask here).1])
        { here with env := (plan.ask here).2 }
        (.attempt (plan.ask here).1 (plan.first here.time (plan.ask here).1))
  | retried {trace : Trace σ α β} {here : Position σ α} {answer : β} {dt dt' : α}
      {cause : Failure α} (before : Course trace here (.attempt answer dt))
      (hfailed : (plan.trial here dt).outcome.ending = .failed cause)
      (hagain : plan.again (here.step + 1) answer dt cause = .ok dt') :
      Course (trace ++ [.attempted (plan.trial here dt)])
        ((here.tried (plan.trial here dt)).noted (plan.notes (here.step + 1) answer dt cause))
        (.attempt answer dt')
  | accepted {trace : Trace σ α β} {here : Position σ α} {answer : β} {dt : α}
      (before : Course trace here (.attempt answer dt))
      (hdone : (plan.trial here dt).outcome.ending = .done) :
      Course (trace ++ [.attempted (plan.trial here dt)]) (here.tried (plan.trial here dt))
        (.observe answer dt)
  | observed {trace : Trace σ α β} {here : Position σ α} {answer : β} {dt : α}
      (before : Course trace here (.observe answer dt)) :
      Course
        (trace ++ [.observed (plan.shown here answer dt).step (plan.shown here answer dt).time
          here.live])
        (plan.shown here answer dt) .begin

/-- The traces of runs that ended, with the live state and the environment they left. -/
inductive Ended : Trace σ α β → Vec α → σ → RunEnding α γ → Prop
  | finished {trace : Trace σ α β} {here : Position σ α}
      (before : Course plan start initial env₀ trace here .begin)
      (hlast : ¬plan.extent.goesOn here.step here.time) :
      Ended trace here.live here.env (.finished (plan.extent.result here.step here.time))
  | refused {trace : Trace σ α β} {here : Position σ α} {cause : Misconfiguration α}
      (before : Course plan start initial env₀ trace here .begin)
      (hahead : plan.extent.goesOn here.step here.time)
      (hcheck : plan.check (here.step + 1) (plan.ask here).1 = .error cause) :
      Ended (trace ++ [.asked (here.step + 1) here.time (plan.ask here).1]) here.live
        (plan.ask here).2 (.failed (.configuration cause))
  | failed {trace : Trace σ α β} {here : Position σ α} {answer : β} {dt : α}
      {cause surfaced : Failure α}
      (before : Course plan start initial env₀ trace here (.attempt answer dt))
      (hfailed : (plan.trial here dt).outcome.ending = .failed cause)
      (hagain : plan.again (here.step + 1) answer dt cause = .error surfaced) :
      Ended (trace ++ [.attempted (plan.trial here dt)]) (plan.trial here dt).outcome.value
        (noteAll (plan.notes (here.step + 1) answer dt cause) (plan.trial here dt).after).2
        (.failed surfaced)
  | fault {trace : Trace σ α β} {here : Position σ α} {answer : β} {dt : α} {cause : Fault}
      (before : Course plan start initial env₀ trace here (.attempt answer dt))
      (hfault : (plan.trial here dt).outcome.ending = .fault cause) :
      Ended (trace ++ [.attempted (plan.trial here dt)]) (plan.trial here dt).outcome.value
        (plan.trial here dt).after (.fault cause)
  | unfinished {trace : Trace σ α β} {here : Position σ α} {turn : Turn α β}
      (before : Course plan start initial env₀ trace here turn)
      (hturn : ∀ answer dt, turn ≠ .observe answer dt) :
      Ended trace here.live here.env .unfinished

/-- The trace of a run that ended is that of a run under way with nothing left to show,
and one more deed at most: a question, or an attempt that was not completed. -/
theorem Ended.last_deed {trace : Trace σ α β} {live : Vec α} {env : σ} {ending : RunEnding α γ}
    (h : Ended plan start initial env₀ trace live env ending) :
    ∃ before here turn, Course plan start initial env₀ before here turn ∧
      (∀ answer dt, turn ≠ .observe answer dt) ∧
      (trace = before ∨
        (turn = .begin ∧
          trace = before ++ [.asked (here.step + 1) here.time (plan.ask here).1]) ∨
        ∃ answer dt, turn = .attempt answer dt ∧ (plan.trial here dt).outcome.ending ≠ .done ∧
          trace = before ++ [.attempted (plan.trial here dt)]) := by
  cases h with
  | finished before hlast => exact ⟨_, _, _, before, by simp, .inl rfl⟩
  | refused before hahead hcheck => exact ⟨_, _, _, before, by simp, .inr (.inl ⟨rfl, rfl⟩)⟩
  | failed before hfailed hagain =>
      exact ⟨_, _, _, before, by simp, .inr (.inr ⟨_, _, rfl, by simp [hfailed], rfl⟩)⟩
  | fault before hfault =>
      exact ⟨_, _, _, before, by simp, .inr (.inr ⟨_, _, rfl, by simp [hfault], rfl⟩)⟩
  | unfinished before hturn => exact ⟨_, _, _, before, hturn, .inl rfl⟩

/-! ## One deed at a time -/

section Deeds

variable {step : Nat} {time : α} {live : Vec α} {answer : β} {dt : α}

/-- The traces and environments of runs at the given step, time and live state. -/
def Under (step : Nat) (time : α) (live : Vec α) (turn : Turn α β) (env : Trace σ α β × σ) : Prop :=
  Course plan start initial env₀ env.1 ⟨step, time, live, env.2⟩ turn

/-- The traces and environments of runs that have just had an answer. -/
def Answered (step : Nat) (time : α) (live : Vec α) (answer : β) (env : Trace σ α β × σ) : Prop :=
  ∃ trace here, Course plan start initial env₀ trace here .begin ∧
    plan.extent.goesOn here.step here.time ∧ here.step = step ∧ here.time = time ∧
    here.live = live ∧ (plan.ask here).1 = answer ∧
    env = (trace ++ [.asked (here.step + 1) here.time (plan.ask here).1], (plan.ask here).2)

/-- The traces and environments of runs that have just made an attempt. -/
def Tried (step : Nat) (time : α) (answer : β) (dt : α) (outcome : Outcome α (Vec α))
    (env : Trace σ α β × σ) : Prop :=
  ∃ trace here, Course plan start initial env₀ trace here (.attempt answer dt) ∧
    here.step = step ∧ here.time = time ∧ (plan.trial here dt).outcome = outcome ∧
    env = (trace ++ [.attempted (plan.trial here dt)], (plan.trial here dt).after)

/-- The traces and environments of runs that ended as `run` says. -/
def EndedAs (run : Run α γ) (env : Trace σ α β × σ) : Prop :=
  Ended plan start initial env₀ env.1 run.live env.2 run.ending

theorem open_ensures :
    Ensures (fun env => env = ([], env₀)) (plan.observer.traced β 0 start initial)
      fun _ => Under plan start initial env₀ 0 start initial .begin := by
  constructor
  rintro _ rfl
  exact .opened

theorem ask_ensures (hahead : plan.extent.goesOn step time) :
    Ensures (Under plan start initial env₀ step time live .begin)
      (plan.policy.traced (step + 1) time) (Answered plan start initial env₀ step time live) := by
  constructor
  rintro ⟨trace, env⟩ h
  exact ⟨trace, _, h, hahead, rfl, rfl, rfl, rfl, rfl⟩

theorem attempt_ensures :
    Ensures (Under plan start initial env₀ step time live (.attempt answer dt))
      ((plan.stepper.traced β).step live time dt (step + 1))
      (Tried plan start initial env₀ step time answer dt) := by
  constructor
  rintro ⟨trace, env⟩ h
  exact ⟨trace, _, h, rfl, rfl, rfl, rfl⟩

theorem observe_ensures :
    Ensures (Under plan start initial env₀ step time live (.observe answer dt))
      (plan.observer.traced β (step + 1) (plan.arrival (step + 1) time answer dt) live)
      fun _ => Under plan start initial env₀ (step + 1)
        (plan.arrival (step + 1) time answer dt) live .begin :=
  ⟨fun _ h => h.observed⟩

variable {plan start initial env₀} {value : Vec α} {env : Trace σ α β × σ}

theorem Answered.accepted (h : Answered plan start initial env₀ step time live answer env)
    (hasks : plan.standing = none) (hcheck : plan.check (step + 1) answer = .ok ()) :
    Under plan start initial env₀ step time live (.attempt answer (plan.first time answer))
      env := by
  obtain ⟨trace, here, before, hahead, rfl, rfl, rfl, rfl, rfl⟩ := h
  exact before.asked hahead hasks hcheck

theorem Answered.refused {cause : Misconfiguration α}
    (h : Answered plan start initial env₀ step time live answer env)
    (hcheck : plan.check (step + 1) answer = .error cause) :
    EndedAs plan start initial env₀ ⟨live, .failed (.configuration cause)⟩ env := by
  obtain ⟨trace, here, before, hahead, rfl, rfl, rfl, rfl, rfl⟩ := h
  exact .refused before hahead hcheck

theorem Tried.accepted
    (h : Tried plan start initial env₀ step time answer dt ⟨value, .done⟩ env) :
    Under plan start initial env₀ step time value (.observe answer dt) env := by
  obtain ⟨trace, here, before, rfl, rfl, houtcome, rfl⟩ := h
  have hafter := before.accepted (congrArg Outcome.ending houtcome)
  rwa [Position.tried, houtcome] at hafter

theorem Tried.retried {cause : Failure α} {dt' : α} {events : List (Event α)}
    (h : Tried plan start initial env₀ step time answer dt ⟨value, .failed cause⟩ env)
    (hagain : plan.again (step + 1) answer dt cause = .ok dt')
    (hnotes : plan.notes (step + 1) answer dt cause = events) :
    Under plan start initial env₀ step time value (.attempt answer dt')
      (env.1, (noteAll events env.2).2) := by
  obtain ⟨trace, here, before, rfl, rfl, houtcome, rfl⟩ := h
  have hafter := before.retried (congrArg Outcome.ending houtcome) hagain
  rwa [Position.tried, Position.noted, houtcome, hnotes] at hafter

theorem Tried.failed {cause surfaced : Failure α} {events : List (Event α)}
    (h : Tried plan start initial env₀ step time answer dt ⟨value, .failed cause⟩ env)
    (hagain : plan.again (step + 1) answer dt cause = .error surfaced)
    (hnotes : plan.notes (step + 1) answer dt cause = events) :
    EndedAs plan start initial env₀ ⟨value, .failed surfaced⟩
      (env.1, (noteAll events env.2).2) := by
  obtain ⟨trace, here, before, rfl, rfl, houtcome, rfl⟩ := h
  have hafter := Ended.failed before (congrArg Outcome.ending houtcome) hagain
  rwa [houtcome, hnotes] at hafter

theorem Tried.fault {cause : Fault}
    (h : Tried plan start initial env₀ step time answer dt ⟨value, .fault cause⟩ env) :
    EndedAs plan start initial env₀ ⟨value, .fault cause⟩ env := by
  obtain ⟨trace, here, before, rfl, rfl, houtcome, rfl⟩ := h
  have hafter := Ended.fault before (congrArg Outcome.ending houtcome)
  rwa [houtcome] at hafter

end Deeds

/-! ## Prescribed time steps -/

variable [Scalar α] (stepper : Steppable σ α) (observer : Observer σ α)

section Prescribed

theorem stepsFrom_ended (dt : α) {count remaining step : Nat} (h : step + remaining = count)
    (time : α) (live : Vec α) :
    let plan := Plan.steps stepper observer start dt count
    Ensures (Under plan start initial env₀ step time live .begin)
      (stepsFrom (stepper.traced Unit) (observer.traced Unit) start dt remaining step time live)
      (EndedAs plan start initial env₀) := by
  intro plan
  induction remaining generalizing step time live with
  | zero =>
      have hlast : ¬plan.extent.goesOn step time := by simp [plan, Plan.steps, Extent.steps, ← h]
      exact .pure fun env henv => .finished henv hlast
  | succ remaining ih =>
      have hahead : plan.extent.goesOn step time := by simp [plan, Plan.steps, Extent.steps, ← h]
      have hattempt : Ensures (Under plan start initial env₀ step time live .begin)
          ((stepper.traced Unit).step live time dt (step + 1))
          (Tried plan start initial env₀ step time () dt) :=
        (attempt_ensures plan start initial env₀).weaken fun env h => Course.unasked h hahead rfl
      refine hattempt.bind ?_
      rintro ⟨value, ending⟩
      cases ending with
      | done =>
          exact ((observe_ensures plan start initial env₀).weaken fun env h => h.accepted).bind
            fun _ => ih (by omega) ..
      | failed cause => exact .pure fun env h => h.failed rfl rfl
      | fault cause => exact .pure fun env h => h.fault

theorem steps_ended {dt : α} (hdt : TimeGrid.checkDt dt 1 = .ok ()) (count : Nat) :
    let plan := Plan.steps stepper observer start dt count
    Ensures (fun env => env = ([], env₀))
      (steps (stepper.traced Unit) (observer.traced Unit) start dt count initial)
      (EndedAs plan start initial env₀) := by
  intro plan
  unfold steps
  rw [hdt]
  exact (open_ensures plan start initial env₀).bind fun _ =>
    stepsFrom_ended start initial env₀ stepper observer dt (Nat.zero_add count) ..

theorem toTimeFrom_ended (policy : Policy σ α α) (final : α) (fuel step : Nat) (time : α)
    (live : Vec α) :
    let plan := Plan.toTime stepper observer policy final
    Ensures (Under plan start initial env₀ step time live .begin)
      (toTimeFrom (stepper.traced α) policy.traced (observer.traced α) final fuel step time live)
      (EndedAs plan start initial env₀) := by
  intro plan
  induction fuel generalizing step time live with
  | zero => exact .pure fun env h => .unfinished h (by simp)
  | succ fuel ih =>
      unfold toTimeFrom
      split
      · rename_i hahead
        refine (ask_ensures plan start initial env₀ hahead).bind fun dt => ?_
        cases hdt : TimeGrid.checkDt dt (step + 1) with
        | error cause => exact .pure fun env h => h.refused hdt
        | ok _ =>
            have hattempt : Ensures (Answered plan start initial env₀ step time live dt)
                ((stepper.traced α).step live time (TimeGrid.clamp time dt final) (step + 1))
                (Tried plan start initial env₀ step time dt (TimeGrid.clamp time dt final)) :=
              (attempt_ensures plan start initial env₀).weaken fun env h => h.accepted rfl hdt
            refine hattempt.bind ?_
            rintro ⟨value, ending⟩
            cases ending with
            | done =>
                exact ((observe_ensures plan start initial env₀).weaken fun env h =>
                  h.accepted).bind fun _ => ih ..
            | failed cause => exact .pure fun env h => h.failed rfl rfl
            | fault cause => exact .pure fun env h => h.fault
      · rename_i hlast
        exact .pure fun env h => .finished h hlast

theorem toTime_ended (policy : Policy σ α α) {final : α}
    (h : TimeGrid.checkInterval start final = .ok ()) (fuel : Nat) :
    let plan := Plan.toTime stepper observer policy final
    Ensures (fun env => env = ([], env₀))
      (toTime fuel (stepper.traced α) policy.traced (observer.traced α) start final initial)
      (EndedAs plan start initial env₀) := by
  intro plan
  unfold toTime
  rw [h]
  exact (open_ensures plan start initial env₀).bind fun _ => toTimeFrom_ended ..

end Prescribed

/-! ## Retries -/

section Retrying

variable (policy : Policy σ α (StepControl α))

/-- Where the attempts at one step leave a run: about to show it, or at its end. -/
def Settled (plan : Plan σ α β γ) (start : α) (initial : Vec α) (env₀ : σ) (step : Nat)
    (time : α) (answer : β) (run : Run α α) (env : Trace σ α β × σ) : Prop :=
  match run.ending with
  | .finished dt => Under plan start initial env₀ step time run.live (.observe answer dt) env
  | .failed cause => EndedAs plan start initial env₀ ⟨run.live, .failed cause⟩ env
  | .fault cause => EndedAs plan start initial env₀ ⟨run.live, .fault cause⟩ env
  | .unfinished => EndedAs plan start initial env₀ ⟨run.live, .unfinished⟩ env

theorem retryFrom_settled (extent : Extent α γ) (control : StepControl α) (step : Nat) (time : α)
    (fuel : Nat) (dt : α) (live : Vec α) :
    let plan := Plan.retrying stepper observer policy extent
    Ensures (Under plan start initial env₀ step time live (.attempt control dt))
      (retryFrom (stepper.traced (StepControl α)) control time (step + 1) fuel dt live)
      (Settled plan start initial env₀ step time control) := by
  intro plan
  induction fuel generalizing dt live with
  | zero => exact .pure fun env h => Ended.unfinished h (by simp)
  | succ fuel ih =>
      refine (attempt_ensures plan start initial env₀).bind ?_
      rintro ⟨value, ending⟩
      cases ending with
      | done => exact .pure fun env h => h.accepted
      | fault cause => exact .pure fun env h => h.fault
      | failed cause =>
          dsimp only
          split
          · rename_i hcause
            split
            · rename_i hsmall
              obtain ⟨hagain, hnotes⟩ := Plan.reduce_of_too_small (step + 1) hcause hsmall
              exact (Ensures.note fun env h => h.failed hagain hnotes).bind fun _ =>
                .pure fun env h => h
            · rename_i hlarge
              obtain ⟨hagain, hnotes⟩ := Plan.reduce_of_retry (step + 1) hcause hlarge
              exact (Ensures.note fun env h => h.retried hagain hnotes).bind fun _ => ih ..
          · rename_i hcause
            obtain ⟨hagain, hnotes⟩ :=
              Plan.reduce_of_other (step + 1) control dt (Bool.eq_false_iff.2 hcause)
            exact .pure fun env h => h.failed hagain hnotes

theorem stepRetrying_settled (extent : Extent α γ) (control : StepControl α) (step : Nat)
    (time : α) (fuel : Nat) (live : Vec α) :
    let plan := Plan.retrying stepper observer policy extent
    Ensures (Answered plan start initial env₀ step time live control)
      (stepRetrying fuel (stepper.traced (StepControl α)) control extent.limit time (step + 1) live)
      (Settled plan start initial env₀ step time control) := by
  intro plan
  unfold stepRetrying
  cases hvalid : control.validate with
  | error cause => exact .pure fun env h => h.refused hvalid
  | ok _ =>
      exact (retryFrom_settled start initial env₀ stepper observer policy extent ..).weaken
        fun env h => h.accepted rfl hvalid

theorem stepsRetryingFrom_ended (fuel : Nat) {count remaining step : Nat}
    (h : step + remaining = count) (time : α) (live : Vec α) :
    let plan := Plan.retrying stepper observer policy (.steps count)
    Ensures (Under plan start initial env₀ step time live .begin)
      (stepsRetryingFrom fuel (stepper.traced _) policy.traced (observer.traced _) remaining step
        time live)
      (EndedAs plan start initial env₀) := by
  intro plan
  induction remaining generalizing step time live with
  | zero =>
      have hlast : ¬plan.extent.goesOn step time := by
        simp [plan, Plan.retrying, Extent.steps, ← h]
      exact .pure fun env henv => .finished henv hlast
  | succ remaining ih =>
      have hahead : plan.extent.goesOn step time := by
        simp [plan, Plan.retrying, Extent.steps, ← h]
      refine (ask_ensures plan start initial env₀ hahead).bind fun control => ?_
      refine (stepRetrying_settled start initial env₀ stepper observer policy (.steps count)
        ..).bind ?_
      rintro ⟨value, ending⟩
      cases ending with
      | finished dt =>
          exact (observe_ensures plan start initial env₀).bind fun _ => ih (by omega) ..
      | failed cause => exact .pure fun env h => h
      | fault cause => exact .pure fun env h => h
      | unfinished => exact .pure fun env h => h

theorem stepsRetrying_ended (fuel count : Nat) :
    let plan := Plan.retrying stepper observer policy (.steps count)
    Ensures (fun env => env = ([], env₀))
      (stepsRetrying fuel (stepper.traced _) policy.traced (observer.traced _) start count initial)
      (EndedAs plan start initial env₀) :=
  (open_ensures _ start initial env₀).bind fun _ =>
    stepsRetryingFrom_ended start initial env₀ stepper observer policy fuel (Nat.zero_add count) ..

theorem toTimeRetryingFrom_ended (final : α) (retries fuel step : Nat) (time : α) (live : Vec α) :
    let plan := Plan.retrying stepper observer policy (.upTo final)
    Ensures (Under plan start initial env₀ step time live .begin)
      (toTimeRetryingFrom retries (stepper.traced _) policy.traced (observer.traced _) final fuel
        step time live)
      (EndedAs plan start initial env₀) := by
  intro plan
  induction fuel generalizing step time live with
  | zero => exact .pure fun env h => .unfinished h (by simp)
  | succ fuel ih =>
      unfold toTimeRetryingFrom
      split
      · rename_i hahead
        refine (ask_ensures plan start initial env₀ hahead).bind fun control => ?_
        refine (stepRetrying_settled start initial env₀ stepper observer policy (.upTo final)
          ..).bind ?_
        rintro ⟨value, ending⟩
        cases ending with
        | finished dt => exact (observe_ensures plan start initial env₀).bind fun _ => ih ..
        | failed cause => exact .pure fun env h => h
        | fault cause => exact .pure fun env h => h
        | unfinished => exact .pure fun env h => h
      · rename_i hlast
        exact .pure fun env h => .finished h hlast

theorem toTimeRetrying_ended {final : α} (h : TimeGrid.checkInterval start final = .ok ())
    (fuel : Nat) :
    let plan := Plan.retrying stepper observer policy (.upTo final)
    Ensures (fun env => env = ([], env₀))
      (toTimeRetrying fuel (stepper.traced _) policy.traced (observer.traced _) start final initial)
      (EndedAs plan start initial env₀) := by
  intro plan
  unfold toTimeRetrying
  rw [h]
  exact (open_ensures plan start initial env₀).bind fun _ => toTimeRetryingFrom_ended ..

end Retrying

end Run

end TimeStepping
