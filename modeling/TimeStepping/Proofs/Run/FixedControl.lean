import TimeStepping.Proofs.Run.Termination
import TimeStepping.Proofs.Run.Atomicity
import TimeStepping.Proofs.Run.Retries

/-!
# Runs under a fixed control

A fixed control has its time step for a minimum and halves, so that a retry is left
only to an attempt with twice that time step or more.  A run makes such an attempt in
one place: at its end, where a step is made longer to take up what the tolerance for
arriving would leave.  Main statement: `Run.fixed_control_repeats_at_end_only`.
-/

namespace TimeStepping

open TimeGrid

variable {σ β γ : Type}

namespace Trace

variable {α : Type} (trace : Trace σ α β) (number step : Nat) (time : α) (live : Vec α)
  (answer : β) (trial : Trial σ α)

@[simp] theorem attemptsAt_asked :
    attemptsAt number (trace ++ [.asked step time answer]) = attemptsAt number trace := by
  simp [attemptsAt]

@[simp] theorem attemptsAt_attempted :
    attemptsAt number (trace ++ [.attempted trial]) =
      attemptsAt number trace + if trial.step = number then 1 else 0 := by
  simp [attemptsAt, List.countP_cons]

@[simp] theorem attemptsAt_observed :
    attemptsAt number (trace ++ [.observed step time live]) = attemptsAt number trace := by
  simp [attemptsAt]

/-- An attempt at the next step, when none was made at it or after it. -/
theorem attempted_next {trace : Trace σ α β} {trial : Trial σ α} {step number : Nat}
    (h : attemptsAt number trace ≤ 1 ∧ (step < number → attemptsAt number trace = 0))
    (hstep : trial.step = step + 1) :
    attemptsAt number (trace ++ [.attempted trial]) ≤ 1 ∧
      (step + 1 < number → attemptsAt number (trace ++ [.attempted trial]) = 0) := by
  rw [attemptsAt_attempted, hstep]
  split <;> omega

end Trace

namespace Run

open Trace

namespace Plan

variable {step : Nat} {dt size next : ℝ} {cause : Failure ℝ}

theorem reduce_fixed_of_lt (hcause : cause.isTimeStepFailure) (hshort : size < 2 * dt) :
    reduce step (.fixed dt) size cause = .error (.timeStepTooSmall step (size / 2) dt) := by
  have hsmall : size / (StepControl.fixed dt).reduction < (StepControl.fixed dt).minimum := by
    simp only [StepControl.fixed, Nat.cast_ofNat]
    linarith
  simpa [StepControl.fixed] using (reduce_of_too_small step hcause hsmall).1

theorem reduce_fixed_of_le (hcause : cause.isTimeStepFailure) (hlong : 2 * dt ≤ size) :
    reduce step (.fixed dt) size cause = .ok (size / 2) := by
  have hlarge : ¬size / (StepControl.fixed dt).reduction < (StepControl.fixed dt).minimum := by
    simp only [StepControl.fixed, Nat.cast_ofNat]
    linarith
  simpa [StepControl.fixed] using (reduce_of_retry step hcause hlarge).1

/-- Under a fixed control, only an attempt that is long enough to be halved is repeated. -/
theorem of_reduce_fixed (h : reduce step (.fixed dt) size cause = .ok next) :
    2 * dt ≤ size ∧ next = size / 2 := by
  by_cases hcause : cause.isTimeStepFailure
  · by_cases hshort : size < 2 * dt
    · rw [reduce_fixed_of_lt hcause hshort] at h
      cases h
    · rw [reduce_fixed_of_le hcause (not_lt.1 hshort)] at h
      exact ⟨not_lt.1 hshort, (Except.ok.inj h).symm⟩
  · rw [(reduce_of_other step _ size (Bool.eq_false_iff.2 hcause)).1] at h
    cases h

end Plan

/-! ## Time steps -/

/-- A time step from `time` on in a run up to `limit`, if `dt` is asked for: no longer
than that, unless what is left up to the limit is longer by no more than the tolerance. -/
def Sized (limit : Option ℝ) (dt time size : ℝ) : Prop :=
  size ≤ dt ∨ ∃ final ∈ limit, size ≤ final - time ∧ final - time ≤ dt + tolerance final

namespace Sized

variable {limit : Option ℝ} {dt time size final : ℝ}

theorem clamp (dt time final : ℝ) : Sized (some final) dt time (clamp time dt final) := by
  by_cases hreaches : reachesEnd time dt final
  · have hleft := reachesEnd_iff.1 hreaches
    rw [TimeGrid.clamp, if_pos hreaches]
    exact .inr ⟨final, rfl, le_refl _, by linarith⟩
  · rw [TimeGrid.clamp, if_neg hreaches]
    exact .inl (le_refl dt)

/-- A step is first attempted with a time step that the one asked for allows. -/
theorem first (stepper : Steppable σ ℝ) (observer : Observer σ ℝ)
    (control : Policy σ ℝ (StepControl ℝ)) (extent : Extent ℝ γ) (time : ℝ)
    (answer : StepControl ℝ) :
    Sized extent.limit answer.dt time
      ((Plan.retrying stepper observer control extent).first time answer) := by
  simp only [Plan.retrying]
  cases extent.limit with
  | none => exact .inl (le_refl _)
  | some final => exact clamp ..

theorem half (h : Sized limit dt time size) (hsize : 0 ≤ size) :
    Sized limit dt time (size / 2) := by
  have hle : size / 2 ≤ size := half_le_self hsize
  rcases h with hshort | ⟨final, hfinal, hleft, hbound⟩
  · exact .inl (hle.trans hshort)
  · exact .inr ⟨final, hfinal, hle.trans hleft, hbound⟩

theorem lt_two_mul (h : Sized limit dt time size) (hdt : 0 < dt)
    (hlimit : ∀ final ∈ limit, tolerance final < dt) : size < 2 * dt := by
  rcases h with hshort | ⟨final, hfinal, hleft, hbound⟩
  · linarith
  · have htolerance := hlimit final hfinal
    linarith

end Sized

/-! ## What a run attempts -/

/-- The attempts of a run in which only those with twice `dt` or more are repeated,
and with half their time step; the first of the others to fail ends the run. -/
structure Halving (limit : Option ℝ) (dt : ℝ) (trace : Trace σ ℝ β) (ending : RunEnding ℝ γ) :
    Prop where
  sized : ∀ trial, .attempted trial ∈ trace → Sized limit dt trial.time trial.dt
  stopped : ∀ before trial after cause, trace = before ++ .attempted trial :: after →
    trial.outcome.ending = .failed cause → cause.isTimeStepFailure → trial.dt < 2 * dt →
      after = [] ∧ ending = .failed (.timeStepTooSmall trial.step (trial.dt / 2) dt)
  repeated : ∀ before trial after cause, trace = before ++ .attempted trial :: after →
    trial.outcome.ending = .failed cause → cause.isTimeStepFailure → 2 * dt ≤ trial.dt →
      (after = [] ∧ ending = .unfinished) ∨
        ∃ next rest, after = .attempted next :: rest ∧ next.step = trial.step ∧
          next.time = trial.time ∧ next.dt = trial.dt / 2

/-- The attempts of a run that repeats none: the first failure of a time step ends it. -/
structure Unrepeated (dt : ℝ) (trace : Trace σ ℝ β) (ending : RunEnding ℝ γ) : Prop where
  once : ∀ number, trace.attemptsAt number ≤ 1
  stopped : ∀ before trial after cause, trace = before ++ .attempted trial :: after →
    trial.outcome.ending = .failed cause → cause.isTimeStepFailure →
      after = [] ∧ ending = .failed (.timeStepTooSmall trial.step (trial.dt / 2) dt)

section Courses

variable [Journal ℝ σ] {stepper : Steppable σ ℝ} {observer : Observer σ ℝ}
  {control : Policy σ ℝ (StepControl ℝ)} {extent : Extent ℝ γ} {dt start : ℝ}
  {initial live : Vec ℝ} {env₀ env : σ} {trace : Trace σ ℝ (StepControl ℝ)} {here : Position σ ℝ}
  {turn : Turn ℝ (StepControl ℝ)} {ending : RunEnding ℝ γ}

theorem Course.answer_eq_fixed (hcontrol : ∀ step time env, (control step time env).1 = .fixed dt)
    (h : Course (.retrying stepper observer control extent) start initial env₀ trace here turn)
    {answer : StepControl ℝ} {size : ℝ} (hturn : turn = .attempt answer size) :
    answer = .fixed dt :=
  h.answered (· = .fixed dt) hcontrol _ (List.mem_of_getLast? (h.last_answer rfl hturn))

theorem Course.sized (hdt : 0 < dt)
    (hcontrol : ∀ step time env, (control step time env).1 = .fixed dt)
    (h : Course (.retrying stepper observer control extent) start initial env₀ trace here turn) :
    (∀ trial, .attempted trial ∈ trace → Sized extent.limit dt trial.time trial.dt) ∧
      ∀ answer size, turn = .attempt answer size → Sized extent.limit dt here.time size := by
  induction h with
  | opened => simp
  | unasked before hahead h ih => cases h
  | @asked trace here before hahead h hcheck ih =>
      refine ⟨by simpa using ih.1, ?_⟩
      rintro _ _ ⟨⟩
      have hanswer : (Plan.ask (.retrying stepper observer control extent) here).1 = .fixed dt :=
        hcontrol ..
      rw [hanswer]
      exact .first stepper observer control extent here.time (.fixed dt)
  | @retried trace here answer size next cause before hfailed hagain ih =>
      have hsize := ih.2 answer size rfl
      refine ⟨by simpa [or_imp, forall_and] using ⟨ih.1, hsize⟩, ?_⟩
      rintro _ _ ⟨⟩
      obtain rfl := before.answer_eq_fixed hcontrol rfl
      obtain ⟨hlong, rfl⟩ := Plan.of_reduce_fixed hagain
      exact hsize.half (by linarith)
  | @accepted trace here answer size before hdone ih =>
      have hsize := ih.2 answer size rfl
      exact ⟨by simpa [or_imp, forall_and] using ⟨ih.1, hsize⟩, by simp⟩
  | observed before ih => exact ⟨by simpa using ih.1, by simp⟩

theorem Ended.sized (hdt : 0 < dt)
    (hcontrol : ∀ step time env, (control step time env).1 = .fixed dt)
    (h : Ended (.retrying stepper observer control extent) start initial env₀ trace live env
      ending) :
    ∀ trial, .attempted trial ∈ trace → Sized extent.limit dt trial.time trial.dt := by
  obtain ⟨before, here, turn, hcourse, -, rfl | ⟨-, rfl⟩ | ⟨answer, size, rfl, -, rfl⟩⟩ :=
    h.last_deed
  · exact (hcourse.sized hdt hcontrol).1
  · simpa using (hcourse.sized hdt hcontrol).1
  · obtain ⟨htrials, hturn⟩ := hcourse.sized hdt hcontrol
    simpa [or_imp, forall_and] using ⟨htrials, hturn _ _ rfl⟩

/-- What follows a failed attempt is decided under the fixed control. -/
theorem Ended.followed_fixed (hcontrol : ∀ step time env, (control step time env).1 = .fixed dt)
    (h : Ended (.retrying stepper observer control extent) start initial env₀ trace live env ending)
    {before after : Trace σ ℝ (StepControl ℝ)} {trial : Trial σ ℝ} {cause : Failure ℝ}
    (htrace : trace = before ++ .attempted trial :: after)
    (hending : trial.outcome.ending = .failed cause) :
    let decision := Plan.reduce trial.step (.fixed dt) trial.dt cause
    (after = [] ∧ Concluded ending trial (StepControl.fixed dt) decision) ∨
      ∃ next rest, after = .attempted next :: rest ∧ next.step = trial.step ∧
        next.time = trial.time ∧ decision = .ok next.dt := by
  obtain ⟨answer, hlast, hnext⟩ := h.followed rfl before trial after cause htrace hending
  have hmem : (trial.step, trial.time, answer) ∈ trace.answers := by
    rw [htrace, answers_append]
    exact List.mem_append_left _ (List.mem_of_getLast? hlast)
  have hanswer : answer = .fixed dt := h.answered (· = .fixed dt) hcontrol _ hmem
  rw [hanswer] at hnext
  exact hnext

theorem Ended.halving (hdt : 0 < dt)
    (hcontrol : ∀ step time env, (control step time env).1 = .fixed dt)
    (h : Ended (.retrying stepper observer control extent) start initial env₀ trace live env
      ending) :
    Halving extent.limit dt trace ending where
  sized := h.sized hdt hcontrol
  stopped before trial after cause htrace hending hcause hshort := by
    have hnext := h.followed_fixed hcontrol htrace hending
    rw [Plan.reduce_fixed_of_lt hcause hshort] at hnext
    rcases hnext with hend | ⟨next, rest, -, -, -, hagain⟩
    · exact hend
    · cases hagain
  repeated before trial after cause htrace hending hcause hlong := by
    have hnext := h.followed_fixed hcontrol htrace hending
    rw [Plan.reduce_fixed_of_le hcause hlong] at hnext
    rcases hnext with hend | ⟨next, rest, hafter, hstep, htime, hagain⟩
    · exact .inl hend
    · exact .inr ⟨next, rest, hafter, hstep, htime, (Except.ok.inj hagain).symm⟩

/-- Where no attempt is long enough to be halved, no step is attempted twice, and none
after the one the run has come to has been attempted. -/
theorem Course.attempted_once (hdt : 0 < dt)
    (hcontrol : ∀ step time env, (control step time env).1 = .fixed dt)
    (hlimit : ∀ final ∈ extent.limit, tolerance final < dt)
    (h : Course (.retrying stepper observer control extent) start initial env₀ trace here turn)
    (number : Nat) :
    trace.attemptsAt number ≤ 1 ∧
      (turn.accepted here.step < number → trace.attemptsAt number = 0) := by
  induction h with
  | opened => simp [attemptsAt]
  | unasked before hahead h ih => cases h
  | asked before hahead h hcheck ih => rwa [attemptsAt_asked]
  | @retried trace here answer size next cause before hfailed hagain ih =>
      have hshort := ((before.sized hdt hcontrol).2 answer size rfl).lt_two_mul hdt hlimit
      obtain rfl := before.answer_eq_fixed hcontrol rfl
      exact absurd (Plan.of_reduce_fixed hagain).1 (not_le.2 hshort)
  | accepted before hdone ih => exact attempted_next ih rfl
  | observed before ih => rwa [attemptsAt_observed]

theorem Ended.attempted_once (hdt : 0 < dt)
    (hcontrol : ∀ step time env, (control step time env).1 = .fixed dt)
    (hlimit : ∀ final ∈ extent.limit, tolerance final < dt)
    (h : Ended (.retrying stepper observer control extent) start initial env₀ trace live env ending)
    (number : Nat) : trace.attemptsAt number ≤ 1 := by
  obtain ⟨before, here, turn, hcourse, -, rfl | ⟨-, rfl⟩ | ⟨answer, size, rfl, -, rfl⟩⟩ :=
    h.last_deed
  · exact (hcourse.attempted_once hdt hcontrol hlimit number).1
  · rw [attemptsAt_asked]
    exact (hcourse.attempted_once hdt hcontrol hlimit number).1
  · exact (attempted_next (hcourse.attempted_once hdt hcontrol hlimit number) rfl).1

theorem Ended.unrepeated (hdt : 0 < dt)
    (hcontrol : ∀ step time env, (control step time env).1 = .fixed dt)
    (hlimit : ∀ final ∈ extent.limit, tolerance final < dt)
    (h : Ended (.retrying stepper observer control extent) start initial env₀ trace live env
      ending) :
    Unrepeated dt trace ending where
  once := h.attempted_once hdt hcontrol hlimit
  stopped before trial after cause htrace hending hcause := by
    have hmem : .attempted trial ∈ trace := by simp [htrace]
    have hshort := (h.sized hdt hcontrol trial hmem).lt_two_mul hdt hlimit
    exact (h.halving hdt hcontrol).stopped before trial after cause htrace hending hcause hshort

end Courses

/-- Runs under a fixed control.  A run of a number of steps repeats none of them, and
neither does a run to a target time whose tolerance for arriving is less than the time
step.  With a greater tolerance its last step can be attempted with twice the time step
or more; such attempts, and no others, are repeated with half of theirs. -/
theorem fixed_control_repeats_at_end_only [Journal ℝ σ] {dt : ℝ} (hdt : 0 < dt)
    (control : Policy σ ℝ (StepControl ℝ))
    (hcontrol : ∀ step time env, (control step time env).1 = .fixed dt)
    (stepper : Steppable σ ℝ) (observer : Observer σ ℝ) (fuel : Nat) (start : ℝ) (live : Vec ℝ)
    (env : σ) :
    (∀ count,
      let run := stepsRetrying fuel stepper control observer start count live env
      let traced := stepsRetrying fuel (stepper.traced _) control.traced (observer.traced _) start
        count live ([], env)
      (traced.1, traced.2.2) = run ∧ Halving none dt traced.2.1 run.1.ending ∧
        Unrepeated dt traced.2.1 run.1.ending) ∧
    ∀ final,
      let run := toTimeRetrying fuel stepper control observer start final live env
      let traced := toTimeRetrying fuel (stepper.traced _) control.traced (observer.traced _) start
        final live ([], env)
      (traced.1, traced.2.2) = run ∧ Halving (some final) dt traced.2.1 run.1.ending ∧
        (tolerance final < dt → Unrepeated dt traced.2.1 run.1.ending) := by
  constructor
  · intro count run traced
    have hmirror : (traced.1, traced.2.2) = run :=
      (stepsRetrying_traced stepper observer live control fuel start count).eq ([], env)
    have hended := (stepsRetrying_ended start live env stepper observer control fuel count).holds
      ([], env) rfl
    rw [← hmirror]
    exact ⟨rfl, hended.halving hdt hcontrol,
      hended.unrepeated hdt hcontrol (by simp [Extent.steps])⟩
  · intro final run traced
    have hmirror : (traced.1, traced.2.2) = run :=
      (toTimeRetrying_traced stepper observer live control fuel start final).eq ([], env)
    rw [← hmirror]
    cases hinterval : checkInterval start final with
    | error cause =>
        have htrace : traced.2.1 = [] := by
          simp only [traced, toTimeRetrying, hinterval]
          rfl
        rw [htrace]
        exact ⟨rfl, ⟨by simp, by simp, by simp⟩, fun _ => ⟨by simp [attemptsAt], by simp⟩⟩
    | ok _ =>
        have hended := (toTimeRetrying_ended start live env stepper observer control hinterval
          fuel).holds ([], env) rfl
        exact ⟨rfl, hended.halving hdt hcontrol, fun htolerance =>
          hended.unrepeated hdt hcontrol (by simpa [Extent.upTo] using htolerance)⟩

/-! ## A stepper that never completes a step -/

section Stubborn

variable {dt time size : ℝ} {step : Nat} (fuel : Nat) (live : Vec ℝ)
  (trace : Trace Unit ℝ (StepControl ℝ))

theorem retryFrom_stubborn_of_lt (hshort : size < 2 * dt) :
    retryFrom (stubborn.traced (StepControl ℝ)) (.fixed dt) time step (fuel + 1) size live
        (trace, ()) =
      (⟨live, .failed (.timeStepTooSmall step (size / 2) dt)⟩,
        trace ++ [.attempted (stubborn.trial live time size step ())], ()) := by
  have hsmall : size / (StepControl.fixed dt).reduction < (StepControl.fixed dt).minimum := by
    simp only [StepControl.fixed, Nat.cast_ofNat]
    linarith
  simp only [retryFrom, bind_apply, if_pos hsmall]
  rfl

theorem retryFrom_stubborn_of_le (hlong : 2 * dt ≤ size) :
    retryFrom (stubborn.traced (StepControl ℝ)) (.fixed dt) time step (fuel + 1) size live
        (trace, ()) =
      retryFrom (stubborn.traced (StepControl ℝ)) (.fixed dt) time step fuel (size / 2) live
        (trace ++ [.attempted (stubborn.trial live time size step ())], ()) := by
  have hlarge : ¬size / (StepControl.fixed dt).reduction < (StepControl.fixed dt).minimum := by
    simp only [StepControl.fixed, Nat.cast_ofNat]
    linarith
  simpa [StepControl.fixed] using retryFrom_repeated fuel trace rfl rfl hlarge

/-- A run ends with the attempts at its first step. -/
theorem toTimeRetrying_stubborn {start final : ℝ} {cause : Failure ℝ} (hdt : 0 < dt)
    (hle : start ≤ final) (hahead : tolerance final < final - start)
    (hattempts : retryFrom (stubborn.traced (StepControl ℝ)) (.fixed dt) start 1 (fuel + 1)
        (clamp start dt final) live ([.observed 0 start live, .asked 1 start (.fixed dt)], ()) =
      (⟨live, .failed cause⟩, trace, ())) :
    toTimeRetrying (fuel + 1) (stubborn.traced _) (always (.fixed dt)).traced (silent.traced _)
        start final live ([], ()) =
      (⟨live, .failed cause⟩, trace, ()) := by
  have hvalid : (StepControl.fixed dt).validate = .ok () := by
    norm_num [StepControl.validate_eq_ok_iff, StepControl.fixed, hdt]
  have hstep : stepRetrying (fuel + 1) (stubborn.traced (StepControl ℝ)) (.fixed dt) (some final)
      start 1 live ([.observed 0 start live, .asked 1 start (.fixed dt)], ()) =
        (⟨live, .failed cause⟩, trace, ()) := by
    rw [stepRetrying, hvalid]
    exact hattempts
  have hasked : (always (StepControl.fixed dt)).traced 1 start ([.observed 0 start live], ()) =
      (.fixed dt, [.observed 0 start live, .asked 1 start (.fixed dt)], ()) := rfl
  have hrun : toTimeRetryingFrom (fuel + 1) (stubborn.traced _) (always (.fixed dt)).traced
      (silent.traced _) final (fuel + 1) 0 start live ([.observed 0 start live], ()) =
        (⟨live, .failed cause⟩, trace, ()) := by
    rw [toTimeRetryingFrom, if_pos (endAhead_iff.2 hahead), bind_apply, hasked]
    simp only [Nat.zero_add, bind_apply, hstep]
    rfl
  rw [toTimeRetrying, checkInterval_of_le hle]
  exact hrun

end Stubborn

/-- A run to `1` in steps of a half gives up its first step after one attempt. -/
theorem stubborn_gives_up_at_once :
    let traced := toTimeRetrying 1 (stubborn.traced _) (always (.fixed (1 / 2))).traced
      (silent.traced _) 0 1 #[] ([], ())
    (0 : ℝ) < 1 / 2 ∧ tolerance (1 : ℝ) < 1 / 2 ∧ traced.2.1.attemptsAt 1 = 1 ∧
      traced.1.ending = .failed (.timeStepTooSmall 1 (1 / 4) (1 / 2)) := by
  intro traced
  have hdt : (0 : ℝ) < 1 / 2 := by norm_num
  have htolerance : tolerance (1 : ℝ) < 1 / 2 := by norm_num [tolerance_real]
  have hahead : tolerance (1 : ℝ) < 1 - 0 := by linarith
  have hclamp : clamp 0 (1 / 2) (1 : ℝ) = 1 / 2 := by
    norm_num [clamp, reachesEnd, tolerance_real]
  have hrun := toTimeRetrying_stubborn 0 #[] _ hdt zero_le_one hahead
    (by rw [hclamp]; exact retryFrom_stubborn_of_lt 0 #[] _ (by norm_num))
  have htrace : traced.2.1 = [.observed 0 0 #[], .asked 1 0 (.fixed (1 / 2))] ++
      .attempted (stubborn.trial #[] 0 (1 / 2) 1 ()) :: [] := congrArg (·.2.1) hrun
  obtain ⟨hmirror, -, hunrepeated⟩ := (fixed_control_repeats_at_end_only hdt
    (always (.fixed (1 / 2))) (fun _ _ _ => rfl) stubborn silent 1 0 #[] ()).2 1
  have hending : traced.1.ending = .failed (.timeStepTooSmall 1 (1 / 2 / 2) (1 / 2)) := by
    have hstopped := ((hunrepeated htolerance).stopped _ _ _ _ htrace rfl rfl).2
    rw [← hmirror] at hstopped
    exact hstopped
  have honce : traced.2.1.attemptsAt 1 ≤ 1 := (hunrepeated htolerance).once 1
  refine ⟨hdt, htolerance, le_antisymm honce ?_, ?_⟩
  · simp [htrace, attemptsAt, Steppable.trial]
  · rw [hending]
    norm_num

/-- Close to the end of a long run the tolerance is longer than the time step, and the
first attempt at the last step long enough to be halved. -/
theorem stubborn_repeats_last_step :
    let stepper := stubborn.traced (StepControl ℝ)
    let traced := toTimeRetrying 2 stepper (always (.fixed (1 / 2))).traced (silent.traced _)
      (10 ^ 12 - 5 / 4) (10 ^ 12) #[] ([], ())
    traced.2.1.attemptsAt 1 = 2 ∧
      traced.1.ending = .failed (.timeStepTooSmall 1 (5 / 16) (1 / 2)) := by
  intro stepper traced
  have hdt : (0 : ℝ) < 1 / 2 := by norm_num
  have htolerance : tolerance (10 ^ 12 : ℝ) = 1 := by norm_num [tolerance_real]
  have hahead : tolerance (10 ^ 12 : ℝ) < 10 ^ 12 - (10 ^ 12 - 5 / 4) := by
    rw [htolerance]
    norm_num
  have hreaches : reachesEnd (10 ^ 12 - 5 / 4) (1 / 2) (10 ^ 12 : ℝ) := by
    rw [reachesEnd_iff, htolerance]
    norm_num
  have hclamp : clamp (10 ^ 12 - 5 / 4) (1 / 2) (10 ^ 12 : ℝ) = 5 / 4 := by
    rw [clamp, if_pos hreaches, sub_sub_cancel]
  have hrun := toTimeRetrying_stubborn 1 #[] _ hdt (by norm_num) hahead (by
    rw [hclamp, retryFrom_stubborn_of_le 1 #[] _ (by norm_num)]
    exact retryFrom_stubborn_of_lt 0 #[] _ (by norm_num))
  simp only [traced, stepper, hrun]
  constructor
  · simp [attemptsAt, Steppable.trial]
  · norm_num

end Run

end TimeStepping
