import TimeStepping.Proofs.Run.TargetTime
import TimeStepping.Proofs.Run.Course
import TimeStepping.Proofs.Run.Fuel

/-!
# The schedule of retries

The attempts that a run with retries makes at one step.  `Attempts` says what the
retry loop makes of them one at a time.  From it follow the time steps they are made
with, a geometric sequence that ends above the minimum of the control, and what each
of them leads to.  Main statement: `Run.retry_schedule`.
-/

namespace TimeStepping

open TimeGrid

variable {σ α β : Type}

namespace StepControl

section Settlement

variable [Scalar α] {control : StepControl α} {dt : α} {cause : Failure α}

/-- How a step ends after an attempt with the time step `dt`; none if the attempt is
to be repeated with a smaller one. -/
def settlement (control : StepControl α) (step : Nat) (dt : α) :
    Ending α → Option (RunEnding α α)
  | .done => some (.finished dt)
  | .fault cause => some (.fault cause)
  | .failed cause =>
      match Run.Plan.reduce step control dt cause with
      | .ok _ => none
      | .error surfaced => some (.failed surfaced)

theorem settlement_of_other (step : Nat) (h : cause.isTimeStepFailure = false) :
    control.settlement step dt (.failed cause) = some (.failed cause) := by
  rw [settlement, (Run.Plan.reduce_of_other step control dt h).1]

theorem settlement_of_too_small (step : Nat) (h : cause.isTimeStepFailure)
    (hsmall : dt / control.reduction < control.minimum) :
    control.settlement step dt (.failed cause) =
      some (.failed (.timeStepTooSmall step (dt / control.reduction) control.minimum)) := by
  rw [settlement, (Run.Plan.reduce_of_too_small step h hsmall).1]

theorem settlement_of_retry (step : Nat) (h : cause.isTimeStepFailure)
    (hlarge : ¬dt / control.reduction < control.minimum) :
    control.settlement step dt (.failed cause) = none := by
  rw [settlement, (Run.Plan.reduce_of_retry step h hlarge).1]

theorem not_lt_of_settlement_eq_none {step : Nat} {ending : Ending α}
    (h : control.settlement step dt ending = none) :
    ¬dt / control.reduction < control.minimum := by
  intro hsmall
  cases ending with
  | done => cases h
  | fault cause => cases h
  | failed cause =>
      by_cases hcause : cause.isTimeStepFailure
      · rw [settlement_of_too_small step hcause hsmall] at h
        cases h
      · rw [settlement_of_other step (Bool.eq_false_iff.2 hcause)] at h
        cases h

theorem settlement_ne_unfinished (control : StepControl α) (step : Nat) (dt : α)
    (ending : Ending α) : control.settlement step dt ending ≠ some .unfinished := by
  unfold settlement
  split
  · nofun
  · nofun
  · split <;> nofun

end Settlement

/-- The time step a step is first attempted with, in a run up to `limit` if there is one. -/
noncomputable def opening (control : StepControl ℝ) (limit : Option ℝ) (time : ℝ) : ℝ :=
  match limit with
  | some final =>
      if final - tolerance final ≤ time + control.dt then final - time else control.dt
  | none => control.dt

theorem opening_some (control : StepControl ℝ) (final time : ℝ) :
    control.opening (some final) time = clamp time control.dt final := by
  simp only [opening, clamp, reachesEnd, decide_eq_true_eq]

theorem opening_pos {control : StepControl ℝ} (hvalid : control.validate = .ok ())
    {limit : Option ℝ} {time : ℝ} (hahead : ∀ final ∈ limit, tolerance final < final - time) :
    0 < control.opening limit time := by
  have hdt := (pos_of_validate hvalid).1
  cases limit with
  | none => exact hdt
  | some final =>
      rw [opening_some]
      exact (fits_clamp hdt (hahead final rfl)).pos

end StepControl

namespace Run

/-! ## The attempts at one step -/

/-- Attempts at a step from the time step `dt` on, of which there may be `fuel`, with
how they ended. -/
inductive Attempts [Scalar α] (stepper : Steppable σ α) (control : StepControl α) (step : Nat)
    (time : α) : (fuel : Nat) → (dt : α) → List (Trial σ α) → RunEnding α α → Prop
  | cut {dt : α} : Attempts stepper control step time 0 dt [] .unfinished
  | settled {fuel : Nat} {dt : α} {result : RunEnding α α} (live : Vec α) (env : σ)
      (h : control.settlement step dt (stepper.trial live time dt step env).outcome.ending =
        some result) :
      Attempts stepper control step time (fuel + 1) dt [stepper.trial live time dt step env] result
  | retried {fuel : Nat} {dt : α} {later : List (Trial σ α)} {ending : RunEnding α α}
      (live : Vec α) (env : σ)
      (h : control.settlement step dt (stepper.trial live time dt step env).outcome.ending = none)
      (after : Attempts stepper control step time fuel (dt / control.reduction) later ending) :
      Attempts stepper control step time (fuel + 1) dt
        (stepper.trial live time dt step env :: later) ending

section Loop

variable [Scalar α] [Journal α σ] (stepper : Steppable σ α) (control : StepControl α) (step : Nat)
  (time : α)

theorem retryFrom_attempts (fuel : Nat) (dt : α) (live : Vec α) :
    Logs (retryFrom (stepper.traced β) control time step fuel dt live) fun deeds run =>
      ∃ trials, deeds = trials.map .attempted ∧
        Attempts stepper control step time fuel dt trials run.ending := by
  induction fuel generalizing dt live with
  | zero => exact .pure ⟨[], rfl, .cut⟩
  | succ fuel ih =>
      refine (attempt_logs stepper live time dt step).bind ?_
      rintro ⟨value, ending⟩ _ ⟨env, rfl, houtcome⟩
      have hending : (stepper.trial live time dt step env).outcome.ending = ending :=
        congrArg Outcome.ending houtcome
      have hsettled : ∀ result, control.settlement step dt ending = some result →
          Attempts stepper control step time (fuel + 1) dt
            [stepper.trial live time dt step env] result :=
        fun result h => .settled live env (by rwa [hending])
      cases ending with
      | done => exact .pure ⟨_, rfl, hsettled _ rfl⟩
      | fault cause => exact .pure ⟨_, rfl, hsettled _ rfl⟩
      | failed cause =>
          dsimp only
          split
          · rename_i hcause
            split
            · rename_i hsmall
              have hlast := hsettled _ (StepControl.settlement_of_too_small step hcause hsmall)
              exact (Logs.note _).silently fun _ => .pure ⟨_, rfl, hlast⟩
            · rename_i hlarge
              have hagain := StepControl.settlement_of_retry step hcause hlarge
              refine (Logs.note _).silently fun _ => (ih ..).weaken ?_
              rintro _ run ⟨later, rfl, hlater⟩
              exact ⟨_, rfl, .retried live env (by rwa [hending]) hlater⟩
          · rename_i hcause
            have hother := Bool.eq_false_iff.2 hcause
            exact .pure ⟨_, rfl, hsettled _ (StepControl.settlement_of_other step hother)⟩

theorem retryFrom_traced (fuel : Nat) (dt : α) (live : Vec α) :
    ActsAs (retryFrom (stepper.traced β) control time step fuel dt live)
      (retryFrom stepper control time step fuel dt live) := by
  induction fuel generalizing dt live with
  | zero => exact .pure _
  | succ fuel ih =>
      have hattempt : ActsAs ((stepper.traced β).step live time dt step)
          (stepper.step live time dt step) := ⟨fun _ => rfl⟩
      refine hattempt.bind fun outcome => ?_
      cases outcome.ending with
      | done => exact .pure _
      | fault cause => exact .pure _
      | failed cause =>
          refine .ite (.ite ?_ ?_) (.pure _)
          · exact (ActsAs.note _).bind fun _ => .pure _
          · exact (ActsAs.note _).bind fun _ => ih ..

theorem stepRetrying_traced (limit : Option α) (fuel : Nat) (live : Vec α) :
    ActsAs (stepRetrying fuel (stepper.traced β) control limit time step live)
      (stepRetrying fuel stepper control limit time step live) := by
  unfold stepRetrying
  cases control.validate with
  | error cause => exact .pure _
  | ok _ => exact retryFrom_traced ..

end Loop

theorem stepRetrying_attempts [Journal ℝ σ] (stepper : Steppable σ ℝ) {control : StepControl ℝ}
    (hvalid : control.validate = .ok ()) (limit : Option ℝ) (time : ℝ) (step fuel : Nat)
    (live : Vec ℝ) :
    Logs (stepRetrying fuel (stepper.traced β) control limit time step live) fun deeds run =>
      ∃ trials, deeds = trials.map .attempted ∧
        Attempts stepper control step time fuel (control.opening limit time) trials run.ending := by
  unfold stepRetrying
  rw [hvalid]
  cases limit with
  | none => exact retryFrom_attempts ..
  | some final =>
      rw [StepControl.opening_some]
      exact retryFrom_attempts ..

namespace Attempts

variable {stepper : Steppable σ ℝ} {control : StepControl ℝ} {step : Nat} {time dt : ℝ}
  {fuel : Nat} {trials : List (Trial σ ℝ)} {ending : RunEnding ℝ ℝ} {k : Nat} {trial : Trial σ ℝ}

theorem div_pow_succ (dt factor : ℝ) (k : Nat) :
    dt / factor ^ (k + 1) = dt / factor / factor ^ k := by
  rw [pow_succ', div_div]

theorem ne_nil (h : Attempts stepper control step time fuel dt trials ending)
    (hended : ending ≠ .unfinished) : trials ≠ [] := by
  cases h with
  | cut => exact absurd rfl hended
  | settled => exact List.cons_ne_nil _ _
  | retried => exact List.cons_ne_nil _ _

/-- Attempt `k` is made with the first time step reduced `k` times.  If it settles the
step it is the last one, and otherwise another one follows, unless the step is cut off. -/
theorem attempt_at (h : Attempts stepper control step time fuel dt trials ending)
    (hk : trials[k]? = some trial) :
    let size := dt / control.reduction ^ k
    (∃ live env, trial = stepper.trial live time size step env) ∧
      match control.settlement step size trial.outcome.ending with
      | some result => k + 1 = trials.length ∧ ending = result
      | none => k + 1 < trials.length ∨ ending = .unfinished := by
  intro size
  induction h generalizing k with
  | cut => cases hk
  | settled live env hsettled =>
      cases k with
      | succ k => cases hk
      | zero =>
          obtain rfl := Option.some.inj hk
          simp only [size, pow_zero, div_one, hsettled]
          exact ⟨⟨live, env, rfl⟩, rfl, trivial⟩
  | @retried fuel dt later ending live env hretried after ih =>
      cases k with
      | zero =>
          obtain rfl := Option.some.inj hk
          simp only [size, pow_zero, div_one, hretried]
          refine ⟨⟨live, env, rfl⟩, ?_⟩
          cases after with
          | cut => exact .inr rfl
          | settled => exact .inl (by simp)
          | retried => exact .inl (by simp)
      | succ k =>
          have hlater := ih hk
          simp only [size, div_pow_succ, List.length_cons, Nat.add_lt_add_iff_right,
            Nat.add_right_cancel_iff]
          exact hlater

/-- An attempt that settles the step is the last one. -/
theorem settled_by (h : Attempts stepper control step time fuel dt trials ending)
    (hk : trials[k]? = some trial) {result : RunEnding ℝ ℝ}
    (hresult : control.settlement step (dt / control.reduction ^ k) trial.outcome.ending =
      some result) :
    k + 1 = trials.length ∧ ending = result := by
  have hafter := (h.attempt_at hk).2
  rwa [hresult] at hafter

/-- An attempt that does not settle the step is followed by another one. -/
theorem repeated (h : Attempts stepper control step time fuel dt trials ending)
    (hended : ending ≠ .unfinished) (hk : trials[k]? = some trial)
    (hretry : control.settlement step (dt / control.reduction ^ k) trial.outcome.ending = none) :
    k + 1 < trials.length := by
  have hafter := (h.attempt_at hk).2
  rw [hretry] at hafter
  exact hafter.resolve_right hended

/-- A retry is made with a time step in the range of the control. -/
theorem minimum_le (h : Attempts stepper control step time fuel dt trials ending)
    (hk : k + 1 < trials.length) : control.minimum ≤ dt / control.reduction ^ (k + 1) := by
  have hlt : k < trials.length := Nat.lt_of_succ_lt hk
  have hafter := (h.attempt_at (List.getElem?_eq_getElem hlt)).2
  split at hafter
  · omega
  · rename_i hretry
    rw [pow_succ, ← div_div]
    exact not_lt.1 (StepControl.not_lt_of_settlement_eq_none hretry)

/-- So is the one that a step is cut off before. -/
theorem minimum_le_of_unfinished
    (h : Attempts stepper control step time (fuel + 1) dt trials .unfinished) :
    control.minimum ≤ dt / control.reduction ^ (fuel + 1) := by
  induction fuel generalizing dt trials with
  | zero =>
      cases h with
      | settled live env hsettled => exact absurd hsettled (control.settlement_ne_unfinished _ _ _)
      | retried live env hretried after =>
          rw [pow_one]
          exact not_lt.1 (StepControl.not_lt_of_settlement_eq_none hretried)
  | succ fuel ih =>
      cases h with
      | settled live env hsettled => exact absurd hsettled (control.settlement_ne_unfinished _ _ _)
      | retried live env hretried after =>
          rw [div_pow_succ]
          exact ih after

end Attempts

/-! ## The schedule -/

/-- The attempts at a step, in order, and how the step ends, if attempt `k` is to be
made with the time step `size k` and no retry with one below `minimum`. -/
structure Scheduled (stepper : Steppable σ ℝ) (size : Nat → ℝ) (minimum : ℝ) (step : Nat)
    (time : ℝ) (trials : List (Trial σ ℝ)) (ending : RunEnding ℝ ℝ) : Prop where
  begun : trials ≠ []
  made : ∀ k trial, trials[k]? = some trial →
    ∃ live env, trial = stepper.trial live time (size k) step env
  retries : ∀ k, k + 1 < trials.length → minimum ≤ size (k + 1)
  completed : ∀ k trial, trials[k]? = some trial → trial.outcome.ending = .done →
    k + 1 = trials.length ∧ ending = .finished (size k)
  fault : ∀ k trial cause, trials[k]? = some trial → trial.outcome.ending = .fault cause →
    k + 1 = trials.length ∧ ending = .fault cause
  failed : ∀ k trial cause, trials[k]? = some trial → trial.outcome.ending = .failed cause →
    cause.isTimeStepFailure = false → k + 1 = trials.length ∧ ending = .failed cause
  gaveUp : ∀ k trial cause, trials[k]? = some trial → trial.outcome.ending = .failed cause →
    cause.isTimeStepFailure → size (k + 1) < minimum →
      k + 1 = trials.length ∧ ending = .failed (.timeStepTooSmall step (size (k + 1)) minimum)
  retried : ∀ k trial cause, trials[k]? = some trial → trial.outcome.ending = .failed cause →
    cause.isTimeStepFailure → minimum ≤ size (k + 1) → k + 1 < trials.length

theorem Attempts.scheduled {stepper : Steppable σ ℝ} {control : StepControl ℝ} {step : Nat}
    {time dt : ℝ} {fuel : Nat} {trials : List (Trial σ ℝ)} {ending : RunEnding ℝ ℝ}
    (h : Attempts stepper control step time fuel dt trials ending) (hended : ending ≠ .unfinished) :
    Scheduled stepper (fun k => dt / control.reduction ^ k) control.minimum step time trials
      ending where
  begun := h.ne_nil hended
  made k trial hk := (h.attempt_at hk).1
  retries k hk := h.minimum_le hk
  completed k trial hk hdone := h.settled_by hk (by rw [hdone]; rfl)
  fault k trial cause hk hfault := h.settled_by hk (by rw [hfault]; rfl)
  failed k trial cause hk hfailed hother :=
    h.settled_by hk (by rw [hfailed, StepControl.settlement_of_other step hother])
  gaveUp k trial cause hk hfailed hcause hsmall := by
    rw [pow_succ, ← div_div] at hsmall ⊢
    exact h.settled_by hk (by rw [hfailed, StepControl.settlement_of_too_small step hcause hsmall])
  retried k trial cause hk hfailed hcause hlarge := by
    rw [pow_succ, ← div_div] at hlarge
    refine h.repeated hended hk ?_
    rw [hfailed, StepControl.settlement_of_retry step hcause (not_lt.2 hlarge)]

/-- How many retries there may be, at most: the last time step of the geometric sequence
that is not below the minimum, if not the first one already is. -/
theorem exists_retries {dt minimum factor : ℝ} (hdt : 0 < dt) (hminimum : 0 < minimum)
    (hfactor : 1 < factor) :
    ∃ retries, IsGreatest {k : Nat | minimum ≤ dt / factor ^ k} retries ∨
      dt < minimum ∧ retries = 0 := by
  have hanti : Antitone fun k : Nat => dt / factor ^ k := fun first second hle =>
    div_le_div_of_nonneg_left hdt.le (pow_pos (by linarith) first)
      (pow_le_pow_right₀ hfactor.le hle)
  have hsmall : ∃ k : Nat, dt / factor ^ k < minimum := by
    obtain ⟨k, hk⟩ := pow_unbounded_of_one_lt (dt / minimum) hfactor
    refine ⟨k, ?_⟩
    rw [div_lt_iff₀ hminimum] at hk
    rw [div_lt_iff₀ (pow_pos (by linarith) k)]
    linarith
  classical
  cases hfirst : Nat.find hsmall with
  | zero =>
      have hlt := Nat.find_spec hsmall
      rw [hfirst, pow_zero, div_one] at hlt
      exact ⟨0, .inr ⟨hlt, rfl⟩⟩
  | succ retries =>
      have hlt := Nat.find_spec hsmall
      rw [hfirst] at hlt
      refine ⟨retries, .inl ⟨not_lt.1 (Nat.find_min hsmall (by omega)), fun k hk => ?_⟩⟩
      by_contra hgreater
      have hle : dt / factor ^ k ≤ dt / factor ^ (retries + 1) := hanti (not_le.1 hgreater)
      exact absurd (hle.trans_lt hlt) (not_lt.2 hk)

variable [Journal ℝ σ] (stepper : Steppable σ ℝ)

/-- The retry schedule.  Under a valid control, and with more time left than the
tolerance if there is a final time, a step is attempted with the first time step
divided by the powers of the reduction factor, in order, until an attempt settles it.
Time steps are never reduced below the minimum, so there are no more retries than
powers that keep to it.  Fuel for one more attempt is enough, and the schedule does not
depend on it. -/
theorem retry_schedule {control : StepControl ℝ} (hvalid : control.validate = .ok ())
    (limit : Option ℝ) (time : ℝ) (hahead : ∀ final ∈ limit, tolerance final < final - time)
    (step : Nat) :
    let size : Nat → ℝ := fun k => control.opening limit time / control.reduction ^ k
    ∃ retries,
      (IsGreatest {k | control.minimum ≤ size k} retries ∨
        size 0 < control.minimum ∧ retries = 0) ∧
      ∀ fuel, retries < fuel → ∀ live env,
        let run := stepRetrying fuel stepper control limit time step live env
        let traced := stepRetrying fuel (stepper.traced Unit) control limit time step live ([], env)
        (traced.1, traced.2.2) = run ∧ run.1.ending ≠ .unfinished ∧
        (∀ more, fuel ≤ more → stepRetrying more stepper control limit time step live env = run) ∧
        ∃ trials, traced.2.1 = trials.map .attempted ∧ trials.length ≤ retries + 1 ∧
          Scheduled stepper size control.minimum step time trials run.1.ending := by
  intro size
  obtain ⟨-, hminimum, -, hfactor⟩ := StepControl.validate_eq_ok_iff.1 hvalid
  have hfirst := StepControl.opening_pos hvalid hahead
  have hzero : size 0 = control.opening limit time := by simp [size]
  obtain ⟨retries, hretries⟩ := exists_retries hfirst hminimum hfactor
  -- No time step after the last retry keeps to the minimum.
  have hbound : ∀ k, control.minimum ≤ size (k + 1) → k + 1 ≤ retries := by
    intro k hk
    rcases hretries with hgreatest | ⟨hsmall, -⟩
    · exact hgreatest.2 hk
    · have hle : size (k + 1) ≤ control.opening limit time :=
        div_le_self hfirst.le (one_le_pow₀ hfactor.le)
      exact absurd (hk.trans hle) (not_le.2 hsmall)
  refine ⟨retries, by rwa [hzero], fun fuel hfuel live env => ?_⟩
  intro run traced
  have hmirror := stepRetrying_traced (β := Unit) stepper control step time limit fuel live
  obtain ⟨trials, hlog, hattempts⟩ :
      ∃ trials, traced.2.1 = trials.map .attempted ∧
        Attempts stepper control step time fuel (control.opening limit time) trials run.1.ending :=
    (stepRetrying_attempts stepper hvalid limit time step fuel live).of_actsAs hmirror env
  have hended : run.1.ending ≠ .unfinished := by
    intro hcut
    obtain ⟨fuel, rfl⟩ := Nat.exists_eq_succ_of_ne_zero (Nat.ne_zero_of_lt hfuel)
    rw [hcut] at hattempts
    exact absurd (hbound fuel hattempts.minimum_le_of_unfinished) (by omega)
  refine ⟨hmirror.eq ([], env), hended, fun more hmore => ?_, trials, hlog, ?_,
    hattempts.scheduled hended⟩
  · exact (stepRetrying_prolongs stepper control limit time step hmore live).eq env hended
  · by_contra hlong
    have hretry := hattempts.minimum_le (k := retries) (by omega)
    exact absurd (hbound retries hretry) (by omega)

/-- A stepper that never completes a step. -/
def stubborn : Steppable Unit ℝ where
  order := 1
  step live _ dt step := pure ⟨live, .failed (.timeStep step dt (.velocity "out of range"))⟩

theorem retry_schedule_of_stubborn :
    let control : StepControl ℝ := ⟨1, 1 / 4, 2⟩
    control.validate = .ok () ∧ tolerance (10 : ℝ) < 10 - 0 ∧
      ∃ fuel, ∃ trials : List (Trial Unit ℝ), trials.length = 3 ∧
        (stepRetrying fuel (stubborn.traced Unit) control (some 10) 0 1 #[] ([], ())).2.1 =
          trials.map .attempted ∧
        (stepRetrying fuel stubborn control (some 10) 0 1 #[] ()).1.ending =
          .failed (.timeStepTooSmall 1 (1 / 8) (1 / 4)) := by
  intro control
  have htol : tolerance (10 : ℝ) = 1e-11 := by norm_num [tolerance_real]
  have hvalid : control.validate = .ok () := by norm_num [StepControl.validate_eq_ok_iff, control]
  have hahead : tolerance (10 : ℝ) < 10 - 0 := by norm_num [htol]
  have hopening : control.opening (some 10) 0 = 1 := by
    norm_num [StepControl.opening, htol, control]
  obtain ⟨retries, -, hschedule⟩ := retry_schedule stubborn hvalid (some 10) 0
    (by rintro _ ⟨⟩; exact hahead) 1
  obtain ⟨-, -, -, trials, hlog, -, h⟩ := hschedule (retries + 1) (Nat.lt_succ_self _) #[] ()
  rw [hopening] at h
  have hfailed : ∀ k (hk : k < trials.length), ∃ cause,
      trials[k].outcome.ending = .failed cause ∧ cause.isTimeStepFailure := by
    intro k hk
    obtain ⟨live, env, htrial⟩ := h.made k _ (List.getElem?_eq_getElem hk)
    rw [htrial]
    exact ⟨_, rfl, rfl⟩
  have hretried : ∀ k, k < trials.length → (1 / 4 : ℝ) ≤ 1 / 2 ^ (k + 1) →
      k + 1 < trials.length := by
    intro k hk hlarge
    obtain ⟨cause, hending, hcause⟩ := hfailed k hk
    exact h.retried k _ cause (List.getElem?_eq_getElem hk) hending hcause hlarge
  have hfirst : 0 < trials.length := List.length_pos_iff.2 h.begun
  have hthird : 2 < trials.length :=
    hretried 1 (hretried 0 hfirst (by norm_num)) (by norm_num)
  obtain ⟨cause, hending, hcause⟩ := hfailed 2 hthird
  obtain ⟨hlength, hresult⟩ := h.gaveUp 2 _ cause (List.getElem?_eq_getElem hthird) hending hcause
    (by norm_num [control])
  refine ⟨hvalid, hahead, retries + 1, trials, hlength.symm, hlog, ?_⟩
  rw [hresult]
  norm_num [control]

end Run

end TimeStepping
