import TimeStepping.Demo
import TimeStepping.Proofs.Rounding
import TimeStepping.Proofs.Run.Trace
import TimeStepping.Proofs.Settings.Validation

/-!
# Runs with accepted settings

The checks of settings and the checks of a run are made independently.  The former make sure of
every time step and every control of the run, so that a run over an interval it accepts fails
with a misconfiguration only if a step itself does, `integrate_raised`.  They do not make sure of
the interval: a start that is not finite, or one from which the duration leads beyond the finite
numbers, is refused by the run before it does anything, `integrate_accepted`.
-/

namespace TimeStepping

variable {σ α β γ : Type}

namespace Run

/-- The last attempt had this outcome. -/
def LastAttempt (outcome : Outcome α (Vec α)) (env : Trace σ α β × σ) : Prop :=
  ∃ before trial, env.1 = before ++ [.attempted trial] ∧ trial.outcome = outcome

/-- If the run ended with a misconfiguration, its last attempt had failed with it. -/
def Raised (run : Run α γ) (env : Trace σ α β × σ) : Prop :=
  ∀ cause, run.ending = .failed (.configuration cause) →
    ∃ outcome, LastAttempt outcome env ∧ outcome.ending = .failed (.configuration cause)

theorem attempt_ensures_last (stepper : Steppable σ α) (live : Vec α) (time dt : α) (step : Nat) :
    Ensures (fun _ => True) ((stepper.traced β).step live time dt step) LastAttempt :=
  ⟨fun _ _ => ⟨_, _, rfl, rfl⟩⟩

theorem Raised.of_ne {run : Run α γ} {env : Trace σ α β × σ}
    (h : ∀ cause, run.ending ≠ .failed (.configuration cause)) : Raised run env :=
  fun cause hcause => absurd hcause (h cause)

theorem Raised.of_last {outcome : Outcome α (Vec α)} {cause : Failure α} {env : Trace σ α β × σ}
    (h : LastAttempt outcome env) (hfailed : outcome.ending = .failed cause) :
    Raised (⟨outcome.value, .failed cause⟩ : Run α γ) env := by
  intro misconfiguration hcause
  cases hcause
  exact ⟨outcome, h, hfailed⟩

variable [Scalar α] {stepper : Steppable σ α}

/-- A run in which no time step is refused. -/
theorem toTimeFrom_raised {policy : Policy (Trace σ α β × σ) α α}
    {observer : Observer (Trace σ α β × σ) α}
    (hpolicy : ∀ step time env, TimeGrid.checkDt (policy step time env).1 step = .ok ())
    (final : α) (fuel step : Nat) (time : α) (live : Vec α) :
    Ensures (fun _ => True)
      (toTimeFrom (stepper.traced β) policy observer final fuel step time live) Raised := by
  induction fuel generalizing step time live with
  | zero => exact .pure fun _ _ => .of_ne (by simp)
  | succ fuel ih =>
      unfold toTimeFrom
      split
      · have hasked : Ensures (fun _ => True) (policy (step + 1) time)
            (fun dt _ => TimeGrid.checkDt dt (step + 1) = .ok ()) :=
          ⟨fun env _ => hpolicy (step + 1) time env⟩
        refine hasked.bind fun dt => .given fun hdt => ?_
        rw [hdt]
        refine (attempt_ensures_last stepper live time _ (step + 1)).bind fun outcome => ?_
        cases hending : outcome.ending with
        | done => exact Ensures.any.bind fun _ => ih (step + 1) _ outcome.value
        | failed cause => exact .pure fun env h => .of_last h hending
        | fault cause => exact .pure fun _ _ => .of_ne (by simp)
      · exact .pure fun _ _ => .of_ne (by simp)

variable [Journal α σ]

theorem retryFrom_raised (control : StepControl α) (time : α) (step fuel : Nat) (dt : α)
    (live : Vec α) :
    Ensures (fun _ => True) (retryFrom (stepper.traced β) control time step fuel dt live)
      Raised := by
  induction fuel generalizing dt live with
  | zero => exact .pure fun _ _ => .of_ne (by simp)
  | succ fuel ih =>
      refine (attempt_ensures_last stepper live time dt step).bind fun outcome => ?_
      cases hending : outcome.ending with
      | done => exact .pure fun _ _ => .of_ne (by simp)
      | fault cause => exact .pure fun _ _ => .of_ne (by simp)
      | failed cause =>
          dsimp only
          split
          · split
            · exact Ensures.any.bind fun _ => .pure fun _ _ => .of_ne (by simp)
            · exact Ensures.any.bind fun _ => ih _ outcome.value
          · exact .pure fun env h => .of_last h hending

/-- A run in which no control is refused. -/
theorem toTimeRetryingFrom_raised {policy : Policy (Trace σ α β × σ) α (StepControl α)}
    {observer : Observer (Trace σ α β × σ) α}
    (hpolicy : ∀ step time env, (policy step time env).1.validate = .ok ())
    (final : α) (retries fuel step : Nat) (time : α) (live : Vec α) :
    Ensures (fun _ => True)
      (toTimeRetryingFrom retries (stepper.traced β) policy observer final fuel step time live)
      Raised := by
  induction fuel generalizing step time live with
  | zero => exact .pure fun _ _ => .of_ne (by simp)
  | succ fuel ih =>
      unfold toTimeRetryingFrom
      split
      · have hasked : Ensures (fun _ => True) (policy (step + 1) time)
            (fun control _ => control.validate = .ok ()) :=
          ⟨fun env _ => hpolicy (step + 1) time env⟩
        refine hasked.bind fun control => .given fun hcontrol => ?_
        unfold stepRetrying
        rw [hcontrol]
        refine (retryFrom_raised control time (step + 1) retries _ live).bind fun run => ?_
        cases hending : run.ending with
        | finished dt => exact Ensures.any.bind fun _ => ih (step + 1) _ run.live
        | failed cause =>
            refine .pure fun env h => ?_
            intro misconfiguration hcause
            cases hcause
            exact h misconfiguration hending
        | fault cause => exact .pure fun _ _ => .of_ne (by simp)
        | unfinished => exact .pure fun _ _ => .of_ne (by simp)
      · exact .pure fun _ _ => .of_ne (by simp)

end Run

namespace Demo

variable [Scalar α] [Journal α σ] {settings : Settings α}

/-- Keeping a trace of the attempts does not change the run. -/
theorem integrate_traced (settings : Settings α) (fuel : Nat) (stepper : Steppable σ α)
    (live : Vec α) :
    ActsAs (integrate fuel (stepper.traced β) settings live)
      (integrate fuel stepper settings live) := by
  have hobserver : (observer : Run.Observer (Trace σ α β × σ) α).Tandem (Run.behind _) observer :=
    Run.observer_behind fun _ _ _ => .note _
  unfold integrate
  apply ActsAs.ite
  · exact Run.actsAs_of_behind (Run.toTimeRetrying_tandem (Run.traced_stepper stepper)
      (Run.policy_behind fun _ _ => .pure _) hobserver Run.notes_behind fuel _ _ live live)
  · exact Run.actsAs_of_behind (Run.toTime_tandem (Run.traced_stepper stepper)
      (Run.policy_behind fun _ _ => .pure _) hobserver fuel _ _ live live)

theorem checkDt_of_accepted (h : settings.Accepted) (step : Nat) :
    TimeGrid.checkDt settings.dt step = .ok () := by
  unfold TimeGrid.checkDt
  rw [if_neg (Classical.not_not.2 h.dt_accepted)]

/-- Over an interval it accepts, a run with accepted settings refuses nothing: if it ends with a
misconfiguration, the step it attempted last had failed with it. -/
theorem integrate_raised (h : settings.Accepted)
    (hinterval : TimeGrid.checkInterval settings.startTime settings.finalTime = .ok ())
    (fuel : Nat) (stepper : Steppable σ α) (live : Vec α) :
    Ensures (fun _ => True) (integrate fuel (stepper.traced β) settings live) Run.Raised := by
  unfold integrate
  split
  · unfold Run.toTimeRetrying
    rw [hinterval]
    exact Ensures.any.bind fun _ =>
      Run.toTimeRetryingFrom_raised (fun _ _ _ => h.control) settings.finalTime fuel fuel 0 _ live
  · unfold Run.toTime
    rw [hinterval]
    exact Ensures.any.bind fun _ =>
      Run.toTimeFrom_raised (fun step _ _ => checkDt_of_accepted h step) settings.finalTime fuel 0
        _ live

/-- Over an interval it refuses, a run does nothing else. -/
theorem integrate_refused {cause : Misconfiguration α}
    (hinterval : TimeGrid.checkInterval settings.startTime settings.finalTime = .error cause)
    (fuel : Nat) (stepper : Steppable σ α) (live : Vec α) :
    integrate fuel stepper settings live = pure (Run.refused live cause) := by
  unfold integrate
  split
  · unfold Run.toTimeRetrying
    rw [hinterval]
  · unfold Run.toTime
    rw [hinterval]

/-! ## The interval -/

section Doubles

variable {settings : Settings Float}

/-- The end of the interval is not before its start, so only numbers that are not finite are
refused. -/
theorem checkInterval_of_accepted (h : settings.Accepted) :
    TimeGrid.checkInterval settings.startTime settings.finalTime =
      if settings.startTime.isFinite = true ∧ settings.finalTime.isFinite = true then .ok ()
      else .error (.interval settings.startTime settings.finalTime) := by
  unfold TimeGrid.checkInterval
  by_cases hfinite : settings.startTime.isFinite = true ∧ settings.finalTime.isFinite = true
  · have hforward : ¬settings.finalTime < settings.startTime :=
      not_add_lt hfinite.1 h.duration_finite h.duration_nonneg
    rw [if_pos hfinite]
    exact if_neg (not_or.2 ⟨not_not.2 hfinite, hforward⟩)
  · rw [if_neg hfinite]
    exact if_pos (.inl hfinite)

variable [Journal Float σ]

/-- A run with settings that pass their checks is refused exactly if its interval does not lie
within the finite numbers, and then before anything is done.  Otherwise nothing in it is: it ends
with a misconfiguration only if the last attempt at a step did. -/
theorem integrate_accepted (settings : Settings Float) (hvalid : settings.validate = .ok ())
    (fuel : Nat) (stepper : Steppable σ Float) (live : Vec Float) (env : σ) :
    let result := integrate fuel (stepper.traced β) settings live ([], env)
    (result.1, result.2.2) = integrate fuel stepper settings live env ∧
      if settings.startTime.isFinite = true ∧ settings.finalTime.isFinite = true then
        Run.Raised result.1 result.2
      else
        result =
          (Run.refused live (.interval settings.startTime settings.finalTime), [], env) := by
  intro result
  have haccepted := Settings.validate_accepted.1 hvalid
  have hinterval := checkInterval_of_accepted haccepted
  refine ⟨(integrate_traced settings fuel stepper live).eq ([], env), ?_⟩
  split
  · rename_i hfinite
    rw [if_pos hfinite] at hinterval
    exact (integrate_raised haccepted hinterval fuel stepper live).holds ([], env) trivial
  · rename_i hfinite
    rw [if_neg hfinite] at hinterval
    exact congrFun (integrate_refused hinterval fuel (stepper.traced β) live) ([], env)

end Doubles

/-! ## An interval beyond the finite numbers -/

/-- More than half of the greatest double.  It is not to be evaluated where a proof only passes
it on. -/
@[irreducible] def huge : Float :=
  1e308

/-- Settings whose final time overflows. -/
def overflowing : Settings Float :=
  { Settings.standard with startTime := huge, duration := huge }

theorem overflowing_accepted : overflowing.Accepted where
  duration_finite := by decide +kernel
  duration_nonneg := by decide +kernel
  control := rfl
  newton := rfl

theorem overflowing_infinite :
    ¬(overflowing.startTime.isFinite = true ∧ overflowing.finalTime.isFinite = true) := by
  decide +kernel

theorem integrate_overflowing :
    overflowing.validate = .ok () ∧
      integrate 1 ((Steppable.idle Float).traced Unit) overflowing #[] ([], ()) =
        (Run.refused #[] (.interval overflowing.startTime overflowing.finalTime), [], ()) := by
  have hvalid := Settings.validate_accepted.2 overflowing_accepted
  obtain ⟨-, hrefused⟩ := integrate_accepted overflowing hvalid 1 (.idle Float) #[] () (β := Unit)
  rw [if_neg overflowing_infinite] at hrefused
  exact ⟨hvalid, hrefused⟩

/-- Passing their checks does not make settings runnable. -/
theorem accepted_not_runnable :
    ¬∀ settings : Settings Float, settings.validate = .ok () →
      ∀ (fuel : Nat) (stepper : Steppable Unit Float) (live : Vec Float),
        let result := integrate fuel (stepper.traced Unit) settings live ([], ())
        Run.Raised result.1 result.2 := by
  intro h
  have hvalid := Settings.validate_accepted.2 overflowing_accepted
  have hinterval := checkInterval_of_accepted overflowing_accepted
  rw [if_neg overflowing_infinite] at hinterval
  have hraised := h overflowing hvalid 1 (.idle Float) #[]
  rw [integrate_refused hinterval] at hraised
  obtain ⟨outcome, ⟨before, trial, hlast, -⟩, -⟩ := hraised _ rfl
  change [] = before ++ [_] at hlast
  simp at hlast

end Demo

end TimeStepping
