import TimeStepping.Proofs.Run.Timeline

/-!
# Runs to a target time

The plans of both runs to a target time keep to the grid, whatever their steppers do
and whatever their policies or controls answer: an answer that is refused ends the run.
-/

namespace TimeStepping

open TimeGrid

namespace TimeGrid

theorem checkInterval_of_le {start final : ℝ} (h : start ≤ final) :
    checkInterval start final = .ok () := by
  simp [checkInterval, h]

theorem pos_of_checkDt {dt : ℝ} {step : Nat} (h : checkDt dt step = .ok ()) : 0 < dt := by
  by_contra hdt
  simp [checkDt, hdt] at h

end TimeGrid

namespace StepControl

theorem validate_eq_ok_iff {control : StepControl ℝ} :
    control.validate = .ok () ↔
      0 < control.dt ∧ 0 < control.minimum ∧ control.minimum ≤ control.dt ∧
        1 < control.reduction := by
  simp only [validate, Scalar.isFinite_real, true_and]
  split_ifs <;> simp_all

theorem pos_of_validate {control : StepControl ℝ} (h : control.validate = .ok ()) :
    0 < control.dt ∧ 1 < control.reduction := by
  obtain ⟨hdt, -, -, hreduction⟩ := validate_eq_ok_iff.1 h
  exact ⟨hdt, hreduction⟩

end StepControl

namespace Run

variable {σ : Type} {start final : ℝ}

namespace Plan

variable (stepper : Steppable σ ℝ) (observer : Observer σ ℝ)

theorem toTime_onGrid (policy : Policy σ ℝ ℝ) (final : ℝ) :
    (toTime stepper observer policy final).OnGrid final id where
  extent := rfl
  asks := rfl
  first _ time size hahead hcheck :=
    ⟨hcheck, fits_clamp (pos_of_checkDt hcheck) hahead, (arrival_clamp time size final).symm⟩
  again _ _ _ _ _ _ _ hagain := nomatch hagain

theorem retrying_onGrid (control : Policy σ ℝ (StepControl ℝ)) (final : ℝ) :
    (retrying stepper observer control (.upTo final)).OnGrid final (·.dt) where
  extent := rfl
  asks := rfl
  first _ _ _ hahead hcheck :=
    ⟨hcheck, fits_clamp (StepControl.pos_of_validate hcheck).1 hahead, rfl⟩
  again _ _ answer _ _ _ h hagain := by
    have hfactor := (StepControl.pos_of_validate h.checked).2
    rw [of_reduce _ hagain]
    exact ⟨h.checked, h.fits.reduced hfactor, rfl⟩

end Plan

/-- What a run to a target time asks, attempts and shows, with prescribed time
steps and with retries.  The trace is one of the run itself, which ends as it
does untraced. -/
theorem target_time_grid [Journal ℝ σ] (stepper : Steppable σ ℝ) (observer : Observer σ ℝ)
    (h : start ≤ final) (fuel : Nat) (live : Vec ℝ) (env : σ) :
    (∀ policy : Policy σ ℝ ℝ,
      let run := toTime fuel stepper policy observer start final live env
      let traced := toTime fuel (stepper.traced ℝ) policy.traced (observer.traced ℝ) start final
        live ([], env)
      (traced.1, traced.2.2) = run ∧ KeepsGrid start final live id traced.2.1 run.1) ∧
    ∀ control : Policy σ ℝ (StepControl ℝ),
      let run := toTimeRetrying fuel stepper control observer start final live env
      let traced := toTimeRetrying fuel (stepper.traced _) control.traced (observer.traced _) start
        final live ([], env)
      (traced.1, traced.2.2) = run ∧ KeepsGrid start final live (·.dt) traced.2.1 run.1 := by
  have hinterval := checkInterval_of_le h
  constructor
  · intro policy run traced
    have hmirror : (traced.1, traced.2.2) = run :=
      (toTime_traced stepper observer live policy fuel start final).eq ([], env)
    have hended := (toTime_ended start live env stepper observer policy hinterval fuel).holds
      ([], env) rfl
    rw [← hmirror]
    exact ⟨rfl, hended.keepsGrid (Plan.toTime_onGrid ..) h⟩
  · intro control run traced
    have hmirror : (traced.1, traced.2.2) = run :=
      (toTimeRetrying_traced stepper observer live control fuel start final).eq ([], env)
    have hended := (toTimeRetrying_ended start live env stepper observer control hinterval
      fuel).holds ([], env) rfl
    rw [← hmirror]
    exact ⟨rfl, hended.keepsGrid (Plan.retrying_onGrid ..) h⟩

/-! ## Completed steps -/

section Steps

variable {stepper : Steppable σ ℝ} {observer : Observer σ ℝ} {time dt next : ℝ}
  {live value : Vec ℝ} {env asked tried : σ} {step : Nat} (fuel : Nat)

/-- What a completed step adds to the trace of a run. -/
theorem toTimeFrom_accepted {policy : Policy σ ℝ ℝ} {size : ℝ} (hahead : endAhead time final)
    (hask : policy (step + 1) time env = (size, asked)) (hcheck : checkDt size (step + 1) = .ok ())
    (hdt : clamp time size final = dt) (hnext : arrival time dt final = next)
    (hdone : stepper.step live time dt (step + 1) asked = (.done value, tried))
    (trace : Trace σ ℝ ℝ) :
    toTimeFrom (stepper.traced ℝ) policy.traced (observer.traced ℝ) final (fuel + 1) step time live
        (trace, env) =
      toTimeFrom (stepper.traced ℝ) policy.traced (observer.traced ℝ) final fuel (step + 1) next
        value
        (trace ++ [.asked (step + 1) time size,
            .attempted (stepper.trial live time dt (step + 1) asked),
            .observed (step + 1) next value],
          (observer (step + 1) next value tried).2) := by
  have harrives : (if reachesEnd time size final then final else time + size) = next := by
    rw [← arrival_clamp, hdt, hnext]
  rw [toTimeFrom, if_pos hahead]
  simp only [bind_apply, Policy.traced, Steppable.traced, Observer.traced, logging, hask, hcheck,
    hdt, hdone, Outcome.done, harrives, Steppable.trial, List.append_assoc, List.cons_append,
    List.nil_append]

variable [Journal ℝ σ]

section Attempts

variable {control : StepControl ℝ} (trace : Trace σ ℝ (StepControl ℝ))

theorem retryFrom_accepted (hdone : stepper.step live time dt step env = (.done value, tried)) :
    retryFrom (stepper.traced _) control time step (fuel + 1) dt live (trace, env) =
      (⟨value, .finished dt⟩, trace ++ [.attempted (stepper.trial live time dt step env)],
        tried) := by
  simp only [retryFrom, bind_apply, Steppable.traced, logging, hdone, Outcome.done, Steppable.trial]
  rfl

theorem retryFrom_repeated {cause : Failure ℝ}
    (hfailed : stepper.step live time dt step env = (⟨value, .failed cause⟩, tried))
    (hcause : cause.isTimeStepFailure) (hlarge : ¬dt / control.reduction < control.minimum) :
    retryFrom (stepper.traced _) control time step (fuel + 1) dt live (trace, env) =
      retryFrom (stepper.traced _) control time step fuel (dt / control.reduction) value
        (trace ++ [.attempted (stepper.trial live time dt step env)],
          (note (.retrying step dt (dt / control.reduction)) tried).2) := by
  simp only [retryFrom, bind_apply, Steppable.traced, logging, hfailed, Steppable.trial,
    if_pos hcause, if_neg hlarge]
  rfl

end Attempts

theorem toTimeRetryingFrom_accepted {control : Policy σ ℝ (StepControl ℝ)} {answer : StepControl ℝ}
    {retries : Nat} (hahead : endAhead time final)
    (hask : control (step + 1) time env = (answer, asked)) (hvalid : answer.validate = .ok ())
    {size : ℝ} (hsize : clamp time answer.dt final = size) (hnext : arrival time dt final = next)
    {trace trials : Trace σ ℝ (StepControl ℝ)}
    (hattempts : retryFrom (stepper.traced _) answer time (step + 1) retries size live
        (trace ++ [.asked (step + 1) time answer], asked) =
      (⟨value, .finished dt⟩, trace ++ [.asked (step + 1) time answer] ++ trials, tried)) :
    toTimeRetryingFrom retries (stepper.traced _) control.traced (observer.traced _) final
        (fuel + 1) step time live (trace, env) =
      toTimeRetryingFrom retries (stepper.traced _) control.traced (observer.traced _) final fuel
        (step + 1) next value
        (trace ++ [.asked (step + 1) time answer] ++ trials ++ [.observed (step + 1) next value],
          (observer (step + 1) next value tried).2) := by
  rw [toTimeRetryingFrom, if_pos hahead]
  simp only [stepRetrying, bind_apply, Policy.traced, Observer.traced, logging, hask, hvalid,
    hsize, hattempts, hnext]

end Steps

/-! ## A run with a retry -/

/-- A stepper that completes the steps of half a unit of time or less, and changes nothing. -/
noncomputable def cautious : Steppable Unit ℝ where
  order := 1
  step live _ dt step :=
    if dt ≤ 1 / 2 then pure (.done live)
    else pure ⟨live, .failed (.timeStep step dt (.velocity "out of range"))⟩

/-- A control that asks for a whole unit of time. -/
noncomputable def whole : StepControl ℝ :=
  ⟨1, 1 / 2, 2⟩

/-- Gives the same answer about every step. -/
def always {β : Type} (answer : β) : Policy Unit ℝ β :=
  fun _ _ => pure answer

def silent : Observer Unit ℝ :=
  fun _ _ _ => pure ()

section Cautious

variable {time : ℝ} {step : Nat} (fuel : Nat) (live : Vec ℝ)

theorem step_cautious_half (env : Unit) :
    cautious.step live time (1 / 2) step env = (.done live, env) := by
  simp only [cautious, if_pos le_rfl]
  rfl

theorem step_cautious_whole (env : Unit) :
    cautious.step live time 1 step env =
      (⟨live, .failed (.timeStep step 1 (.velocity "out of range"))⟩, env) := by
  have hlong : ¬(1 : ℝ) ≤ 1 / 2 := by norm_num
  simp only [cautious, if_neg hlong]
  rfl

theorem retryFrom_cautious_half (trace : Trace Unit ℝ (StepControl ℝ)) :
    retryFrom (cautious.traced _) whole time step (fuel + 1) (1 / 2) live (trace, ()) =
      (⟨live, .finished (1 / 2)⟩,
        trace ++ [.attempted (cautious.trial live time (1 / 2) step ())], ()) :=
  retryFrom_accepted fuel trace (step_cautious_half live ())

theorem retryFrom_cautious_whole (trace : Trace Unit ℝ (StepControl ℝ)) :
    retryFrom (cautious.traced _) whole time step (fuel + 2) 1 live (trace, ()) =
      (⟨live, .finished (1 / 2)⟩,
        trace ++ [.attempted (cautious.trial live time 1 step ()),
          .attempted (cautious.trial live time (1 / 2) step ())], ()) := by
  have hlarge : ¬(1 : ℝ) / whole.reduction < whole.minimum := by norm_num [whole]
  have hreduced : (1 : ℝ) / whole.reduction = 1 / 2 := rfl
  rw [retryFrom_repeated (fuel + 1) trace (step_cautious_whole live ()) rfl hlarge, hreduced]
  exact (retryFrom_cautious_half fuel live _).trans (by rw [List.append_assoc]; rfl)

/-- From `0` to `1` in two halves. -/
theorem grid_of_halves :
    (endAhead (0 : ℝ) 1 ∧ endAhead (1 / 2 : ℝ) 1 ∧ ¬endAhead (1 : ℝ) 1) ∧
      arrival 0 (1 / 2) (1 : ℝ) = 1 / 2 ∧ arrival (1 / 2) (1 / 2) (1 : ℝ) = 1 := by
  have htol : tolerance (1 : ℝ) = 1e-12 := by norm_num [tolerance_real]
  simp only [endAhead_iff, arrival, Scalar.abs_real, htol]
  norm_num

theorem clamp_halves :
    clamp 0 (1 / 2) (1 : ℝ) = 1 / 2 ∧ clamp (1 / 2) (1 / 2) (1 : ℝ) = 1 / 2 ∧
      clamp 0 1 (1 : ℝ) = 1 ∧ clamp (1 / 2) 1 (1 : ℝ) = 1 / 2 := by
  have htol : tolerance (1 : ℝ) = 1e-12 := by norm_num [tolerance_real]
  simp only [clamp, reachesEnd_iff, htol]
  norm_num

/-- Two steps of half a unit, as they are asked for. -/
theorem toTime_cautious :
    toTime 3 (cautious.traced ℝ) (always (1 / 2)).traced (silent.traced ℝ) 0 1 live ([], ()) =
      (⟨live, .finished 2⟩,
        [.observed 0 0 live,
          .asked 1 0 (1 / 2), .attempted (cautious.trial live 0 (1 / 2) 1 ()),
          .observed 1 (1 / 2) live,
          .asked 2 (1 / 2) (1 / 2), .attempted (cautious.trial live (1 / 2) (1 / 2) 2 ()),
          .observed 2 1 live], ()) := by
  have hinterval : checkInterval (0 : ℝ) 1 = .ok () := checkInterval_of_le zero_le_one
  have hcheck (step : Nat) : checkDt (1 / 2 : ℝ) step = .ok () := by simp [checkDt]
  obtain ⟨⟨hfirst, hsecond, hend⟩, hmiddle, hlast⟩ := grid_of_halves
  obtain ⟨hhalf, hrest, -⟩ := clamp_halves
  have hasked (step : Nat) (time : ℝ) : always (1 / 2 : ℝ) step time () = (1 / 2, ()) := rfl
  have hbegun : silent.traced ℝ 0 0 live ([], ()) = ((), [.observed 0 0 live], ()) := rfl
  simp only [toTime, hinterval, bind_apply, hbegun]
  rw [toTimeFrom_accepted 2 hfirst (hasked ..) (hcheck 1) hhalf hmiddle (step_cautious_half ..),
    toTimeFrom_accepted 1 hsecond (hasked ..) (hcheck 2) hrest hlast (step_cautious_half ..),
    toTimeFrom, if_neg hend]
  rfl

/-- Two steps of half a unit, the first after an attempt at a whole one. -/
theorem toTimeRetrying_cautious :
    toTimeRetrying 3 (cautious.traced _) (always whole).traced (silent.traced _) 0 1 live ([], ()) =
      (⟨live, .finished 2⟩,
        [.observed 0 0 live,
          .asked 1 0 whole, .attempted (cautious.trial live 0 1 1 ()),
          .attempted (cautious.trial live 0 (1 / 2) 1 ()), .observed 1 (1 / 2) live,
          .asked 2 (1 / 2) whole, .attempted (cautious.trial live (1 / 2) (1 / 2) 2 ()),
          .observed 2 1 live], ()) := by
  have hinterval : checkInterval (0 : ℝ) 1 = .ok () := checkInterval_of_le zero_le_one
  have hvalid : whole.validate = .ok () := by norm_num [StepControl.validate, whole]
  obtain ⟨⟨hfirst, hsecond, hend⟩, hmiddle, hlast⟩ := grid_of_halves
  have hwhole : clamp 0 whole.dt 1 = 1 := clamp_halves.2.2.1
  have hrest : clamp (1 / 2) whole.dt 1 = 1 / 2 := clamp_halves.2.2.2
  have hasked (step : Nat) (time : ℝ) : always whole step time () = (whole, ()) := rfl
  have hbegun : silent.traced (StepControl ℝ) 0 0 live ([], ()) =
      ((), [.observed 0 0 live], ()) := rfl
  simp only [toTimeRetrying, hinterval, bind_apply, hbegun]
  rw [toTimeRetryingFrom_accepted 2 hfirst (hasked ..) hvalid hwhole hmiddle
      (retryFrom_cautious_whole 1 live _),
    toTimeRetryingFrom_accepted 1 hsecond (hasked ..) hvalid hrest hlast
      (retryFrom_cautious_half 2 live _),
    toTimeRetryingFrom, if_neg hend]
  rfl

/-- A run of several steps, and one in which a step fails first. -/
theorem target_time_grid_of_cautious :
    let prescribed := toTime 3 (cautious.traced ℝ) (always (1 / 2)).traced (silent.traced ℝ) 0 1 #[]
      ([], ())
    let retrying := toTimeRetrying 3 (cautious.traced _) (always whole).traced (silent.traced _) 0 1
      #[] ([], ())
    (0 : ℝ) ≤ 1 ∧
      KeepsGrid 0 1 #[] id prescribed.2.1 ⟨#[], .finished 2⟩ ∧
      .attempted (cautious.trial #[] 0 1 1 ()) ∈ retrying.2.1 ∧
      ¬(cautious.trial #[] 0 1 1 ()).outcome.ending.isDone ∧
      KeepsGrid 0 1 #[] (·.dt) retrying.2.1 ⟨#[], .finished 2⟩ := by
  intro prescribed retrying
  have hprescribed : prescribed.1 = ⟨#[], .finished 2⟩ := congrArg Prod.fst (toTime_cautious #[])
  have hretrying : retrying.1 = ⟨#[], .finished 2⟩ :=
    congrArg Prod.fst (toTimeRetrying_cautious #[])
  obtain ⟨hfirst, hsecond⟩ := target_time_grid cautious silent zero_le_one 3 #[] ()
  obtain ⟨hmirror, hgrid⟩ := hfirst (always (1 / 2))
  obtain ⟨hmirror', hgrid'⟩ := hsecond (always whole)
  rw [← hmirror] at hgrid
  rw [← hmirror'] at hgrid'
  refine ⟨zero_le_one, hprescribed ▸ hgrid, ?_, ?_, hretrying ▸ hgrid'⟩
  · have htrace : retrying.2.1 = _ := congrArg (·.2.1) (toTimeRetrying_cautious #[])
    simp [htrace]
  · simp [Steppable.trial, step_cautious_whole, Ending.isDone]

end Cautious

end Run

end TimeStepping
