import TimeStepping.Proofs.Run.Retries
import TimeStepping.Proofs.Run.TargetTime

/-!
# Runs that need no retries

A run with retries in which no attempt fails with a time-step failure does what the
run with prescribed time steps does: its trace, retold with the time steps that its
controls ask for, is the trace of the prescribed run, and both return the same.  The
loops of the two runs are followed side by side.  Because traces only grow, a trace
without such a failure at the end had none at any point before.  Arithmetic is exact.
-/

namespace TimeStepping

open TimeGrid

variable {σ τ α β γ δ δ' ε : Type}

/-- The action only adds to the log. -/
abbrev Grows (action : StateM (List ε × σ) β) : Prop :=
  Logs action fun _ _ => True

theorem Grows.logging (entry : σ → β → σ → ε) (action : StateM σ β) :
    Grows (TimeStepping.logging entry action) :=
  ⟨fun _ => ⟨_, rfl, trivial⟩⟩

theorem Grows.bind {action : StateM (List ε × σ) β} {next : β → StateM (List ε × σ) γ}
    (haction : Grows action) (hnext : ∀ value, Grows (next value)) : Grows (action >>= next) :=
  Logs.bind (R := fun _ _ => True) haction fun value _ _ => hnext value

/-! ## Retelling a trace -/

/-- The deed with `tell` of its answer; a question that nothing is told of is left out. -/
def Deed.retell (tell : β → Option γ) : Deed σ α β → Option (Deed σ α γ)
  | .asked step time answer => (tell answer).map (.asked step time)
  | .attempted trial => some (.attempted trial)
  | .observed step time live => some (.observed step time live)

namespace Trace

def retell (tell : β → Option γ) (trace : Trace σ α β) : Trace σ α γ :=
  trace.filterMap (·.retell tell)

variable {tell : β → Option γ} (trace : Trace σ α β)

theorem retell_concat (deed : Deed σ α β) :
    retell tell (trace ++ [deed]) = retell tell trace ++ (deed.retell tell).toList := by
  rw [retell, List.filterMap_append]
  cases hdeed : deed.retell tell with
  | none => simp [retell, hdeed]
  | some deed' => simp [retell, hdeed]

/-- No attempt failed in a way that calls for a smaller time step. -/
def Untroubled (trace : Trace σ α β) : Prop :=
  ∀ trial, .attempted trial ∈ trace → ∀ cause, trial.outcome.ending = .failed cause →
    cause.isTimeStepFailure = false

theorem Untroubled.of_append {first second : Trace σ α β} (h : Untroubled (first ++ second)) :
    Untroubled first :=
  fun trial htrial => h trial (List.mem_append_left second htrial)

end Trace

/-! ## Following two runs -/

/-- The plain action does what the free one does, provided that the trace the free one
ends with is untroubled; its trace is the one of the free action retold. -/
structure Recounts (tell : β → Option γ) (free : StateM (Trace σ α β × σ) δ)
    (plain : StateM (Trace σ α γ × σ) δ) : Prop where
  grows : Grows free
  same (trace : Trace σ α β) (env : σ) (h : (free (trace, env)).2.1.Untroubled) :
    plain (trace.retell tell, env) =
      ((free (trace, env)).1, (free (trace, env)).2.1.retell tell, (free (trace, env)).2.2)

namespace Recounts

variable {tell : β → Option γ}

theorem pure (value : δ) :
    Recounts tell (pure value : StateM (Trace σ α β × σ) δ) (pure value) :=
  ⟨.pure trivial, fun _ _ _ => rfl⟩

theorem logged {entry : σ → δ' → σ → Deed σ α β} {entry' : σ → δ' → σ → Deed σ α γ}
    {action : StateM σ δ'} {next : δ' → StateM (Trace σ α β × σ) δ}
    {next' : δ' → StateM (Trace σ α γ × σ) δ}
    (hentry : ∀ before value after,
      (entry before value after).retell tell = some (entry' before value after))
    (hnext : ∀ value, Recounts tell (next value) (next' value)) :
    Recounts tell (logging entry action >>= next) (logging entry' action >>= next') := by
  refine ⟨(Grows.logging entry action).bind fun value => (hnext value).grows, ?_⟩
  intro trace env h
  have hrest := (hnext (action env).1).same (trace ++ [entry env (action env).1 (action env).2])
    (action env).2 h
  rwa [Trace.retell_concat, hentry] at hrest

end Recounts

namespace StepControl

theorem checkDt_of_validate {control : StepControl ℝ} (h : control.validate = .ok ())
    (step : Nat) : checkDt control.dt step = .ok () := by
  have hpos := (pos_of_validate h).1
  simp [checkDt, hpos]

end StepControl

namespace Run

/-- The policy that answers with `f` of the answers. -/
def Policy.map (f : β → γ) (policy : Policy σ α β) : Policy σ α γ :=
  fun step time => f <$> policy step time

/-- How the run of a single step ends if its only attempt, with `dt`, has this outcome. -/
def settled (dt : α) (outcome : Outcome α (Vec α)) : Run α α :=
  ⟨outcome.value,
    match outcome.ending with
    | .done => .finished dt
    | .failed cause => .failed cause
    | .fault cause => .fault cause⟩

variable {tell : StepControl ℝ → Option γ} (stepper : Steppable σ ℝ)

theorem recounts_observed {observer : Observer σ α} {tell : β → Option γ} {step : Nat} {time : α}
    {live : Vec α} {next : StateM (Trace σ α β × σ) δ} {next' : StateM (Trace σ α γ × σ) δ}
    (hnext : Recounts tell next next') :
    Recounts tell (do observer.traced β step time live; next)
      (do observer.traced γ step time live; next') :=
  .logged (fun _ _ _ => rfl) fun _ => hnext

theorem recounts_asked {control : Policy σ ℝ (StepControl ℝ)}
    (hvalid : ∀ step time env, (control step time env).1.validate = .ok ()) {step : Nat} {time : ℝ}
    {next : StepControl ℝ → StateM (Trace σ ℝ (StepControl ℝ) × σ) δ}
    {next' : ℝ → StateM (Trace σ ℝ ℝ × σ) δ}
    (hnext : ∀ sizes, sizes.validate = .ok () →
      Recounts (fun sizes => some sizes.dt) (next sizes) (next' sizes.dt)) :
    Recounts (fun sizes => some sizes.dt) (do next (← control.traced step time))
      (do next' (← (control.map (·.dt)).traced step time)) := by
  have hasked : Logs (control.traced step time) fun _ sizes => sizes.validate = .ok () :=
    ⟨fun _ => ⟨_, rfl, hvalid _ _ _⟩⟩
  refine ⟨hasked.bind fun sizes _ h => (hnext sizes h).grows, fun trace env h => ?_⟩
  have hafter : (next (control step time env).1
      (trace ++ [Deed.asked step time (control step time env).1],
        (control step time env).2)).2.1.Untroubled := h
  have hrest := (hnext _ (hvalid step time env)).same _ _ hafter
  rwa [Trace.retell_concat] at hrest

theorem recounts_unasked {sizes : StepControl ℝ} {step : Nat} {time : ℝ}
    {next : StepControl ℝ → StateM (Trace σ ℝ (StepControl ℝ) × σ) δ}
    {plain : StateM (Trace σ ℝ γ × σ) δ}
    (hnext : Recounts (fun _ => none) (next sizes) plain) :
    Recounts (fun _ => none)
      (do next (← Policy.traced (fun _ _ => pure sizes) step time)) plain := by
  have hasked : Logs (Policy.traced (fun _ _ => (pure sizes : StateM σ _)) step time)
      fun _ answer => answer = sizes := ⟨fun _ => ⟨_, rfl, rfl⟩⟩
  refine ⟨hasked.bind fun answer _ h => h ▸ hnext.grows, fun trace env h => ?_⟩
  have hafter : (next sizes (trace ++ [Deed.asked step time sizes], env)).2.1.Untroubled := h
  have hrest := hnext.same _ _ hafter
  have hdropped : (Deed.asked step time sizes : Deed σ ℝ (StepControl ℝ)).retell
      (fun _ => (none : Option γ)) = none := rfl
  rw [Trace.retell_concat, hdropped, Option.toList_none, List.append_nil] at hrest
  exact hrest

theorem step_grows (time : ℝ) (step : Nat) (dt : ℝ) (live : Vec ℝ) :
    Grows ((stepper.traced β).step live time dt step) :=
  ⟨fun _ => ⟨_, rfl, trivial⟩⟩

theorem observe_grows (observer : Observer σ α) (step : Nat) (time : α) (live : Vec α) :
    Grows (observer.traced β step time live) :=
  .logging ..

section Attempts

variable [Journal ℝ σ]

variable (control : StepControl ℝ) (time : ℝ) (step fuel : Nat) (dt : ℝ) (live : Vec ℝ)

/-- One attempt and what follows on it, which is nothing unless the attempt failed in
a way that calls for a smaller time step. -/
theorem retryFrom_succ
    (hgrows : ∀ dt live, Grows (retryFrom (stepper.traced β) control time step fuel dt live)) :
    ∃ follow : Outcome ℝ (Vec ℝ) → StateM (Trace σ ℝ β × σ) (Run ℝ ℝ),
      retryFrom (stepper.traced β) control time step (fuel + 1) dt live =
        (stepper.traced β).step live time dt step >>= follow ∧
      (∀ outcome, Grows (follow outcome)) ∧
      ∀ outcome, (∀ cause, outcome.ending = .failed cause → cause.isTimeStepFailure = false) →
        follow outcome = pure (settled dt outcome) := by
  refine ⟨_, rfl, ?_, ?_⟩
  · rintro ⟨value, ending⟩
    cases ending with
    | done => exact .pure trivial
    | fault cause => exact .pure trivial
    | failed cause =>
        refine .ite ?_ (.pure trivial)
        refine .ite ?_ ?_
        · exact (Logs.note _).silently fun _ => .pure trivial
        · exact (Logs.note _).silently fun _ => hgrows ..
  · rintro ⟨value, ending⟩ h
    cases ending with
    | done => rfl
    | fault cause => rfl
    | failed cause => exact if_neg (by simp [h cause rfl])

theorem retryFrom_grows : Grows (retryFrom (stepper.traced β) control time step fuel dt live) := by
  induction fuel generalizing dt live with
  | zero => exact .pure trivial
  | succ fuel ih =>
      obtain ⟨follow, heq, hgrows, -⟩ := retryFrom_succ stepper control time step fuel dt live ih
      rw [heq]
      exact (step_grows stepper time step dt live).bind hgrows

theorem stepRetrying_grows (limit : Option ℝ) :
    Grows (stepRetrying fuel (stepper.traced β) control limit time step live) := by
  unfold stepRetrying
  cases control.validate with
  | error cause => exact .pure trivial
  | ok _ => exact retryFrom_grows ..

variable {control time step fuel dt live}

theorem recounts_attempted {tell : β → Option γ}
    {next : Run ℝ ℝ → StateM (Trace σ ℝ β × σ) δ}
    {next' : Outcome ℝ (Vec ℝ) → StateM (Trace σ ℝ γ × σ) δ} (hgrows : ∀ run, Grows (next run))
    (hnext : ∀ outcome, Recounts tell (next (settled dt outcome)) (next' outcome)) :
    Recounts tell
      (do next (← retryFrom (stepper.traced β) control time step (fuel + 1) dt live))
      (do next' (← (stepper.traced γ).step live time dt step)) := by
  refine ⟨(retryFrom_grows ..).bind hgrows, fun trace env h => ?_⟩
  obtain ⟨follow, heq, hfollow, hsettled⟩ := retryFrom_succ stepper control time step fuel dt live
    (retryFrom_grows stepper control time step fuel)
  rw [heq, bind_assoc] at h ⊢
  let trial := stepper.trial live time dt step env
  have hfirst : (trace ++ [Deed.attempted trial]).Untroubled := by
    have hrest := (hfollow trial.outcome).bind hgrows
    obtain ⟨more, hmore, -⟩ := hrest.holds (trace ++ [Deed.attempted trial], trial.after)
    exact Trace.Untroubled.of_append (hmore ▸ h)
  have honce : (follow trial.outcome >>= next) = next (settled dt trial.outcome) := by
    rw [hsettled trial.outcome (hfirst trial (by simp)), pure_bind]
  have hafter : (next (settled dt trial.outcome)
      (trace ++ [Deed.attempted trial], trial.after)).2.1.Untroubled := by
    rw [← honce]
    exact h
  have hrest := (hnext trial.outcome).same _ _ hafter
  rw [Trace.retell_concat, ← honce] at hrest
  exact hrest

end Attempts

/-! ## Whole runs -/

variable [Journal ℝ σ] {observer : Observer σ ℝ}

theorem toTimeRetryingFrom_recounts {control : Policy σ ℝ (StepControl ℝ)}
    (hvalid : ∀ step time env, (control step time env).1.validate = .ok ()) (retries : Nat)
    (final : ℝ) (fuel step : Nat) (time : ℝ) (live : Vec ℝ) :
    Recounts (fun sizes => some sizes.dt)
      (toTimeRetryingFrom (retries + 1) (stepper.traced _) control.traced (observer.traced _) final
        fuel step time live)
      (toTimeFrom (stepper.traced ℝ) (control.map (·.dt)).traced (observer.traced ℝ) final
        fuel step time live) := by
  induction fuel generalizing step time live with
  | zero => exact .pure _
  | succ fuel ih =>
      unfold toTimeRetryingFrom toTimeFrom
      split
      · refine recounts_asked hvalid fun sizes hsizes => ?_
        simp only [stepRetrying, hsizes, StepControl.checkDt_of_validate hsizes]
        refine recounts_attempted stepper ?_ ?_
        · rintro ⟨value, ending⟩
          cases ending with
          | finished dt => exact (recounts_observed (ih ..)).grows
          | failed cause => exact .pure trivial
          | fault cause => exact .pure trivial
          | unfinished => exact .pure trivial
        · rintro ⟨value, ending⟩
          cases ending with
          | done =>
              dsimp only [settled]
              rw [arrival_clamp]
              exact recounts_observed (ih ..)
          | failed cause => exact .pure _
          | fault cause => exact .pure _
      · exact .pure _

theorem stepsRetryingFrom_grows (control : Policy σ ℝ (StepControl ℝ)) (fuel remaining step : Nat)
    (time : ℝ) (live : Vec ℝ) :
    Grows (stepsRetryingFrom fuel (stepper.traced _) control.traced (observer.traced _) remaining
      step time live) := by
  induction remaining generalizing step time live with
  | zero => exact .pure trivial
  | succ remaining ih =>
      unfold stepsRetryingFrom
      refine Grows.bind (.logging ..) fun sizes => ?_
      refine Grows.bind (stepRetrying_grows ..) ?_
      rintro ⟨value, ending⟩
      cases ending with
      | finished dt => exact (observe_grows ..).bind fun _ => ih ..
      | failed cause => exact .pure trivial
      | fault cause => exact .pure trivial
      | unfinished => exact .pure trivial

theorem stepsRetryingFrom_recounts {sizes : StepControl ℝ} (hvalid : sizes.validate = .ok ())
    (fuel : Nat) (start : ℝ) (remaining step : Nat) {time : ℝ}
    (htime : time = start + (step : ℝ) * sizes.dt) (live : Vec ℝ) :
    Recounts (fun _ => none)
      (stepsRetryingFrom (fuel + 1) (stepper.traced _) (Policy.traced fun _ _ => pure sizes)
        (observer.traced _) remaining step time live)
      (stepsFrom (stepper.traced Unit) (observer.traced Unit) start sizes.dt remaining step time
        live) := by
  induction remaining generalizing step time live with
  | zero => exact .pure _
  | succ remaining ih =>
      have hnext : start + ((step + 1 : Nat) : ℝ) * sizes.dt = time + sizes.dt := by
        rw [htime]
        push_cast
        ring
      unfold stepsRetryingFrom stepsFrom
      rw [hnext]
      refine recounts_unasked ?_
      simp only [stepRetrying, hvalid]
      refine recounts_attempted stepper ?_ ?_
      · rintro ⟨value, ending⟩
        cases ending with
        | finished dt =>
            exact (observe_grows ..).bind fun _ => stepsRetryingFrom_grows ..
        | failed cause => exact .pure trivial
        | fault cause => exact .pure trivial
        | unfinished => exact .pure trivial
      · rintro ⟨value, ending⟩
        cases ending with
        | done => exact recounts_observed (ih (step + 1) hnext.symm value)
        | failed cause => exact .pure _
        | fault cause => exact .pure _

theorem toTimeRetrying_recounts {control : Policy σ ℝ (StepControl ℝ)}
    (hvalid : ∀ step time env, (control step time env).1.validate = .ok ()) (fuel : Nat)
    (start final : ℝ) (live : Vec ℝ) :
    Recounts (fun sizes => some sizes.dt)
      (toTimeRetrying fuel (stepper.traced _) control.traced (observer.traced _) start final live)
      (toTime fuel (stepper.traced ℝ) (control.map (·.dt)).traced (observer.traced ℝ) start final
        live) := by
  unfold toTimeRetrying toTime
  cases checkInterval start final with
  | error cause => exact .pure _
  | ok _ =>
      refine recounts_observed ?_
      cases fuel with
      | zero => exact .pure _
      | succ retries => exact toTimeRetryingFrom_recounts stepper hvalid ..

theorem stepsRetrying_recounts {sizes : StepControl ℝ} (hvalid : sizes.validate = .ok ())
    (fuel : Nat) (start : ℝ) (count : Nat) (live : Vec ℝ) :
    Recounts (fun _ => none)
      (stepsRetrying (fuel + 1) (stepper.traced _) (Policy.traced fun _ _ => pure sizes)
        (observer.traced _) start count live)
      (steps (stepper.traced Unit) (observer.traced Unit) start sizes.dt count live) := by
  unfold stepsRetrying steps
  rw [StepControl.checkDt_of_validate hvalid]
  exact recounts_observed (stepsRetryingFrom_recounts stepper hvalid fuel start count 0
    (by simp) live)

variable (observer)

/-- Recovery is free when nothing fails.  If no attempt of a run with retries fails with
a time-step failure, the run with prescribed time steps, to the same target time with
the time steps that the controls ask for, or over the same number of steps with the
time step of a constant control, makes the same attempts, observations and questions
and returns the same.  The `fuel` of one step allows at least one attempt. -/
theorem recovery_is_free (start : ℝ) (live : Vec ℝ) (env : σ) :
    (∀ control : Policy σ ℝ (StepControl ℝ),
      (∀ step time env, (control step time env).1.validate = .ok ()) →
      ∀ (fuel : Nat) (final : ℝ),
        let free := toTimeRetrying fuel (stepper.traced _) control.traced (observer.traced _) start
          final live ([], env)
        free.2.1.Untroubled →
          toTime fuel (stepper.traced ℝ) (control.map (·.dt)).traced (observer.traced ℝ) start
              final live ([], env) =
            (free.1, free.2.1.retell fun sizes => some sizes.dt, free.2.2) ∧
          toTime fuel stepper (control.map (·.dt)) observer start final live env =
            toTimeRetrying fuel stepper control observer start final live env) ∧
    ∀ sizes : StepControl ℝ, sizes.validate = .ok () → ∀ fuel count : Nat,
      let constant : Policy σ ℝ (StepControl ℝ) := fun _ _ => pure sizes
      let free := stepsRetrying (fuel + 1) (stepper.traced _) constant.traced (observer.traced _)
        start count live ([], env)
      free.2.1.Untroubled →
        steps (stepper.traced Unit) (observer.traced Unit) start sizes.dt count live ([], env) =
          (free.1, free.2.1.retell fun _ => none, free.2.2) ∧
        steps stepper observer start sizes.dt count live env =
          stepsRetrying (fuel + 1) stepper constant observer start count live env := by
  constructor
  · intro control hvalid fuel final free hfree
    have hsame := (toTimeRetrying_recounts stepper hvalid fuel start final live).same [] env hfree
    have hplain := (toTime_traced stepper observer live (control.map (·.dt)) fuel start final).eq
      ([], env)
    have hretrying := (toTimeRetrying_traced stepper observer live control fuel start final).eq
      ([], env)
    refine ⟨hsame, ?_⟩
    rw [← hplain, ← hretrying]
    exact congrArg (fun run => (run.1, run.2.2)) hsame
  · intro sizes hvalid fuel count constant free hfree
    have hsame := (stepsRetrying_recounts stepper hvalid fuel start count live).same [] env hfree
    have hmirrors : ActsAs
        (steps (stepper.traced Unit) (observer.traced Unit) start sizes.dt count live)
        (steps stepper observer start sizes.dt count live) := steps_traced ..
    have hplain := hmirrors.eq ([], env)
    have hretrying := (stepsRetrying_traced stepper observer live constant (fuel + 1) start
      count).eq ([], env)
    refine ⟨hsame, ?_⟩
    rw [← hplain, ← hretrying]
    exact congrArg (fun run => (run.1, run.2.2)) hsame

/-- The traces of a stepper that never asks for a smaller time step are untroubled. -/
theorem Ended.untroubled {plan : Plan σ ℝ β γ} {start : ℝ} {initial live : Vec ℝ} {env₀ env : σ}
    {trace : Trace σ ℝ β} {ending : RunEnding ℝ γ}
    (hnever : ∀ live time dt step env cause,
      (plan.stepper.step live time dt step env).1.ending = .failed cause →
        cause.isTimeStepFailure = false)
    (h : Ended plan start initial env₀ trace live env ending) : trace.Untroubled := by
  intro trial htrial cause hcause
  rw [h.trials trial htrial] at hcause
  exact hnever _ _ _ _ _ _ hcause

theorem recovery_is_free_idle :
    let constant : Policy Unit ℝ (StepControl ℝ) := always whole
    let idle := Steppable.idle ℝ
    whole.validate = .ok () ∧
      toTime 2 idle (constant.map (·.dt)) silent 0 1 #[] () =
        toTimeRetrying 2 idle constant silent 0 1 #[] () ∧
      steps idle silent 0 whole.dt 3 #[] () = stepsRetrying 1 idle constant silent 0 3 #[] () := by
  intro constant idle
  have hvalid : whole.validate = .ok () := by norm_num [StepControl.validate, whole]
  have hinterval : checkInterval (0 : ℝ) 1 = .ok () := checkInterval_of_le zero_le_one
  have hnever : ∀ live time dt step env cause,
      (idle.step live time dt step env).1.ending = .failed cause →
        cause.isTimeStepFailure = false := by
    intro live time dt step env cause h
    cases h
  have htarget := (toTimeRetrying_ended 0 #[] () idle silent constant hinterval 2).holds _ rfl
  have hcount := (stepsRetrying_ended 0 #[] () idle silent constant 1 3).holds _ rfl
  obtain ⟨hfirst, hsecond⟩ := recovery_is_free idle silent 0 #[] ()
  exact ⟨hvalid, (hfirst constant (fun _ _ _ => hvalid) 2 1 (htarget.untroubled hnever)).2,
    (hsecond whole hvalid 0 3 (hcount.untroubled hnever)).2⟩

end Run

end TimeStepping
