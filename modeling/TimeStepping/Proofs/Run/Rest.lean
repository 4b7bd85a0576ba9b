import TimeStepping.Proofs.Run.Course

/-!
# Runs at rest

A stepper that ends every step where it began, with a condition on its environment kept,
holds a run in place: every attempt is completed at once, and every state that is shown
is the initial one.  The course of a run is the only induction, `Course.atRest`; that a
run of a given number of steps also comes to its end is read off its loop.
-/

namespace TimeStepping

variable {σ α β γ : Type}

/-- Every step from `y` ends at `y`, and keeps `P`. -/
structure Steppable.RestsAt (P : σ → Prop) (y : Vec α) (stepper : Steppable σ α) : Prop where
  step (time dt : α) (step : Nat) :
    Ensures P (stepper.step y time dt (step + 1)) fun outcome env => outcome = .done y ∧ P env

/-- The deed shows nothing but `y`, or is an attempt that is completed at `y`, between
environments with `P`. -/
def Deed.AtRest (P : σ → Prop) (y : Vec α) : Deed σ α β → Prop
  | .asked .. => True
  | .attempted trial =>
      trial.live = y ∧ trial.outcome = .done y ∧ P trial.before ∧ P trial.after
  | .observed _ _ live => live = y

namespace Run

/-- The callbacks keep `P`, and their answers are accepted. -/
structure Plan.RestsAt (P : σ → Prop) (y : Vec α) (plan : Plan σ α β γ) : Prop where
  stepper : plan.stepper.RestsAt P y
  policy (step : Nat) (time : α) : Ensures P (plan.policy step time) fun _ => P
  accepts (step : Nat) (time : α) (env : σ) :
    plan.check step (plan.policy step time env).1 = .ok ()
  observer (step : Nat) (time : α) (live : Vec α) :
    Ensures P (plan.observer step time live) fun _ => P

/-- What a run does that stays at `y`.  The trace is that of the run itself. -/
structure StandsStill (P : σ → Prop) (y : Vec α) (traced : StateM (Trace σ α β × σ) (Run α γ))
    (plain : StateM σ (Run α γ)) (env : σ) : Prop where
  mirrors : ((traced ([], env)).1, (traced ([], env)).2.2) = plain env
  deeds : ∀ deed ∈ (traced ([], env)).2.1, deed.AtRest P y
  live : (plain env).1.live = y
  kept : P (plain env).2
  ending : (∃ result, (plain env).1.ending = .finished result) ∨
    (plain env).1.ending = .unfinished

/-! ## The course of a run at rest -/

section Courses

variable {plan : Plan σ α β γ} {P : σ → Prop} {y : Vec α} {start : α} {env₀ : σ}
  {trace : Trace σ α β} {here : Position σ α} {turn : Turn α β}

theorem Plan.RestsAt.trial (hplan : plan.RestsAt P y) (hlive : here.live = y) (henv : P here.env)
    (dt : α) : (plan.trial here dt).outcome = .done y ∧ P (plan.trial here dt).after := by
  rw [Plan.trial, Steppable.trial, hlive]
  exact (hplan.stepper.step here.time dt here.step).holds here.env henv

variable [Journal α σ]

theorem Course.atRest (hplan : plan.RestsAt P y) (hstart : P env₀)
    (h : Course plan start y env₀ trace here turn) :
    (∀ deed ∈ trace, deed.AtRest P y) ∧ here.live = y ∧ P here.env := by
  induction h with
  | opened => exact ⟨by simp [Deed.AtRest], rfl, (hplan.observer 0 start y).holds env₀ hstart⟩
  | unasked before hahead h ih => exact ih
  | @asked trace here before hahead h hcheck ih =>
      obtain ⟨hdeeds, hlive, henv⟩ := ih
      refine ⟨?_, hlive, (hplan.policy _ _).holds here.env henv⟩
      exact List.forall_mem_append.2 ⟨hdeeds, List.forall_mem_singleton.2 trivial⟩
  | @retried trace here answer dt dt' cause before hfailed hagain ih =>
      -- no attempt is made again, since none fails
      obtain ⟨-, hlive, henv⟩ := ih
      rw [(hplan.trial hlive henv dt).1] at hfailed
      cases hfailed
  | @accepted trace here answer dt before hdone ih =>
      obtain ⟨hdeeds, hlive, henv⟩ := ih
      obtain ⟨houtcome, hafter⟩ := hplan.trial hlive henv dt
      refine ⟨?_, congrArg Outcome.value houtcome, hafter⟩
      have hdeed : Deed.AtRest P y (.attempted (plan.trial here dt) : Deed σ α β) :=
        ⟨hlive, houtcome, henv, hafter⟩
      exact List.forall_mem_append.2 ⟨hdeeds, List.forall_mem_singleton.2 hdeed⟩
  | @observed trace here answer dt before ih =>
      obtain ⟨hdeeds, hlive, henv⟩ := ih
      refine ⟨?_, hlive, (hplan.observer _ _ _).holds here.env henv⟩
      exact List.forall_mem_append.2 ⟨hdeeds, List.forall_mem_singleton.2 hlive⟩

theorem Ended.atRest {live : Vec α} {env : σ} {ending : RunEnding α γ} (hplan : plan.RestsAt P y)
    (hstart : P env₀) (h : Ended plan start y env₀ trace live env ending) :
    (∀ deed ∈ trace, deed.AtRest P y) ∧ live = y ∧ P env ∧
      ((∃ result, ending = .finished result) ∨ ending = .unfinished) := by
  cases h with
  | finished before hlast =>
      obtain ⟨hdeeds, hlive, henv⟩ := before.atRest hplan hstart
      exact ⟨hdeeds, hlive, henv, .inl ⟨_, rfl⟩⟩
  | @refused trace here cause before hahead hcheck =>
      have haccepts : plan.check (here.step + 1) (plan.ask here).1 = .ok () :=
        hplan.accepts ..
      rw [haccepts] at hcheck
      cases hcheck
  | @failed trace here answer dt raised surfaced before hfailed hagain =>
      obtain ⟨-, hlive, henv⟩ := before.atRest hplan hstart
      rw [(hplan.trial hlive henv dt).1] at hfailed
      cases hfailed
  | @fault trace here answer dt cause before hfault =>
      obtain ⟨-, hlive, henv⟩ := before.atRest hplan hstart
      rw [(hplan.trial hlive henv dt).1] at hfault
      cases hfault
  | unfinished before hturn =>
      obtain ⟨hdeeds, hlive, henv⟩ := before.atRest hplan hstart
      exact ⟨hdeeds, hlive, henv, .inr rfl⟩

theorem standsStill_of_ended {traced : StateM (Trace σ α β × σ) (Run α γ)}
    {plain : StateM σ (Run α γ)} (hmirrors : ActsAs traced plain) (hplan : plan.RestsAt P y)
    (hstart : P env₀)
    (hended : EndedAs plan start y env₀ (traced ([], env₀)).1 (traced ([], env₀)).2) :
    StandsStill P y traced plain env₀ := by
  obtain ⟨hdeeds, hlive, henv, hending⟩ := Ended.atRest hplan hstart hended
  have hsame := hmirrors.eq ([], env₀)
  refine ⟨hsame, hdeeds, ?_, ?_, ?_⟩
  · rwa [← hsame]
  · rwa [← hsame]
  · rwa [← hsame]

end Courses

/-! ## The four runs -/

variable [Scalar α] {P : σ → Prop} {y : Vec α} {stepper : Steppable σ α} {observer : Observer σ α}
  (hstepper : stepper.RestsAt P y)
  (hobserver : ∀ step time live, Ensures P (observer step time live) fun _ => P)

include hstepper hobserver

section Prescribed

theorem stepsFrom_finishes (start dt : α) (remaining step : Nat) (time : α) :
    Ensures P (stepsFrom stepper observer start dt remaining step time y) fun run _ =>
      ∃ result, run = ⟨y, .finished result⟩ := by
  induction remaining generalizing step time with
  | zero => exact .pure fun _ _ => ⟨time, rfl⟩
  | succ remaining ih =>
      refine (hstepper.step time dt step).bind fun outcome => ⟨?_⟩
      rintro env ⟨rfl, henv⟩
      exact ((hobserver (step + 1) _ y).bind fun _ => ih ..).holds env henv

theorem steps_finishes (start : α) {dt : α} (hdt : TimeGrid.checkDt dt 1 = .ok ()) (count : Nat) :
    Ensures P (steps stepper observer start dt count y) fun run _ =>
      ∃ result, run = ⟨y, .finished result⟩ := by
  unfold steps
  rw [hdt]
  exact (hobserver 0 start y).bind fun _ => stepsFrom_finishes hstepper hobserver ..

theorem steps_standsStill [Journal α σ] (start : α) {dt : α} (hdt : TimeGrid.checkDt dt 1 = .ok ())
    (count : Nat) {env : σ} (henv : P env) :
    StandsStill P y (steps (stepper.traced Unit) (observer.traced Unit) start dt count y)
      (steps stepper observer start dt count y) env :=
  standsStill_of_ended (steps_traced ..)
    ⟨hstepper, fun _ _ => ⟨fun _ h => h⟩, fun _ _ _ => rfl, hobserver⟩ henv
    ((steps_ended start y env stepper observer hdt count).holds _ rfl)

theorem toTime_standsStill [Journal α σ] {policy : Policy σ α α}
    (hpolicy : ∀ step time, Ensures P (policy step time) fun _ => P)
    (hdt : ∀ step time env, TimeGrid.checkDt (policy step time env).1 step = .ok ()) (fuel : Nat)
    {start final : α} (hinterval : TimeGrid.checkInterval start final = .ok ()) {env : σ}
    (henv : P env) :
    StandsStill P y
      (toTime fuel (stepper.traced α) policy.traced (observer.traced α) start final y)
      (toTime fuel stepper policy observer start final y) env :=
  standsStill_of_ended (toTime_traced ..) ⟨hstepper, hpolicy, hdt, hobserver⟩ henv
    ((toTime_ended start y env stepper observer policy hinterval fuel).holds _ rfl)

end Prescribed

section Retrying

variable [Journal α σ]

omit hobserver in
theorem retryFrom_finishes (control : StepControl α) (time : α) (step fuel : Nat) (dt : α) :
    Ensures P (retryFrom stepper control time (step + 1) (fuel + 1) dt y)
      fun run env => run = ⟨y, .finished dt⟩ ∧ P env := by
  refine (hstepper.step time dt step).bind fun outcome => ⟨?_⟩
  rintro env ⟨rfl, henv⟩
  exact ⟨rfl, henv⟩

omit hobserver in
theorem stepRetrying_finishes (fuel : Nat) (control : StepControl α) (time : α) (step : Nat) :
    Ensures (fun env => control.validate = .ok () ∧ P env)
      (stepRetrying (fuel + 1) stepper control none time (step + 1) y)
      fun run env => run = ⟨y, .finished control.dt⟩ ∧ P env := by
  constructor
  rintro env ⟨hvalid, henv⟩
  unfold stepRetrying
  rw [hvalid]
  exact (retryFrom_finishes hstepper control time step fuel control.dt).holds env henv

variable {control : Policy σ α (StepControl α)}
  (hcontrol : ∀ step time, Ensures P (control step time) fun _ => P)
  (hvalid : ∀ step time env, (control step time env).1.validate = .ok ())

include hcontrol hvalid

theorem stepsRetryingFrom_finishes (fuel remaining step : Nat) (time : α) :
    Ensures P (stepsRetryingFrom (fuel + 1) stepper control observer remaining step time y)
      fun run _ => ∃ result, run = ⟨y, .finished result⟩ := by
  induction remaining generalizing step time with
  | zero => exact .pure fun _ _ => ⟨time, rfl⟩
  | succ remaining ih =>
      have hanswer : Ensures P (control (step + 1) time) fun sizes env =>
          sizes.validate = .ok () ∧ P env :=
        ⟨fun env henv => ⟨hvalid .., (hcontrol _ _).holds env henv⟩⟩
      refine hanswer.bind fun sizes => Ensures.bind
        (stepRetrying_finishes hstepper fuel sizes time step) fun run => ⟨?_⟩
      rintro env ⟨rfl, henv⟩
      exact ((hobserver (step + 1) _ y).bind fun _ => ih ..).holds env henv

theorem stepsRetrying_finishes (fuel : Nat) (start : α) (count : Nat) :
    Ensures P (stepsRetrying (fuel + 1) stepper control observer start count y) fun run _ =>
      ∃ result, run = ⟨y, .finished result⟩ :=
  (hobserver 0 start y).bind fun _ =>
    stepsRetryingFrom_finishes hstepper hobserver hcontrol hvalid ..

theorem stepsRetrying_standsStill (fuel : Nat) (start : α) (count : Nat) {env : σ}
    (henv : P env) :
    StandsStill P y
      (stepsRetrying fuel (stepper.traced _) control.traced (observer.traced _) start count y)
      (stepsRetrying fuel stepper control observer start count y) env :=
  standsStill_of_ended (stepsRetrying_traced ..)
    ⟨hstepper, hcontrol, fun _ _ _ => hvalid .., hobserver⟩ henv
    ((stepsRetrying_ended start y env stepper observer control fuel count).holds _ rfl)

theorem toTimeRetrying_standsStill (fuel : Nat) {start final : α}
    (hinterval : TimeGrid.checkInterval start final = .ok ()) {env : σ} (henv : P env) :
    StandsStill P y
      (toTimeRetrying fuel (stepper.traced _) control.traced (observer.traced _) start final y)
      (toTimeRetrying fuel stepper control observer start final y) env :=
  standsStill_of_ended (toTimeRetrying_traced ..)
    ⟨hstepper, hcontrol, fun _ _ _ => hvalid .., hobserver⟩ henv
    ((toTimeRetrying_ended start y env stepper observer control hinterval fuel).holds _ rfl)

end Retrying

end Run

end TimeStepping
