import TimeStepping.Proofs.Exact
import TimeStepping.Proofs.Explicit.Stages
import TimeStepping.Proofs.Systems

/-!
# What an explicit step finds in its buffers

The slopes of an explicit stepper, and the state of the stage it is about to evaluate,
live in buffers that steps leave as they come, half filled after a failure.  Nothing of
it reaches a later step: `ExplicitStepper.attempt_forgets_buffers`.
-/

namespace TimeStepping

variable {σ α : Type}

open ContinuousSystem

namespace ExplicitStepper

variable [Scalar α]

/-! ## The state of a stage, kept in a buffer -/

/-- What is written over the state of the stage before, to evaluate the next one.  The
first stage is evaluated at the live state and leaves the buffer alone; the third one of
the strong-stability preserving scheme is made from the second, which stands there. -/
def stageInPlace (scheme : ExplicitScheme) (y : Vec α) (dt : α) (slopes : List (Vec α))
    (stage : Vec α) : Except Fault (Vec α) :=
  match scheme, slopes with
  | _, [] => .ok stage
  | .ssprk3, [_, k] => do
      Vec.add (Vec.scale (Scalar.ratio 3 4) y) (Vec.scale (Scalar.ratio 1 4) (← moved stage dt k))
  | _, slopes => stageState scheme y dt slopes

def finalInPlace (scheme : ExplicitScheme) (y : Vec α) (dt : α) (slopes : List (Vec α))
    (stage : Vec α) : Except Fault (Vec α) :=
  match scheme, slopes with
  | .ssprk3, [_, _, k] => do
      let third := y.map (· / ((3 : Nat) : α))
      Vec.add third (Vec.scale (Scalar.ratio 2 3) (← moved stage dt k))
  | _, slopes => finalState scheme y dt slopes

/-- The loop over the stages, with one buffer for their states. -/
def evaluateInPlace (system : ContinuousSystem σ α) (scheme : ExplicitScheme) (y : Vec α)
    (time dt : α) :
    (buffers slopes : List (Vec α)) → (stage : Vec α) →
      StateM σ (Outcome α (List (Vec α) × Vec α))
  | [], slopes, stage => pure (.done (slopes, stage))
  | buffer :: buffers, slopes, stage =>
      match stageInPlace scheme y dt slopes stage with
      | .error cause => pure ⟨(slopes ++ buffer :: buffers, stage), .fault cause⟩
      | .ok stage => do
          let state := if slopes.isEmpty then y else stage
          let slope ← system.velocity state (stageTime scheme time dt slopes.length) buffer
          match slope.ending with
          | .done =>
              evaluateInPlace system scheme y time dt buffers (slopes ++ [slope.value]) stage
          | ending => pure ⟨(slopes ++ slope.value :: buffers, stage), ending⟩

/-- A step that also works on a buffer for the states of the stages. -/
def attemptInPlace [Journal α σ] (system : ContinuousSystem σ α) (stepper : ExplicitStepper α)
    (stage live : Vec α) (time dt : α) (step : Nat) :
    StateM σ (Outcome α ((ExplicitStepper α × Vec α) × Vec α)) := do
  note (.stepBegun stepper.scheme.name step time dt)
  let stages ← evaluateInPlace system stepper.scheme live time dt stepper.slopes [] stage
  let after := ({ stepper with slopes := stages.value.1 }, stages.value.2)
  match stages.ending with
  | .done =>
      match finalInPlace stepper.scheme live dt stages.value.1 stages.value.2 with
      | .ok next => pure (.done (after, next))
      | .error cause => pure ⟨(after, live), .fault cause⟩
  | .failed cause => pure ⟨(after, live), .failed (cause.asTimeStepFailure step dt)⟩
  | .fault cause => pure ⟨(after, live), .fault cause⟩

/-- The buffer holds the state that the newest of the slopes was evaluated at, from the
second one on. -/
def Holds (scheme : ExplicitScheme) (y : Vec α) (dt : α) (slopes : List (Vec α))
    (stage : Vec α) : Prop :=
  2 ≤ slopes.length → stageState scheme y dt slopes.dropLast = .ok stage

section InPlace

variable {scheme : ExplicitScheme} {y : Vec α} {dt : α} {slopes : List (Vec α)} {stage : Vec α}

/-- In place or not, the next stage is evaluated at the same state, and its slope keeps
the buffer in step. -/
theorem next_stage (h : Holds scheme y dt slopes stage) :
    (∃ cause, stageInPlace scheme y dt slopes stage = .error cause ∧
      stageState scheme y dt slopes = .error cause) ∨
    ∃ next state, stageInPlace scheme y dt slopes stage = .ok next ∧
      stageState scheme y dt slopes = .ok state ∧ (if slopes.isEmpty then y else next) = state ∧
      ∀ slope, Holds scheme y dt (slopes ++ [slope]) next := by
  cases slopes with
  | nil =>
      have hplace : stageInPlace scheme y dt [] stage = .ok stage := by cases scheme <;> rfl
      have hstate : stageState scheme y dt [] = .ok y := by cases scheme <;> rfl
      exact .inr ⟨stage, y, hplace, hstate, rfl, fun _ hlength => absurd hlength (by simp)⟩
  | cons k slopes =>
      have hsame : stageInPlace scheme y dt (k :: slopes) stage =
          stageState scheme y dt (k :: slopes) := by
        rcases slopes with _ | ⟨k', _ | ⟨k'', slopes⟩⟩
        · cases scheme <;> rfl
        · cases scheme with
          | euler => rfl
          | rungeKutta4 => rfl
          | ssprk3 =>
              have hstage : moved y dt k = .ok stage := h (Nat.le_refl 2)
              rw [stageInPlace, stageState, hstage]
              rfl
        · cases scheme <;> rfl
      rw [hsame]
      cases hstate : stageState scheme y dt (k :: slopes) with
      | error cause => exact .inl ⟨cause, rfl, rfl⟩
      | ok state =>
          refine .inr ⟨state, state, rfl, rfl, rfl, fun slope _ => ?_⟩
          rwa [List.dropLast_concat]

theorem finalInPlace_eq (h : Holds scheme y dt slopes stage) :
    finalInPlace scheme y dt slopes stage = finalState scheme y dt slopes := by
  cases scheme with
  | euler => rfl
  | rungeKutta4 => rfl
  | ssprk3 =>
      rcases slopes with _ | ⟨k₀, _ | ⟨k₁, _ | ⟨k₂, _ | ⟨k₃, rest⟩⟩⟩⟩
      · rfl
      · rfl
      · rfl
      · have hstage : stageState .ssprk3 y dt [k₀, k₁] = .ok stage := h (by simp)
        rw [finalInPlace, finalState, hstage]
        rfl
      · rfl

theorem evaluateInPlace_eq (system : ContinuousSystem σ α) (time : α) (buffers : List (Vec α))
    (h : Holds scheme y dt slopes stage) :
    Parallel (fun env env' => env = env')
      (evaluateInPlace system scheme y time dt buffers slopes stage)
      (evaluateStages system scheme y time dt buffers slopes) fun inPlace stages env env' =>
        env = env' ∧ inPlace.ending = stages.ending ∧ inPlace.value.1 = stages.value ∧
          (stages.ending = .done → Holds scheme y dt stages.value inPlace.value.2) := by
  induction buffers generalizing slopes stage with
  | nil => exact .pure fun _ _ henv => ⟨henv, rfl, rfl, fun _ => h⟩
  | cons buffer buffers ih =>
      unfold evaluateInPlace evaluateStages
      obtain ⟨cause, hplace, hstate⟩ | ⟨next, state, hplace, hstate, hat, hnext⟩ := next_stage h
      · rw [hplace, hstate]
        exact .pure fun _ _ henv => ⟨henv, rfl, rfl, by simp⟩
      · rw [hplace, hstate]
        dsimp only
        rw [hat]
        refine Parallel.bind (Q := fun slope slope' env env' => slope = slope' ∧ env = env') ⟨?_⟩
          fun slope slope' => ⟨?_⟩
        · rintro env _ rfl
          exact ⟨rfl, rfl⟩
        · rintro env _ ⟨rfl, rfl⟩
          cases hending : slope.ending with
          | done => exact (ih (hnext slope.value)).holds env env rfl
          | failed cause => exact ⟨rfl, rfl, rfl, fun hdone => by cases hdone⟩
          | fault cause => exact ⟨rfl, rfl, rfl, fun hdone => by cases hdone⟩

theorem attemptInPlace_eq [Journal α σ] (system : ContinuousSystem σ α)
    (stepper : ExplicitStepper α) (stage live : Vec α) (time dt : α) (step : Nat) :
    Parallel (fun env env' => env = env') (attemptInPlace system stepper stage live time dt step)
      (attempt system stepper live time dt step) fun inPlace outcome env env' =>
        env = env' ∧ inPlace.ending = outcome.ending ∧ inPlace.value.1.1 = outcome.value.1 ∧
          inPlace.value.2 = outcome.value.2 := by
  refine Parallel.bind (Q := fun _ _ env env' => env = env') ⟨?_⟩ fun _ _ => ?_
  · rintro env _ rfl
    rfl
  have hholds : Holds stepper.scheme live dt [] stage := nofun
  refine (evaluateInPlace_eq system time stepper.slopes hholds).bind ?_
  rintro ⟨⟨slopes, stage⟩, ending⟩ ⟨slopes', ending'⟩
  constructor
  rintro env _ ⟨rfl, rfl, rfl, hholds⟩
  cases ending with
  | failed cause => exact ⟨rfl, rfl, rfl, rfl⟩
  | fault cause => exact ⟨rfl, rfl, rfl, rfl⟩
  | done =>
      dsimp only
      rw [finalInPlace_eq (hholds rfl)]
      cases finalState stepper.scheme live dt slopes with
      | ok next => exact ⟨rfl, rfl, rfl, rfl⟩
      | error cause => exact ⟨rfl, rfl, rfl, rfl⟩

end InPlace

/-! ## What is left in the buffers -/

/-- A stepper for the system, after any steps: each may have been completed or not, and
between them the environment may have changed at will. -/
inductive Used [Journal α σ] (system : ContinuousSystem σ α) (scheme : ExplicitScheme) :
    ExplicitStepper α → Prop
  | fresh : Used system scheme (fresh scheme system)
  | attempted {stepper : ExplicitStepper α} (before : Used system scheme stepper) (live : Vec α)
      (time dt : α) (step : Nat) (env : σ) :
      Used system scheme (attempt system stepper live time dt step env).1.value.1

theorem evaluateStages_reused (system : ContinuousSystem σ α) (scheme : ExplicitScheme)
    (y : Vec α) (time dt : α) {buffers slopes : List (Vec α)}
    (hbuffers : ∀ buffer ∈ buffers, system.Reused buffer)
    (hslopes : ∀ slope ∈ slopes, system.Reused slope) :
    Ensures (fun _ => True) (evaluateStages system scheme y time dt buffers slopes)
      fun outcome _ => outcome.value.length = slopes.length + buffers.length ∧
        ∀ buffer ∈ outcome.value, system.Reused buffer := by
  induction buffers generalizing slopes with
  | nil => exact .pure fun _ _ => ⟨rfl, hslopes⟩
  | cons buffer buffers ih =>
      obtain ⟨hbuffer, hbuffers⟩ := List.forall_mem_cons.1 hbuffers
      unfold evaluateStages
      cases stageState scheme y dt slopes with
      | error cause =>
          refine .pure fun _ _ => ⟨List.length_append, ?_⟩
          exact List.forall_mem_append.2 ⟨hslopes, List.forall_mem_cons.2 ⟨hbuffer, hbuffers⟩⟩
      | ok state =>
          refine Ensures.bind (Q := fun slope _ => system.Reused slope.value)
            ⟨fun env _ => hbuffer.left ..⟩ fun slope => ⟨fun env hslope => ?_⟩
          have hleft : ∀ left ∈ slopes ++ slope.value :: buffers, system.Reused left :=
            List.forall_mem_append.2 ⟨hslopes, List.forall_mem_cons.2 ⟨hslope, hbuffers⟩⟩
          cases slope.ending with
          | failed cause => exact ⟨List.length_append, hleft⟩
          | fault cause => exact ⟨List.length_append, hleft⟩
          | done =>
              have hnext : ∀ other ∈ slopes ++ [slope.value], system.Reused other :=
                List.forall_mem_append.2 ⟨hslopes, List.forall_mem_singleton.2 hslope⟩
              obtain ⟨hlength, hreused⟩ := (ih hbuffers hnext).holds env trivial
              refine ⟨hlength.trans ?_, hreused⟩
              rw [List.length_append, List.length_singleton, List.length_cons]
              omega

theorem attempt_reused [Journal α σ] (system : ContinuousSystem σ α)
    {stepper : ExplicitStepper α} (hreused : ∀ buffer ∈ stepper.slopes, system.Reused buffer)
    (live : Vec α) (time dt : α) (step : Nat) :
    Ensures (fun _ => True) (attempt system stepper live time dt step) fun outcome _ =>
      outcome.value.1.scheme = stepper.scheme ∧
        outcome.value.1.slopes.length = stepper.slopes.length ∧
        ∀ buffer ∈ outcome.value.1.slopes, system.Reused buffer := by
  refine (Ensures.note (Q := fun _ _ => True) fun _ _ => trivial).bind fun _ => ?_
  have hnone : ∀ slope ∈ ([] : List (Vec α)), system.Reused slope := nofun
  refine (evaluateStages_reused system stepper.scheme live time dt hreused hnone).bind ?_
  rintro ⟨slopes, ending⟩
  constructor
  rintro env ⟨hlength, hleft⟩
  have hcount : slopes.length = stepper.slopes.length := hlength.trans (Nat.zero_add _)
  cases ending with
  | failed cause => exact ⟨rfl, hcount, hleft⟩
  | fault cause => exact ⟨rfl, hcount, hleft⟩
  | done =>
      dsimp only
      cases finalState stepper.scheme live dt slopes with
      | ok next => exact ⟨rfl, hcount, hleft⟩
      | error cause => exact ⟨rfl, hcount, hleft⟩

theorem Used.reused [Journal α σ] {system : ContinuousSystem σ α} {scheme : ExplicitScheme}
    {stepper : ExplicitStepper α} (h : Used system scheme stepper) :
    stepper.scheme = scheme ∧ stepper.slopes.length = scheme.stages ∧
      ∀ buffer ∈ stepper.slopes, system.Reused buffer := by
  induction h with
  | fresh => exact ⟨rfl, List.length_replicate, fun _ h => List.eq_of_mem_replicate h ▸ .new⟩
  | attempted before live time dt step env ih =>
      obtain ⟨hscheme, hlength, hreused⟩ := ih
      obtain ⟨hscheme', hlength', hreused'⟩ :=
        (attempt_reused system hreused live time dt step).holds env trivial
      exact ⟨hscheme'.trans hscheme, hlength'.trans hlength, hreused'⟩

/-! ## Steps that start alike -/

theorem size_moved {y k state : Vec α} {c : α} (h : moved y c k = .ok state) :
    state.size = y.size :=
  Vec.size_of_combine h

/-- The states of the stages are of the size of the live state. -/
theorem size_stageState {scheme : ExplicitScheme} {y state : Vec α} {dt : α}
    {slopes : List (Vec α)} (h : stageState scheme y dt slopes = .ok state) :
    state.size = y.size := by
  unfold stageState at h
  split at h
  · exact size_moved h
  · exact size_moved h
  · exact size_moved h
  · exact size_moved h
  · obtain ⟨u, -, hrest⟩ := exists_of_bind_ok h
    obtain ⟨v, -, hsum⟩ := exists_of_bind_ok hrest
    have hlast : moved (Vec.scale (Scalar.ratio 3 4) y) (Scalar.ratio 1 4) v = .ok state := hsum
    rw [size_moved hlast, Vec.scale, Array.size_map]
  · cases h
    rfl

section Oblivious

variable {system : ContinuousSystem σ α} {size : Nat} (h : system.Oblivious size)

include h

omit [Scalar α] in
theorem velocity_oblivious {buffer buffer' state : Vec α} (hbuffer : system.Reused buffer)
    (hbuffer' : system.Reused buffer') (hsize : state.size = size) (time : α) :
    Parallel (fun env env' => env = env') (system.velocity state time buffer)
      (system.velocity state time buffer') fun slope slope' env env' =>
        env = env' ∧ slope.ending = slope'.ending ∧
          (slope.ending = .done → slope.value = slope'.value) := by
  constructor
  rintro env _ rfl
  have hending := h.ending hbuffer hsize time env
  refine ⟨(h.env hbuffer hsize ..).trans (h.env hbuffer' hsize ..).symm,
    hending.trans (h.ending hbuffer' hsize ..).symm, fun hdone => ?_⟩
  have hdone' := hending.symm.trans hdone
  exact (h.value hbuffer hsize _ _ hdone').trans (h.value hbuffer' hsize _ _ hdone').symm

theorem evaluateStages_oblivious (scheme : ExplicitScheme) {y : Vec α} (hy : y.size = size)
    (time dt : α) {buffers buffers' : List (Vec α)} (hlength : buffers.length = buffers'.length)
    (hbuffers : ∀ buffer ∈ buffers, system.Reused buffer)
    (hbuffers' : ∀ buffer ∈ buffers', system.Reused buffer) (slopes : List (Vec α)) :
    Parallel (fun env env' => env = env')
      (evaluateStages system scheme y time dt buffers slopes)
      (evaluateStages system scheme y time dt buffers' slopes) fun stages stages' env env' =>
        env = env' ∧ stages.ending = stages'.ending ∧
          (stages.ending = .done → stages.value = stages'.value) := by
  induction buffers generalizing buffers' slopes with
  | nil =>
      obtain rfl := List.length_eq_zero_iff.1 hlength.symm
      exact .pure fun _ _ henv => ⟨henv, rfl, fun _ => rfl⟩
  | cons buffer buffers ih =>
      obtain ⟨buffer', buffers', rfl⟩ := List.exists_cons_of_length_eq_add_one hlength.symm
      obtain ⟨hbuffer, hrest⟩ := List.forall_mem_cons.1 hbuffers
      obtain ⟨hbuffer', hrest'⟩ := List.forall_mem_cons.1 hbuffers'
      unfold evaluateStages
      cases hstate : stageState scheme y dt slopes with
      | error cause => exact .pure fun _ _ henv => ⟨henv, rfl, by simp⟩
      | ok state =>
          have hsize := (size_stageState hstate).trans hy
          refine (velocity_oblivious h hbuffer hbuffer' hsize _).bind ?_
          rintro ⟨slope, ending⟩ ⟨slope', ending'⟩
          constructor
          rintro env _ ⟨rfl, rfl, hslope⟩
          cases ending with
          | failed cause => exact ⟨rfl, rfl, fun hdone => by cases hdone⟩
          | fault cause => exact ⟨rfl, rfl, fun hdone => by cases hdone⟩
          | done =>
              obtain rfl : slope = slope' := hslope rfl
              exact (ih (Nat.succ.inj hlength) hrest hrest' _).holds env env rfl

theorem attempt_oblivious [Journal α σ] {stepper stepper' : ExplicitStepper α}
    (hscheme : stepper.scheme = stepper'.scheme)
    (hlength : stepper.slopes.length = stepper'.slopes.length)
    (hreused : ∀ buffer ∈ stepper.slopes, system.Reused buffer)
    (hreused' : ∀ buffer ∈ stepper'.slopes, system.Reused buffer) {live : Vec α}
    (hlive : live.size = size) (time dt : α) (step : Nat) :
    Parallel (fun env env' : σ => env = env') (attempt system stepper live time dt step)
      (attempt system stepper' live time dt step) fun outcome outcome' env env' =>
        env = env' ∧ outcome.ending = outcome'.ending ∧ outcome.value.2 = outcome'.value.2 := by
  obtain ⟨scheme, slopes⟩ := stepper
  obtain ⟨_, slopes'⟩ := stepper'
  obtain rfl : scheme = _ := hscheme
  refine Parallel.bind (Q := fun _ _ env env' => env = env') ⟨?_⟩ fun _ _ => ?_
  · rintro env _ rfl
    rfl
  refine (evaluateStages_oblivious h scheme hlive time dt hlength hreused hreused' []).bind ?_
  rintro ⟨stages, ending⟩ ⟨stages', ending'⟩
  constructor
  rintro env _ ⟨rfl, rfl, hstages⟩
  cases ending with
  | failed cause => exact ⟨rfl, rfl, rfl⟩
  | fault cause => exact ⟨rfl, rfl, rfl⟩
  | done =>
      obtain rfl : stages = stages' := hstages rfl
      dsimp only
      cases finalState scheme live dt stages with
      | ok next => exact ⟨rfl, rfl, rfl⟩
      | error cause => exact ⟨rfl, rfl, rfl⟩

end Oblivious

/-- A step of a stepper that was used before, whatever came of that, ends like the step
of a new one, with the same live state and the same effects.  The contents of a buffer
for the states of the stages are of no account either.  The stages are evaluated in
order up to the first that is not completed, and if that one failed, so does the step:
with the failure surfaced once, and with the live state it was given. -/
theorem attempt_forgets_buffers [Journal α σ] {system : ContinuousSystem σ α}
    {live : Vec α} (h : system.Oblivious live.size) {scheme : ExplicitScheme}
    {stepper : ExplicitStepper α} (hused : Used system scheme stepper) (time dt : α) (step : Nat)
    (env : σ) :
    let first := attempt system (fresh scheme system) live time dt step env
    let again := attempt system stepper live time dt step env
    let recorded := attempt system.sampled stepper live time dt step ([], env)
    (again.1.ending = first.1.ending ∧ again.1.value.2 = first.1.value.2 ∧ again.2 = first.2) ∧
      (∀ stage,
        let inPlace := attemptInPlace system stepper stage live time dt step env
        inPlace.2 = again.2 ∧ inPlace.1.ending = again.1.ending ∧
          inPlace.1.value.1.1 = again.1.value.1 ∧ inPlace.1.value.2 = again.1.value.2) ∧
      (recorded.1, recorded.2.2) = again ∧
      Ordered scheme live time dt [] recorded.2.1 ∧
      Concluded scheme live dt step recorded.2.1 again.1.ending again.1.value.2 := by
  intro first again recorded
  obtain ⟨hscheme, hlength, hreused⟩ := hused.reused
  have hfresh : Used system scheme (fresh scheme system) := .fresh
  obtain ⟨-, hlength', hreused'⟩ := hfresh.reused
  obtain ⟨henv, hending, hlive⟩ := (attempt_oblivious h hscheme (hlength.trans hlength'.symm)
    hreused hreused' rfl time dt step).holds env env rfl
  have hsame : (recorded.1, recorded.2.2) = again :=
    (attempt_actsAs system.velocity_sampled stepper live time dt step).eq ([], env)
  obtain ⟨samples, hsamples, hordered, hconcluded⟩ :=
    (attempt_samples system (hlength.trans (congrArg _ hscheme.symm)) live time dt step).holds
      ([], env)
  have hlog : recorded.2.1 = samples := hsamples.trans (List.nil_append samples)
  have houtcome : recorded.1 = again.1 := congrArg Prod.fst hsame
  refine ⟨⟨hending, hlive, henv⟩, fun stage => ?_, hsame, ?_, ?_⟩
  · exact (attemptInPlace_eq system stepper stage live time dt step).holds env env rfl
  · rw [hlog, ← hscheme]
    exact hordered
  · rw [hlog, ← hscheme, ← houtcome]
    exact hconcluded

/-! ## A system that is torn off -/

/-- Two unknowns whose evaluations fail after time 0, with half of the slope written. -/
noncomputable def torn : ContinuousSystem Unit ℝ where
  velocityBuffer := Vec.zeros 2
  jacobianBuffer := Mat.zeros 2 2
  velocity state time buffer :=
    if 0 < time then pure ⟨buffer.setIfInBounds 0 7, .failed (.velocity "stage failed")⟩
    else pure (.done (Vec.negate state))
  jacobian _ _ buffer := pure (.done buffer)

theorem torn_velocity_of_pos (state buffer : Vec ℝ) {time : ℝ} (h : 0 < time) (env : Unit) :
    torn.velocity state time buffer env =
      (⟨buffer.setIfInBounds 0 7, .failed (.velocity "stage failed")⟩, env) := by
  simp only [torn, if_pos h]
  rfl

theorem torn_velocity_of_le (state buffer : Vec ℝ) {time : ℝ} (h : time ≤ 0) (env : Unit) :
    torn.velocity state time buffer env = (.done (Vec.negate state), env) := by
  simp only [torn, if_neg h.not_gt]
  rfl

theorem torn_oblivious (size : Nat) : torn.Oblivious size where
  env _ _ _ _ := rfl
  ending {buffer state} _ _ time env := by
    rcases lt_or_ge 0 time with h | h
    · rw [torn_velocity_of_pos _ _ h, torn_velocity_of_pos _ _ h]
    · rw [torn_velocity_of_le _ _ h, torn_velocity_of_le _ _ h]
  value {buffer state} _ _ time env hdone := by
    rcases lt_or_ge 0 time with h | h
    · rw [torn_velocity_of_pos _ _ h] at hdone
      cases hdone
    · rw [torn_velocity_of_le _ _ h, torn_velocity_of_le _ _ h]

/-- A step that is torn off leaves half a slope behind, and the step from time -1 that
follows is that of a new stepper. -/
theorem attempt_forgets_torn :
    let live : Vec ℝ := #[1, 2]
    let stopped := attempt torn (fresh .rungeKutta4 torn) live 1 (1 / 10) 1 ()
    let first := attempt torn (fresh .rungeKutta4 torn) live (-1) (1 / 10) 1 ()
    let again := attempt torn stopped.1.value.1 live (-1) (1 / 10) 1 ()
    stopped.1 = ⟨(⟨.rungeKutta4, #[7, 0] :: List.replicate 3 #[0, 0]⟩, live),
        .failed (.timeStep 1 (1 / 10) (.velocity "stage failed"))⟩ ∧
      again.1.ending = first.1.ending ∧ again.1.value.2 = first.1.value.2 := by
  intro live stopped first again
  have hused : Used torn .rungeKutta4 stopped.1.value.1 := .attempted .fresh ..
  obtain ⟨⟨hending, hlive, -⟩, -⟩ :=
    attempt_forgets_buffers (torn_oblivious live.size) hused (-1) (1 / 10) 1 ()
  have hstages (env : Unit) : evaluateStages torn .rungeKutta4 live 1 (1 / 10)
      (fresh .rungeKutta4 torn).slopes [] env =
        (⟨#[7, 0] :: List.replicate 3 #[0, 0], .failed (.velocity "stage failed")⟩, env) := by
    change (torn.velocity live 1 (Vec.zeros 2) >>= _) env = _
    rw [bind_apply, torn_velocity_of_pos _ _ one_pos]
    rfl
  refine ⟨?_, hending, hlive⟩
  simp only [stopped, attempt, bind_apply]
  rw [show (fresh .rungeKutta4 torn).scheme = .rungeKutta4 from rfl, hstages]
  rfl

end ExplicitStepper

end TimeStepping
