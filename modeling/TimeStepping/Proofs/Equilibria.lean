import TimeStepping.Proofs.Explicit.Tableau
import TimeStepping.Proofs.Run.Fate
import TimeStepping.Proofs.Run.Rest
import TimeStepping.Proofs.Run.TargetTime
import TimeStepping.Proofs.Settings.Validation

/-!
# Equilibria

Where the velocity vanishes at all times, every scheme stays, whatever the time steps
are: the weights of a formula sum to 1, so the residual of a step is zero and a Newton
iteration ends before its first correction, and the stages of an explicit step do not
move.  With `Run/Rest` this carries over to runs: `equilibria_are_kept`.
-/

namespace TimeStepping

variable {σ τ : Type}

/-! ## Systems at rest -/

namespace ContinuousSystem

/-- The velocity vanishes at `y`, at all times. -/
structure RestsAt (system : ContinuousSystem σ ℝ) (y : Vec ℝ) : Prop where
  velocity {buffer : Vec ℝ} (h : system.Reused buffer) (time : ℝ) (env : σ) :
    (system.velocity y time buffer env).1 = .done (.zeros y.size)

variable {system : ContinuousSystem σ ℝ} {y : Vec ℝ}

theorem reused_of_watched {buffer : Vec ℝ} (h : system.watched.Reused buffer) :
    system.Reused buffer := by
  induction h with
  | new => exact .new
  | left before state time env ih => exact ih.left state time env.2

theorem RestsAt.watched (h : system.RestsAt y) : system.watched.RestsAt y :=
  ⟨fun hbuffer time env => h.velocity (reused_of_watched hbuffer) time env.2⟩

theorem RestsAt.beside (h : system.RestsAt y) : (system.beside τ).RestsAt y :=
  ⟨fun hbuffer time env => h.velocity (reused_of_beside hbuffer) time env.2⟩

/-- What an evaluation of the velocity at `y` and a note keep of the environment. -/
structure Undisturbed [Journal ℝ σ] (I : σ → Prop) (system : ContinuousSystem σ ℝ)
    (y : Vec ℝ) : Prop where
  rests : system.RestsAt y
  evaluated {buffer : Vec ℝ} (h : system.Reused buffer) (time : ℝ) (env : σ) (henv : I env) :
    I (system.velocity y time buffer env).2
  noted (event : Event ℝ) (env : σ) (henv : I env) : I (Journal.record event env)

theorem Undisturbed.velocity [Journal ℝ σ] {I : σ → Prop} {buffer : Vec ℝ}
    (h : system.Undisturbed I y) (hbuffer : system.Reused buffer) (time : ℝ) :
    Ensures I (system.velocity y time buffer) fun slope env =>
      slope = .done (.zeros y.size) ∧ I env :=
  ⟨fun env henv => ⟨h.rests.velocity hbuffer time env, h.evaluated hbuffer time env henv⟩⟩

end ContinuousSystem

/-! ## Implicit steps -/

theorem BdfTable.residual_at_rest {table : BdfTable ℝ} {size : Nat}
    (h : ofSize? size = some table) {y : Vec ℝ} {history : List (Vec ℝ)}
    (hlength : history.length = size) (hhistory : ∀ state ∈ history, state = y) (dt : ℝ) :
    table.residual dt y history (.zeros y.size) = .ok (.zeros y.size) := by
  obtain ⟨n, x, rfl⟩ : ∃ n, ∃ x : Fin n → ℝ, y = Vec.ofCoords x :=
    ⟨y.size, Vec.exists_ofCoords rfl⟩
  have hslots : history = (List.replicate size x).map Vec.ofCoords := by
    rw [List.map_replicate, ← hlength]
    exact List.eq_replicate_of_mem hhistory
  have hmix : mix table.alpha (List.replicate size x) = x := by
    rw [mix_replicate (length_alpha h).le, sum_alpha h, one_smul]
  rw [hslots, Vec.size_ofCoords, Vec.zeros_eq_ofCoords, residual_ofCoords, hmix]
  simp

section Implicit

open ContinuousSystem

variable [Journal ℝ σ] {I : σ → Prop} {system : ContinuousSystem σ ℝ} {y : Vec ℝ}

/-- A Newton iteration that starts on a root ends there, at its first residual. -/
theorem Newton.run_of_root {settings : Newton.Settings ℝ} (hsettings : settings.validate = .ok ())
    (linear : LinearSolver ℝ) {equations : AlgebraicSystem σ ℝ} {n : Nat}
    (hresidual : Ensures I (equations.residual y equations.residualBuffer) fun r env =>
      r = .done (.zeros n) ∧ I env)
    (hnote : ∀ (event : Event ℝ) env, I env → I (Journal.record event env)) :
    Ensures I (run settings linear equations y) fun report env =>
      report = ⟨y, 0, .done⟩ ∧ I env := by
  obtain ⟨hlimit, htolerances⟩ := Settings.validate_eq_ok_iff.1 hsettings
  obtain ⟨limit, hlimit⟩ := Nat.exists_eq_succ_of_ne_zero hlimit
  have htolerance : 0 ≤ settings.residualAbs :=
    not_lt.1 (htolerances settings.residualAbs List.mem_cons_self).2
  have hmet : settings.residualMet 0 0 (0 : ℝ) = true := by
    simp [Settings.residualMet, htolerance]
  unfold run
  rw [hlimit]
  refine hresidual.bind fun r => ⟨?_⟩
  rintro env ⟨rfl, henv⟩
  simp only [Outcome.done, Vec.norm_zeros, Scalar.isFinite_real, ↓reduceIte, hmet]
  exact ⟨rfl, hnote _ env henv⟩

variable (h : system.Undisturbed I y)

include h

/-- Over any states that are all `y`, the equation of a step has the root `y`. -/
theorem StepEquation.residual_at_rest {stencil : Stencil ℝ} {table : BdfTable ℝ}
    (htable : BdfTable.ofSize? stencil.size = some table)
    (hslots : ∀ state ∈ stencil.slots, state = y) (point : StepPoint ℝ) :
    Ensures I ((bdf system).residual point stencil y system.velocityBuffer) fun r env =>
      r = .done (.zeros y.size) ∧ I env := by
  constructor
  intro env henv
  obtain ⟨hvelocity, hafter⟩ := (h.velocity .new point.time).holds env henv
  rw [residual_of_velocity htable hvelocity,
    BdfTable.residual_at_rest htable stencil.length_slots hslots]
  exact ⟨rfl, hafter⟩

end Implicit

namespace Chain

/-- Every state of every stencil is `y`, and each stencil is of a size there is a formula
for. -/
structure Filled (y : Vec ℝ) (chain : Chain ℝ) : Prop where
  slots : ∀ member ∈ chain, ∀ state ∈ member.stencil.slots, state = y
  tables : ∀ member ∈ chain,
    ∃ table : BdfTable ℝ, BdfTable.ofSize? member.stencil.size = some table

variable {y : Vec ℝ} {member : Member ℝ} {chain auxiliary : Chain ℝ}

theorem filled_cons : Filled y (member :: auxiliary) ↔
    ((∀ state ∈ member.stencil.slots, state = y) ∧
      ∃ table : BdfTable ℝ, BdfTable.ofSize? member.stencil.size = some table) ∧
      Filled y auxiliary := by
  constructor
  · rintro ⟨hslots, htables⟩
    obtain ⟨hfirst, hrest⟩ := List.forall_mem_cons.1 hslots
    obtain ⟨htable, hothers⟩ := List.forall_mem_cons.1 htables
    exact ⟨⟨hfirst, htable⟩, hrest, hothers⟩
  · rintro ⟨⟨hfirst, htable⟩, hrest, hothers⟩
    exact ⟨List.forall_mem_cons.2 ⟨hfirst, hrest⟩, List.forall_mem_cons.2 ⟨htable, hothers⟩⟩

theorem filled_bdf (y : Vec ℝ) {size : Nat} (hle : size ≤ 3) : Filled y (bdf y size) := by
  induction size with
  | zero => exact ⟨by simp [bdf], by simp [bdf]⟩
  | succ extra ih =>
      refine filled_cons.2 ⟨⟨?_, ?_⟩, ih (by omega)⟩
      · intro state hstate
        rcases List.mem_cons.1 hstate with rfl | holder
        · rfl
        · exact List.eq_of_mem_replicate holder
      · rw [Stencil.size_filled]
        exact BdfTable.exists_ofSize? extra.succ_pos hle

theorem slots_rotate_rest (h : ∀ state ∈ member.stencil.slots, state = y) :
    ∀ state ∈ (member.stencil.rotate y).slots, state = y :=
  List.forall_mem_cons.2 ⟨rfl, fun state hstate => h state (List.mem_of_mem_dropLast hstate)⟩

section Attempts

variable [Journal ℝ σ] {I : σ → Prop} {system : ContinuousSystem σ ℝ}
  (h : system.Undisturbed I y) {settings : Newton.Settings ℝ}
  (hsettings : settings.validate = .ok ()) (linear : Newton.LinearSolver ℝ) {keep : Nat → σ → σ}
  (hkeep : ∀ env, I env → I (keep 0 env))

include h hsettings hkeep

theorem solveStep_at_rest {stencil : Stencil ℝ} {table : BdfTable ℝ}
    (htable : BdfTable.ofSize? stencil.size = some table)
    (hslots : ∀ state ∈ stencil.slots, state = y) (point : StepPoint ℝ) :
    Ensures I
      (solveStep (Newton.solver settings linear keep)
        ((StepEquation.bdf system).system point stencil) Guess.none point y)
      fun solved env => solved = .done y ∧ I env := by
  let equations := (StepEquation.bdf system).system point stencil
  have hresidual : Ensures I (equations.residual y equations.residualBuffer) fun r env =>
      r = .done (.zeros y.size) ∧ I env :=
    StepEquation.residual_at_rest h htable hslots point
  change Ensures I (Newton.run settings linear equations y >>= fun report => do
    modify (keep report.iterations)
    pure (Outcome.mk report.state report.ending)) _
  refine (Newton.run_of_root hsettings linear hresidual h.noted).bind fun report => ⟨?_⟩
  rintro env ⟨rfl, henv⟩
  exact ⟨rfl, hkeep env henv⟩

/-- A step from `y` is solved by `y`, in no iterations, at whichever member of the chain it
is taken. -/
theorem attempt_at_rest (now dt : ℝ) (step : Nat) (hchain : chain ≠ [])
    (hfilled : Filled y chain) :
    Ensures I
      (attempt (.bdf system) (Newton.solver settings linear keep) chain Guess.none y now dt
        (step + 1))
      fun result env => result.live = y ∧ result.ending = .done ∧ result.chain ≠ [] ∧
        Filled y result.chain ∧ I env := by
  induction chain with
  | nil => exact absurd rfl hchain
  | cons member auxiliary ih =>
      obtain ⟨⟨hslots, table, htable⟩, hauxiliary⟩ := filled_cons.1 hfilled
      have hrotated := slots_rotate_rest hslots
      have hsize : (member.stencil.rotate y).size = member.stencil.size := by simp
      unfold attempt
      rw [if_neg step.succ_ne_zero]
      refine (Ensures.note (Q := fun _ => I) fun env henv => h.noted _ env henv).bind fun _ => ?_
      refine Ensures.bind (Q := fun inner env => inner.live = y ∧ inner.ending = .done ∧
        Filled y inner.chain ∧ I env) ?_ fun inner => ⟨?_⟩
      · split
        · rename_i hdelegated
          have hne : auxiliary ≠ [] := by
            rintro rfl
            simp [stencilSize] at hdelegated
          exact ⟨fun env henv =>
            have hinner := (ih hne hauxiliary).holds env henv
            ⟨hinner.1, hinner.2.1, hinner.2.2.2⟩⟩
        · refine (solveStep_at_rest h hsettings linear hkeep (hsize ▸ htable) hrotated _).bind
            fun solved => ⟨?_⟩
          rintro env ⟨rfl, henv⟩
          exact ⟨rfl, rfl, hauxiliary, henv⟩
      · rintro env ⟨hlive, hending, hinner, henv⟩
        obtain ⟨inner, live, ending⟩ := inner
        cases hending
        refine ⟨hlive, rfl, List.cons_ne_nil _ _, filled_cons.2 ⟨⟨hrotated, table, ?_⟩, hinner⟩,
          henv⟩
        rwa [hsize]

theorem steppable_restsAt (order : Nat) :
    (steppable (.bdf system) (Newton.solver settings linear keep) order).RestsAt
      (fun env => (env.1 ≠ [] ∧ Filled y env.1) ∧ I env.2) y := by
  constructor
  intro time dt step
  constructor
  rintro ⟨chain, env⟩ ⟨⟨hchain, hfilled⟩, henv⟩
  obtain ⟨hlive, hending, hchain', hfilled', henv'⟩ :=
    (attempt_at_rest h hsettings linear hkeep time dt step hchain hfilled).holds env henv
  exact ⟨congr (congrArg Outcome.mk hlive) hending, ⟨hchain', hfilled'⟩, henv'⟩

end Attempts

end Chain

/-! ## Explicit steps -/

namespace ExplicitStepper

open ContinuousSystem

variable {scheme : ExplicitScheme} {y : Vec ℝ}

theorem stageState_at_rest {count : Nat} (hcount : count < scheme.stages) (y : Vec ℝ) (dt : ℝ) :
    stageState scheme y dt (List.replicate count (.zeros y.size)) = .ok y := by
  obtain ⟨n, x, rfl⟩ : ∃ n, ∃ x : Fin n → ℝ, y = Vec.ofCoords x :=
    ⟨y.size, Vec.exists_ofCoords rfl⟩
  have hrow := List.drop_eq_getElem_cons (scheme.length_rows.symm ▸ hcount)
  have hstate : stageState scheme (.ofCoords x) dt ((List.replicate count 0).map .ofCoords) =
      .ok (.ofCoords (x + dt • mix _ (List.replicate count 0))) :=
    stageState_of_row (by rw [List.length_replicate]; exact hrow) x dt
  rw [mix_replicate_zero, smul_zero, add_zero, List.map_replicate] at hstate
  rwa [Vec.size_ofCoords, Vec.zeros_eq_ofCoords]

theorem finalState_at_rest (scheme : ExplicitScheme) (y : Vec ℝ) (dt : ℝ) :
    finalState scheme y dt (List.replicate scheme.stages (.zeros y.size)) = .ok y := by
  obtain ⟨n, x, rfl⟩ : ∃ n, ∃ x : Fin n → ℝ, y = Vec.ofCoords x :=
    ⟨y.size, Vec.exists_ofCoords rfl⟩
  have hstate : finalState scheme (.ofCoords x) dt
      ((List.replicate scheme.stages 0).map .ofCoords) =
        .ok (.ofCoords (x + dt • mix _ (List.replicate scheme.stages 0))) :=
    finalState_of_length List.length_replicate x dt
  rw [mix_replicate_zero, smul_zero, add_zero, List.map_replicate] at hstate
  rwa [Vec.size_ofCoords, Vec.zeros_eq_ofCoords]

variable {I : σ → Prop} {system : ContinuousSystem σ ℝ} [Journal ℝ σ]
  (h : system.Undisturbed I y)

include h

theorem evaluateStages_at_rest (time dt : ℝ) {buffers : List (Vec ℝ)} {count : Nat}
    (hcount : count + buffers.length = scheme.stages)
    (hbuffers : ∀ buffer ∈ buffers, system.Reused buffer) :
    Ensures I
      (evaluateStages system scheme y time dt buffers (List.replicate count (.zeros y.size)))
      fun stages env =>
        stages = .done (List.replicate scheme.stages (.zeros y.size)) ∧ I env := by
  induction buffers generalizing count with
  | nil =>
      obtain rfl : count = scheme.stages := hcount
      exact .pure fun env henv => ⟨rfl, henv⟩
  | cons buffer buffers ih =>
      obtain ⟨hbuffer, hrest⟩ := List.forall_mem_cons.1 hbuffers
      rw [List.length_cons] at hcount
      unfold evaluateStages
      rw [stageState_at_rest (by omega)]
      refine (h.velocity hbuffer _).bind fun slope => ⟨?_⟩
      rintro env ⟨rfl, henv⟩
      have hcount' : (count + 1) + buffers.length = scheme.stages := by omega
      have hnext := ih hcount' hrest
      rw [List.replicate_succ'] at hnext
      exact hnext.holds env henv

/-- A step from `y` ends there, and leaves slopes that all vanish. -/
theorem attempt_at_rest {stepper : ExplicitStepper ℝ} (hscheme : stepper.scheme = scheme)
    (hlength : stepper.slopes.length = scheme.stages)
    (hreused : ∀ buffer ∈ stepper.slopes, system.Reused buffer) (time dt : ℝ) (step : Nat) :
    Ensures I (attempt system stepper y time dt step) fun outcome env =>
      outcome = .done (⟨scheme, List.replicate scheme.stages (.zeros y.size)⟩, y) ∧ I env := by
  subst hscheme
  refine (Ensures.note (Q := fun _ => I) fun env henv => h.noted _ env henv).bind fun _ => ?_
  have hcount : 0 + stepper.slopes.length = stepper.scheme.stages := by omega
  have hstages := evaluateStages_at_rest h time dt hcount hreused
  refine hstages.bind fun stages => ⟨?_⟩
  rintro env ⟨rfl, henv⟩
  simp only [Outcome.done, finalState_at_rest]
  exact ⟨rfl, henv⟩

theorem steppable_restsAt (scheme : ExplicitScheme) :
    (steppable system scheme).RestsAt (fun env => Used system scheme env.1 ∧ I env.2) y := by
  constructor
  intro time dt step
  constructor
  rintro ⟨stepper, env⟩ ⟨hused, henv⟩
  obtain ⟨hscheme, hlength, hreused⟩ := hused.reused
  obtain ⟨houtcome, henv'⟩ :=
    (attempt_at_rest h hscheme hlength hreused time dt (step + 1)).holds env henv
  refine ⟨?_, hused.attempted y time dt (step + 1) env, henv'⟩
  exact congrArg (fun outcome => Outcome.mk outcome.value.2 outcome.ending) houtcome

end ExplicitStepper

/-! ## Runs -/

section Runs

open ContinuousSystem

/-- The system, with the evaluations and the iterations of each solve in front of its
environment. -/
abbrev ContinuousSystem.tallied (system : ContinuousSystem σ ℝ) :
    ContinuousSystem (Watched (List Nat × σ) ℝ) ℝ :=
  (system.beside (List Nat)).watched

/-- Add the number of iterations of a solve to the list of them. -/
def Newton.tally : Nat → Watched (List Nat × σ) ℝ → Watched (List Nat × σ) ℝ :=
  keepBeside _ fun iterations env => (env.1 ++ [iterations], env.2)

/-- No evaluation failed and none was of a Jacobian, and no solve made an iteration. -/
structure Quiet (env : Watched (List Nat × σ) ℝ) : Prop where
  evaluations : ∀ evaluated ∈ env.1, evaluated = ⟨.value, .done⟩
  iterations : ∀ iterations ∈ env.2.1, iterations = 0

theorem Newton.tally_quiet (env : Watched (List Nat × σ) ℝ) (henv : Quiet env) :
    Quiet (tally 0 env) :=
  ⟨henv.evaluations,
    List.forall_mem_append.2 ⟨henv.iterations, List.forall_mem_singleton.2 rfl⟩⟩

variable [Journal ℝ σ]

theorem ContinuousSystem.RestsAt.undisturbed {system : ContinuousSystem σ ℝ} {y : Vec ℝ}
    (h : system.RestsAt y) : system.tallied.Undisturbed Quiet y where
  rests := h.beside.watched
  evaluated {buffer} hbuffer time env henv := by
    have hdone := h.beside.velocity (reused_of_watched hbuffer) time env.2
    refine ⟨List.forall_mem_append.2 ⟨henv.evaluations, List.forall_mem_singleton.2 ?_⟩,
      henv.iterations⟩
    exact congrArg (fun outcome => Evaluated.mk .value outcome.ending) hdone
  noted event env henv := ⟨henv.evaluations, henv.iterations⟩

namespace Run

/-- Started at `y` with a new stepper, each of the four runs stays there, whatever its
callbacks are, as long as their answers are valid.  The runs of a given number of steps
are finished. -/
structure StaysAt (P : τ × Watched (List Nat × σ) ℝ → Prop)
    (stepper : Steppable (τ × Watched (List Nat × σ) ℝ) ℝ) (new : τ) (y : Vec ℝ) : Prop where
  steps (observer : Observer σ ℝ) (start : ℝ) {dt : ℝ} (hdt : 0 < dt) (count : Nat) (env : σ) :
    let observer := (observer.beside (List Nat)).aside τ
    let run := Run.steps stepper observer start dt count y
    let env : τ × Watched (List Nat × σ) ℝ := (new, [], [], env)
    StandsStill P y (Run.steps (stepper.traced Unit) (observer.traced Unit) start dt count y) run
        env ∧
      ∃ time, (run env).1 = ⟨y, .finished time⟩
  toTime (policy : Policy σ ℝ ℝ) (hpolicy : ∀ step time env, 0 < (policy step time env).1)
    (observer : Observer σ ℝ) (fuel : Nat) {start final : ℝ} (hinterval : start ≤ final)
    (env : σ) :
    let policy := (policy.beside (List Nat)).aside τ
    let observer := (observer.beside (List Nat)).aside τ
    StandsStill P y
      (Run.toTime fuel (stepper.traced ℝ) policy.traced (observer.traced ℝ) start final y)
      (Run.toTime fuel stepper policy observer start final y) (new, [], [], env)
  stepsRetrying (control : Policy σ ℝ (StepControl ℝ))
    (hcontrol : ∀ step time env, (control step time env).1.validate = .ok ())
    (observer : Observer σ ℝ) (fuel : Nat) (start : ℝ) (count : Nat) (env : σ) :
    let control := (control.beside (List Nat)).aside τ
    let observer := (observer.beside (List Nat)).aside τ
    let run := Run.stepsRetrying fuel stepper control observer start count y
    let env : τ × Watched (List Nat × σ) ℝ := (new, [], [], env)
    StandsStill P y
        (Run.stepsRetrying fuel (stepper.traced _) control.traced (observer.traced _) start count y)
        run env ∧
      (0 < fuel → ∃ time, (run env).1 = ⟨y, .finished time⟩)
  toTimeRetrying (control : Policy σ ℝ (StepControl ℝ))
    (hcontrol : ∀ step time env, (control step time env).1.validate = .ok ())
    (observer : Observer σ ℝ) (fuel : Nat) {start final : ℝ} (hinterval : start ≤ final)
    (env : σ) :
    let control := (control.beside (List Nat)).aside τ
    let observer := (observer.beside (List Nat)).aside τ
    StandsStill P y
      (Run.toTimeRetrying fuel (stepper.traced _) control.traced (observer.traced _) start final y)
      (Run.toTimeRetrying fuel stepper control observer start final y) (new, [], [], env)

variable {P : τ × Watched (List Nat × σ) ℝ → Prop}
  {stepper : Steppable (τ × Watched (List Nat × σ) ℝ) ℝ} {new : τ} {y : Vec ℝ}

theorem staysAt_of_rests (hstepper : stepper.RestsAt P y) (hnew : ∀ env, P (new, [], [], env))
    (hblind : ∀ front evaluations iterations env env',
      P (front, evaluations, iterations, env) → P (front, evaluations, iterations, env')) :
    StaysAt P stepper new y := by
  have hpolicy {β : Type} (policy : Policy σ ℝ β) (step : Nat) (time : ℝ) :
      Ensures P ((policy.beside (List Nat)).aside τ step time) fun _ => P :=
    ⟨fun _ henv => hblind _ _ _ _ _ henv⟩
  have hobserver (observer : Observer σ ℝ) (step : Nat) (time : ℝ) (live : Vec ℝ) :
      Ensures P ((observer.beside (List Nat)).aside τ step time live) fun _ => P :=
    ⟨fun _ henv => hblind _ _ _ _ _ henv⟩
  constructor
  case steps =>
    intro observer start dt hdt count env
    have hcheck : TimeGrid.checkDt dt 1 = .ok () := by simp [TimeGrid.checkDt, hdt]
    exact ⟨steps_standsStill hstepper (hobserver _) start hcheck count (hnew env),
      (steps_finishes hstepper (hobserver _) start hcheck count).holds _ (hnew env)⟩
  case toTime =>
    intro policy hdt observer fuel start final hinterval env
    exact toTime_standsStill hstepper (hobserver _) (hpolicy _)
      (fun step time env => by simp [TimeGrid.checkDt, Policy.aside, Policy.beside, besides, hdt])
      fuel (TimeGrid.checkInterval_of_le hinterval) (hnew env)
  case stepsRetrying =>
    intro control hcontrol observer fuel start count env
    refine ⟨stepsRetrying_standsStill hstepper (hobserver _) (hpolicy _)
      (fun _ _ _ => hcontrol ..) fuel start count (hnew env), fun hfuel => ?_⟩
    obtain ⟨fuel, rfl⟩ := Nat.exists_eq_succ_of_ne_zero hfuel.ne'
    exact (stepsRetrying_finishes hstepper (hobserver _) (hpolicy _) (fun _ _ _ => hcontrol ..)
      fuel start count).holds _ (hnew env)
  case toTimeRetrying =>
    intro control hcontrol observer fuel start final hinterval env
    exact toTimeRetrying_standsStill hstepper (hobserver _) (hpolicy _)
      (fun _ _ _ => hcontrol ..) fuel (TimeGrid.checkInterval_of_le hinterval) (hnew env)

end Run

/-- An equilibrium of the velocity is kept by every scheme that is built from it and started
there, whatever the time steps are.  No attempt fails, every state that is shown is the
equilibrium, and so is every state in every stencil of the chain.  Every Newton iteration
ends before its first correction, and no Jacobian is evaluated. -/
theorem equilibria_are_kept {system : ContinuousSystem σ ℝ} {y : Vec ℝ} (h : system.RestsAt y) :
    (∀ (size : Nat) (settings : Newton.Settings ℝ) (linear : Newton.LinearSolver ℝ), 0 < size →
      size ≤ 3 → settings.validate = .ok () →
        Run.StaysAt (fun env => (env.1 ≠ [] ∧ Chain.Filled y env.1) ∧ Quiet env.2)
          (Chain.steppable (.bdf system.tallied) (Newton.solver settings linear Newton.tally) size)
          (Chain.bdf y size) y) ∧
    ∀ scheme : ExplicitScheme,
      Run.StaysAt (fun env => ExplicitStepper.Used system.tallied scheme env.1 ∧ Quiet env.2)
        (ExplicitStepper.steppable system.tallied scheme)
        (ExplicitStepper.fresh scheme system.tallied) y := by
  have hquiet (env : σ) : Quiet (([], [], env) : Watched (List Nat × σ) ℝ) :=
    ⟨by simp, by simp⟩
  constructor
  · intro size settings linear hpos hle hsettings
    have hne : Chain.bdf y size ≠ [] := by
      obtain ⟨extra, rfl⟩ := Nat.exists_eq_succ_of_ne_zero hpos.ne'
      exact List.cons_ne_nil _ _
    exact Run.staysAt_of_rests
      (Chain.steppable_restsAt h.undisturbed hsettings linear Newton.tally_quiet size)
      (fun env => ⟨⟨hne, Chain.filled_bdf y hle⟩, hquiet env⟩)
      fun _ _ _ _ _ henv => ⟨henv.1, henv.2.evaluations, henv.2.iterations⟩
  · intro scheme
    exact Run.staysAt_of_rests (ExplicitStepper.steppable_restsAt h.undisturbed scheme)
      (fun env => ⟨.fresh, hquiet env⟩)
      fun _ _ _ _ _ henv => ⟨henv.1, henv.2.evaluations, henv.2.iterations⟩

/-! ## Saturated growth -/

theorem saturating_rests : saturating.RestsAt (.ofCoords ![1]) := by
  constructor
  intro buffer hbuffer time env
  rw [velocity_saturating, Vec.size_ofCoords, Vec.zeros_eq_ofCoords]
  exact congrArg Outcome.done (Vec.ofCoords_ext_single (by norm_num))

/-- The formula over three states, for five steps from the capacity. -/
theorem equilibria_are_kept_saturating :
    saturating.RestsAt (.ofCoords ![1]) ∧
      (Newton.Settings.standard : Newton.Settings ℝ).validate = .ok () ∧
      let stepper := Chain.steppable (.bdf saturating.tallied)
        (Newton.solver .standard Mat.solve Newton.tally) 3
      let observer : Run.Observer (Chain ℝ × Watched (List Nat × Unit) ℝ) ℝ :=
        fun _ _ _ => pure ()
      let result := Run.steps stepper observer 0 (1 / 2) 5 (.ofCoords ![1])
        (Chain.bdf (.ofCoords ![1]) 3, [], [], ())
      (∃ time, result.1 = ⟨.ofCoords ![1], .finished time⟩) ∧
        Chain.Filled (.ofCoords ![1]) result.2.1 ∧ Quiet result.2.2 := by
  have hsettings : (Newton.Settings.standard : Newton.Settings ℝ).validate = .ok () := by
    refine Newton.Settings.validate_eq_ok_iff.2 ?_
    norm_num [Newton.Settings.standard, Newton.Settings.withTolerance, Newton.Settings.tolerances]
  obtain ⟨himplicit, -⟩ := equilibria_are_kept saturating_rests
  have hstays := himplicit 3 .standard Mat.solve (by norm_num) (by norm_num) hsettings
  obtain ⟨hstill, hfinished⟩ := hstays.steps (fun _ _ _ => pure ()) 0 one_half_pos 5 ()
  exact ⟨saturating_rests, hsettings, hfinished, hstill.kept.1.2, hstill.kept.2⟩

end Runs

end TimeStepping
