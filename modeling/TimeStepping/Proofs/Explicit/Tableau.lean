import TimeStepping.Proofs.Formulas
import TimeStepping.Proofs.Explicit.Buffers

/-!
# Explicit schemes and their tableaus

A tableau fixes an explicit Runge-Kutta method: the time and the state at which each
slope is evaluated, and how the slopes are put together.  Each explicit scheme takes the
steps of the method with its tableau, evaluation by evaluation, on every velocity field:
`ExplicitStepper.attempt_eq_tableau_step`.
-/

namespace TimeStepping

variable {σ : Type} {n : Nat}

/-! ## Velocity fields -/

/-- A velocity in coordinates.  An evaluation may fail, and acts on an environment. -/
abbrev VelocityField (σ : Type) (n : Nat) :=
  (Fin n → ℝ) → ℝ → StateM σ (Outcome ℝ (Fin n → ℝ))

open ContinuousSystem in
/-- The same velocity field, which also lists its evaluations. -/
noncomputable def VelocityField.sampled (f : VelocityField σ n) :
    VelocityField (List (Sample ℝ) × σ) n :=
  fun x time =>
    logging (fun _ outcome _ => .of (.ofCoords x) time ⟨.ofCoords outcome.value, outcome.ending⟩)
      (f x time)

namespace ContinuousSystem

/-- An evaluation into a buffer that is in use does what the velocity field does, and if
it is completed, the slope stands in the buffer. -/
structure HasVelocity (system : ContinuousSystem σ ℝ) (f : VelocityField σ n) : Prop where
  velocity {buffer : Vec ℝ} (h : system.Reused buffer) (x : Fin n → ℝ) (time : ℝ) :
    Parallel (fun env env' => env = env') (system.velocity (.ofCoords x) time buffer) (f x time)
      fun slope value env env' => env = env' ∧ slope.ending = value.ending ∧
        (value.ending = .done → slope.value = .ofCoords value.value)

variable {system : ContinuousSystem σ ℝ} {f : VelocityField σ n} {buffer : Vec ℝ}

theorem reused_sampled (h : system.Reused buffer) : system.sampled.Reused buffer := by
  induction h with
  | new => exact .new
  | left before state time env ih => exact ih.left state time ([], env)

theorem reused_of_sampled (h : system.sampled.Reused buffer) : system.Reused buffer := by
  induction h with
  | new => exact .new
  | left before state time env ih => exact ih.left state time env.2

theorem HasVelocity.sampled (h : system.HasVelocity f) :
    system.sampled.HasVelocity f.sampled := by
  constructor
  intro buffer hbuffer x time
  constructor
  rintro ⟨samples, env⟩ _ rfl
  obtain ⟨henv, hending, hvalue⟩ :=
    (h.velocity (reused_of_sampled hbuffer) x time).holds env env rfl
  refine ⟨Prod.ext (congrArg (samples ++ [·]) ?_) henv, hending, hvalue⟩
  simp only [Sample.of, hending]
  cases hdone : (f x time env).1.ending with
  | done => simp [Ending.isDone, hvalue hdone]
  | failed cause => rfl
  | fault cause => rfl

/-- The system with a given velocity field.  An evaluation that is not completed leaves
the buffer alone. -/
noncomputable def ofVelocity (f : VelocityField σ n) : ContinuousSystem σ ℝ where
  velocityBuffer := Vec.zeros n
  jacobianBuffer := Mat.zeros n n
  velocity state time buffer := do
    let slope ← f (fun i => state.getD i 0) time
    pure ⟨if slope.ending.isDone then .ofCoords slope.value else buffer, slope.ending⟩
  jacobian _ _ buffer := pure (.done buffer)

theorem hasVelocity_ofVelocity (f : VelocityField σ n) : (ofVelocity f).HasVelocity f := by
  constructor
  intro buffer _ x time
  have hcoords : (fun i : Fin n => (Vec.ofCoords x).getD i 0) = x :=
    funext fun i => Vec.getD_ofCoords x i 0
  have hvelocity : (ofVelocity f).velocity (.ofCoords x) time buffer = (do
      let slope ← f x time
      pure ⟨if slope.ending.isDone then .ofCoords slope.value else buffer, slope.ending⟩) := by
    unfold ofVelocity
    dsimp only
    rw [hcoords]
  rw [hvelocity]
  constructor
  rintro env _ rfl
  exact ⟨rfl, rfl, fun hdone => if_pos (Ending.isDone_iff.2 hdone)⟩

end ContinuousSystem

/-! ## Tableaus -/

/-- Where a slope is evaluated: the node places it in the step, and the coefficients say
how far to go along each of the slopes before. -/
structure Tableau.Row where
  node : ℝ
  coefficients : List ℝ

structure Tableau where
  rows : List Tableau.Row
  weights : List ℝ

namespace Tableau

/-- Evaluate the slopes of the rows that are left, after the given ones, up to the first
that cannot be evaluated. -/
noncomputable def slopesFrom (f : VelocityField σ n) (y : Fin n → ℝ) (time dt : ℝ) :
    List Row → (slopes : List (Fin n → ℝ)) → StateM σ (Outcome ℝ (List (Fin n → ℝ)))
  | [], slopes => pure (.done slopes)
  | row :: rows, slopes => do
      let slope ← f (y + dt • mix row.coefficients slopes) (time + row.node * dt)
      match slope.ending with
      | .done => slopesFrom f y time dt rows (slopes ++ [slope.value])
      | ending => pure ⟨slopes, ending⟩

/-- A step of the method with the tableau. -/
noncomputable def step (tableau : Tableau) (f : VelocityField σ n) (y : Fin n → ℝ)
    (time dt : ℝ) : StateM σ (Outcome ℝ (Fin n → ℝ)) := do
  let slopes ← slopesFrom f y time dt tableau.rows []
  match slopes.ending with
  | .done => pure (.done (y + dt • mix tableau.weights slopes.value))
  | ending => pure ⟨y, ending⟩

section Evaluations

variable {f : VelocityField σ n} {y : Fin n → ℝ} {time dt : ℝ} {row : Row} {rows : List Row}
  {slopes : List (Fin n → ℝ)} {k : Fin n → ℝ} {ending : Ending ℝ} {env env' : σ}

theorem slopesFrom_of_done
    (h : f (y + dt • mix row.coefficients slopes) (time + row.node * dt) env = (.done k, env')) :
    slopesFrom f y time dt (row :: rows) slopes env =
      slopesFrom f y time dt rows (slopes ++ [k]) env' := by
  rw [slopesFrom, bind_apply, h]
  rfl

theorem slopesFrom_of_undone
    (h : f (y + dt • mix row.coefficients slopes) (time + row.node * dt) env =
      (⟨k, ending⟩, env')) (hundone : ending ≠ .done) :
    slopesFrom f y time dt (row :: rows) slopes env = (⟨slopes, ending⟩, env') := by
  rw [slopesFrom, bind_apply, h]
  cases ending with
  | done => exact absurd rfl hundone
  | failed cause => rfl
  | fault cause => rfl

end Evaluations

theorem slopesFrom_sampled (f : VelocityField σ n) (y : Fin n → ℝ) (time dt : ℝ)
    (rows : List Row) (slopes : List (Fin n → ℝ)) :
    ActsAs (slopesFrom f.sampled y time dt rows slopes) (slopesFrom f y time dt rows slopes) := by
  induction rows generalizing slopes with
  | nil => exact .pure _
  | cons row rows ih =>
      refine (ActsAs.logging ..).bind fun slope => ?_
      cases slope.ending with
      | done => exact ih _
      | failed cause => exact .pure _
      | fault cause => exact .pure _

theorem step_sampled (tableau : Tableau) (f : VelocityField σ n) (y : Fin n → ℝ)
    (time dt : ℝ) : ActsAs (tableau.step f.sampled y time dt) (tableau.step f y time dt) := by
  refine (slopesFrom_sampled ..).bind fun slopes => ?_
  cases slopes.ending with
  | done => exact .pure _
  | failed cause => exact .pure _
  | fault cause => exact .pure _

end Tableau

open Scalar in
/-- The tableaus of the schemes, with all their zeros. -/
noncomputable def ExplicitScheme.tableau : ExplicitScheme → Tableau
  | euler => ⟨[⟨0, []⟩], [1]⟩
  | rungeKutta4 =>
      ⟨[⟨0, []⟩, ⟨ratio 1 2, [ratio 1 2]⟩, ⟨ratio 1 2, [0, ratio 1 2]⟩, ⟨1, [0, 0, 1]⟩],
        [ratio 1 6, ratio 1 3, ratio 1 3, ratio 1 6]⟩
  | ssprk3 =>
      ⟨[⟨0, []⟩, ⟨1, [1]⟩, ⟨ratio 1 2, [ratio 1 4, ratio 1 4]⟩],
        [ratio 1 6, ratio 1 6, ratio 2 3]⟩

theorem ExplicitScheme.length_rows (scheme : ExplicitScheme) :
    scheme.tableau.rows.length = scheme.stages := by
  cases scheme <;> rfl

namespace ExplicitStepper

open ContinuousSystem

/-! ## The schemes by their tableaus -/

theorem moved_ofCoords (y k : Fin n → ℝ) (c : ℝ) :
    moved (.ofCoords y) c (.ofCoords k) = .ok (.ofCoords (y + c • k)) := by
  rw [moved, Vec.scale_ofCoords, Vec.add_ofCoords]

theorem map_third (y : Fin n → ℝ) :
    (Vec.ofCoords y).map (· / ((3 : Nat) : ℝ)) = Vec.ofCoords ((3 : ℝ)⁻¹ • y) := by
  rw [Vec.map_ofCoords]
  congr 1
  funext i
  exact div_eq_inv_mul ..

/-- The third stage of the strong-stability preserving scheme, by its slopes. -/
theorem stageState_ssprk3 (y k k' : Fin n → ℝ) (dt : ℝ) :
    stageState .ssprk3 (.ofCoords y) dt [.ofCoords k, .ofCoords k'] =
      .ok (.ofCoords (y + dt • ((1 / 4 : ℝ) • k + (1 / 4 : ℝ) • k'))) := by
  have hmixed : (3 / 4 : ℝ) • y + (1 / 4 : ℝ) • (y + dt • k + dt • k') =
      y + dt • ((1 / 4 : ℝ) • k + (1 / 4 : ℝ) • k') := by
    module
  simp only [stageState, moved_ofCoords, bind, Except.bind, Vec.scale_ofCoords, Vec.add_ofCoords,
    Scalar.ratio_real, ← hmixed]
  norm_num

section Stages

variable {scheme : ExplicitScheme} {row : Tableau.Row} {rows : List Tableau.Row}
  {slopes : List (Fin n → ℝ)}

theorem stageTime_of_row (h : scheme.tableau.rows.drop slopes.length = row :: rows)
    (time dt : ℝ) : stageTime scheme time dt slopes.length = time + row.node * dt := by
  generalize slopes.length = stage at h
  cases scheme with
  | euler =>
      rcases stage with _ | stage
      · cases h
        simp [stageTime]
      · simp [ExplicitScheme.tableau] at h
  | rungeKutta4 =>
      rcases stage with _ | _ | _ | _ | stage
      all_goals first
        | (cases h; simp [stageTime])
        | simp [ExplicitScheme.tableau] at h
  | ssprk3 =>
      rcases stage with _ | _ | _ | stage
      all_goals first
        | (cases h; simp [stageTime])
        | simp [ExplicitScheme.tableau] at h

theorem stageState_of_row (h : scheme.tableau.rows.drop slopes.length = row :: rows)
    (y : Fin n → ℝ) (dt : ℝ) :
    stageState scheme (.ofCoords y) dt (slopes.map .ofCoords) =
      .ok (.ofCoords (y + dt • mix row.coefficients slopes)) := by
  cases scheme with
  | euler =>
      rcases slopes with _ | ⟨k, slopes⟩
      · cases h
        simp [stageState]
      · simp [ExplicitScheme.tableau] at h
  | rungeKutta4 =>
      rcases slopes with _ | ⟨k₀, _ | ⟨k₁, _ | ⟨k₂, _ | ⟨k₃, rest⟩⟩⟩⟩
      · cases h
        simp [stageState]
      · cases h
        simp [stageState, moved_ofCoords, mul_smul, smul_comm dt]
      · cases h
        simp [stageState, moved_ofCoords, mul_smul, smul_comm dt]
      · cases h
        simp [stageState, moved_ofCoords]
      · simp [ExplicitScheme.tableau] at h
  | ssprk3 =>
      rcases slopes with _ | ⟨k₀, _ | ⟨k₁, _ | ⟨k₂, rest⟩⟩⟩
      · cases h
        simp [stageState]
      · cases h
        simp [stageState, moved_ofCoords]
      · cases h
        simp [stageState_ssprk3]
      · simp [ExplicitScheme.tableau] at h

theorem finalState_of_length (h : slopes.length = scheme.stages) (y : Fin n → ℝ) (dt : ℝ) :
    finalState scheme (.ofCoords y) dt (slopes.map .ofCoords) =
      .ok (.ofCoords (y + dt • mix scheme.tableau.weights slopes)) := by
  cases scheme with
  | euler =>
      obtain ⟨k, rfl⟩ := List.length_eq_one_iff.1 h
      simp [finalState, moved_ofCoords, ExplicitScheme.tableau]
  | rungeKutta4 =>
      obtain ⟨k₀, k₁, k₂, k₃, rfl⟩ := List.length_eq_four.1 h
      have hsum : y + (dt / 6) • (k₀ + (2 : ℝ) • k₁ + (2 : ℝ) • k₂ + k₃) =
          y + dt • mix ExplicitScheme.rungeKutta4.tableau.weights [k₀, k₁, k₂, k₃] := by
        simp only [ExplicitScheme.tableau, mix_cons, mix_nil, Scalar.ratio_real]
        push_cast
        module
      rw [← hsum]
      simp [finalState, moved_ofCoords, Vec.scale_ofCoords, Vec.add_ofCoords, bind, Except.bind]
  | ssprk3 =>
      obtain ⟨k₀, k₁, k₂, rfl⟩ := List.length_eq_three.1 h
      have hsum : (3 : ℝ)⁻¹ • y +
          (2 / 3 : ℝ) • (y + dt • ((1 / 4 : ℝ) • k₀ + (1 / 4 : ℝ) • k₁) + dt • k₂) =
            y + dt • mix ExplicitScheme.ssprk3.tableau.weights [k₀, k₁, k₂] := by
        simp only [ExplicitScheme.tableau, mix_cons, mix_nil, Scalar.ratio_real]
        push_cast
        module
      rw [← hsum]
      simp only [List.map_cons, List.map_nil, finalState, stageState_ssprk3, moved_ofCoords, bind,
        Except.bind, map_third, Vec.scale_ofCoords, Vec.add_ofCoords, Scalar.ratio_real]
      push_cast
      rfl

end Stages

section Method

variable {system : ContinuousSystem σ ℝ} {f : VelocityField σ n}

theorem evaluateStages_slopesFrom (h : system.HasVelocity f) {scheme : ExplicitScheme}
    (y : Fin n → ℝ) (time dt : ℝ) {rows : List Tableau.Row} {buffers : List (Vec ℝ)}
    (slopes : List (Fin n → ℝ)) (hrows : scheme.tableau.rows.drop slopes.length = rows)
    (hbuffers : ∀ buffer ∈ buffers, system.Reused buffer) (hlength : buffers.length = rows.length) :
    Parallel (fun env env' => env = env')
      (evaluateStages system scheme (.ofCoords y) time dt buffers (slopes.map .ofCoords))
      (Tableau.slopesFrom f y time dt rows slopes) fun stages method env env' => env = env' ∧
        stages.ending = method.ending ∧ (method.ending = .done →
          stages.value = method.value.map .ofCoords ∧
            method.value.length = slopes.length + rows.length) := by
  induction rows generalizing buffers slopes with
  | nil =>
      obtain rfl := List.length_eq_zero_iff.1 hlength
      exact .pure fun _ _ henv => ⟨henv, rfl, fun _ => ⟨rfl, rfl⟩⟩
  | cons row rows ih =>
      obtain ⟨buffer, buffers, rfl⟩ := List.exists_cons_of_length_eq_add_one hlength
      obtain ⟨hbuffer, hbuffers⟩ := List.forall_mem_cons.1 hbuffers
      unfold evaluateStages Tableau.slopesFrom
      rw [stageState_of_row hrows, List.length_map, stageTime_of_row hrows]
      refine (h.velocity hbuffer ..).bind ?_
      rintro ⟨slope, ending⟩ ⟨value, ending'⟩
      constructor
      rintro env _ ⟨rfl, rfl, hvalue⟩
      cases ending with
      | failed cause => exact ⟨rfl, rfl, fun hdone => by cases hdone⟩
      | fault cause => exact ⟨rfl, rfl, fun hdone => by cases hdone⟩
      | done =>
          obtain rfl : slope = .ofCoords value := hvalue rfl
          have hnext : scheme.tableau.rows.drop (slopes ++ [value]).length = rows := by
            rw [List.length_append, List.length_singleton, ← List.drop_drop, hrows]
            rfl
          obtain ⟨henv, hending, hslopes⟩ :=
            (ih _ hnext hbuffers (Nat.succ.inj hlength)).holds env env rfl
          rw [List.map_append] at henv hending hslopes
          refine ⟨henv, hending, fun hdone => ?_⟩
          obtain ⟨hstages, hcount⟩ := hslopes hdone
          refine ⟨hstages, hcount.trans ?_⟩
          rw [List.length_append, List.length_singleton, List.length_cons]
          omega

variable [Journal ℝ σ] {stepper : ExplicitStepper ℝ}

/-- The step of the scheme and the step of the method start where the event that opens
the former has been noted. -/
theorem attempt_step (h : system.HasVelocity f)
    (hreused : ∀ buffer ∈ stepper.slopes, system.Reused buffer)
    (hlength : stepper.slopes.length = stepper.scheme.stages) (y : Fin n → ℝ) (time dt : ℝ)
    (step : Nat) :
    Parallel
      (fun env env' => Journal.record (.stepBegun stepper.scheme.name step time dt) env = env')
      (attempt system stepper (.ofCoords y) time dt step)
      (stepper.scheme.tableau.step f y time dt) fun outcome method env env' => env = env' ∧
        outcome.ending = (method.mapFailure (·.asTimeStepFailure step dt)).ending ∧
        outcome.value.2 = .ofCoords method.value := by
  have hstages := evaluateStages_slopesFrom h y time dt [] rfl hreused
    (hlength.trans stepper.scheme.length_rows.symm)
  refine .note_left (fun _ _ henv => henv) (hstages.bind ?_)
  rintro ⟨slopes, ending⟩ ⟨values, ending'⟩
  constructor
  rintro env _ ⟨rfl, rfl, hslopes⟩
  cases ending with
  | failed cause => exact ⟨rfl, rfl, rfl⟩
  | fault cause => exact ⟨rfl, rfl, rfl⟩
  | done =>
      obtain ⟨hvalues, hcount⟩ := hslopes rfl
      obtain rfl : slopes = values.map .ofCoords := hvalues
      have hall : values.length = stepper.scheme.stages :=
        hcount.trans ((Nat.zero_add _).trans stepper.scheme.length_rows)
      dsimp only
      rw [finalState_of_length hall]
      exact ⟨rfl, rfl, rfl⟩

/-- On a velocity field the scheme takes the step of the method with its tableau: it
makes the same evaluations in the same order, at the same states and times, has the same
effects and comes to the same state.  Where the method stops at an evaluation, the step
ends like it, a failure being surfaced as that of the step. -/
theorem attempt_eq_tableau_step (h : system.HasVelocity f) {scheme : ExplicitScheme}
    (hused : Used system scheme stepper) (y : Fin n → ℝ) (time dt : ℝ) (step : Nat) (env : σ) :
    let begun := Journal.record (.stepBegun scheme.name step time dt) env
    let result := attempt system.sampled stepper (.ofCoords y) time dt step ([], env)
    let method := scheme.tableau.step f.sampled y time dt ([], begun)
    result.2 = method.2 ∧
      result.1.ending = (method.1.mapFailure (·.asTimeStepFailure step dt)).ending ∧
      result.1.value.2 = .ofCoords method.1.value ∧
      (result.1, result.2.2) = attempt system stepper (.ofCoords y) time dt step env ∧
      (method.1, method.2.2) = scheme.tableau.step f y time dt begun := by
  intro begun result method
  obtain ⟨rfl, hlength, hreused⟩ := hused.reused
  have hsampled : ∀ buffer ∈ stepper.slopes, system.sampled.Reused buffer :=
    fun buffer hbuffer => reused_sampled (hreused buffer hbuffer)
  obtain ⟨henv, hending, hvalue⟩ :=
    (attempt_step h.sampled hsampled hlength y time dt step).holds ([], env) ([], begun) rfl
  refine ⟨henv, hending, hvalue, ?_, ?_⟩
  · exact (attempt_actsAs system.velocity_sampled stepper _ time dt step).eq ([], env)
  · exact (stepper.scheme.tableau.step_sampled f y time dt).eq ([], begun)

end Method

/-! ## A velocity field that gives out -/

/-- A Riccati equation whose evaluations fail at time 1/2. -/
noncomputable def riccati : VelocityField Unit 1 := fun x time =>
  if time = Scalar.ratio 1 2 then pure ⟨x, .failed (.velocity "stage failed")⟩
  else pure (.done fun i => time + x i ^ 2)

theorem riccati_sampled_of_eq (x : Fin 1 → ℝ) {time : ℝ} (h : time = 1 / 2)
    (samples : List (Sample ℝ)) :
    riccati.sampled x time (samples, ()) = (⟨x, .failed (.velocity "stage failed")⟩,
      samples ++ [⟨.ofCoords x, time, .failed (.velocity "stage failed"), none⟩], ()) := by
  unfold VelocityField.sampled riccati
  rw [if_pos (by simpa using h)]
  rfl

theorem riccati_sampled_of_ne (x : Fin 1 → ℝ) {time : ℝ} (h : time ≠ 1 / 2)
    (samples : List (Sample ℝ)) :
    riccati.sampled x time (samples, ()) = (.done fun i => time + x i ^ 2,
      samples ++ [⟨.ofCoords x, time, .done, some (.ofCoords fun i => time + x i ^ 2)⟩], ()) := by
  unfold VelocityField.sampled riccati
  rw [if_neg (by simpa using h)]
  rfl

/-- A step of length 1 from time 0 is at time 1 before it comes to time 1/2, where it ends. -/
theorem attempt_eq_tableau_step_riccati :
    let system := ofVelocity riccati
    let live : Vec ℝ := .ofCoords (1 : Fin 1 → ℝ)
    let result := attempt system.sampled (fresh .ssprk3 system) live 0 1 1 ([], ())
    let method := ExplicitScheme.ssprk3.tableau.step riccati.sampled 1 0 1 ([], ())
    method.1 = ⟨1, .failed (.velocity "stage failed")⟩ ∧
      result.2 = method.2 ∧ result.2.1.map (·.time) = [0, 1, 1 / 2] ∧
      result.1.ending = .failed (.timeStep 1 1 (.velocity "stage failed")) ∧
      result.1.value.2 = live := by
  intro system live result method
  have hused : Used system .ssprk3 (fresh .ssprk3 system) := .fresh
  obtain ⟨hlog, hending, hvalue, -⟩ :=
    attempt_eq_tableau_step (hasVelocity_ofVelocity riccati) hused 1 0 1 1 ()
  obtain ⟨samples, hmethod, htimes⟩ : ∃ samples,
      method = (⟨1, .failed (.velocity "stage failed")⟩, samples, ()) ∧
        samples.map (·.time) = [0, 1, 1 / 2] := by
    simp only [method, Tableau.step, ExplicitScheme.tableau, bind_apply]
    rw [Tableau.slopesFrom_of_done (riccati_sampled_of_ne _ (by norm_num) _),
      Tableau.slopesFrom_of_done (riccati_sampled_of_ne _ (by norm_num) _),
      Tableau.slopesFrom_of_undone (riccati_sampled_of_eq _ (by norm_num) _) nofun]
    exact ⟨_, rfl, by simp⟩
  have hresult : result.2 = method.2 := hlog
  refine ⟨congrArg Prod.fst hmethod, hresult, ?_, ?_, ?_⟩
  · rw [hresult, hmethod]
    exact htimes
  · change result.1.ending = (method.1.mapFailure _).ending at hending
    rw [hending, hmethod]
    rfl
  · change result.1.value.2 = .ofCoords method.1.value at hvalue
    rw [hvalue, hmethod]

end ExplicitStepper

end TimeStepping
