import Mathlib.Analysis.SpecialFunctions.Integrals.Basic
import Mathlib.Topology.Algebra.Polynomial
import TimeStepping.Proofs.Explicit.Orbits

/-!
# The accuracy of explicit steps

How well the explicit schemes follow the velocity fields whose solutions are known.  A
step of a linear system multiplies the state by as many terms of the exponential series
as the order says, and polynomials in time below the order are integrated exactly:
`ExplicitStepper.schemes_deliver_order`.
-/

open scoped Nat Polynomial

namespace TimeStepping

open Matrix

variable {σ : Type} {n : Nat}

/-! ## Linear systems -/

/-- The terms of the exponential series up to the given degree. -/
noncomputable def taylor (degree : Nat) (M : Matrix (Fin n) (Fin n) ℝ) :
    Matrix (Fin n) (Fin n) ℝ :=
  ∑ k ∈ Finset.range (degree + 1), (k ! : ℝ)⁻¹ • M ^ k

theorem taylor_mulVec (degree : Nat) (A : Matrix (Fin n) (Fin n) ℝ) (dt : ℝ) (y : Fin n → ℝ) :
    taylor degree (dt • A) *ᵥ y =
      ∑ k ∈ Finset.range (degree + 1), ((k ! : ℝ)⁻¹ * dt ^ k) • (A ^ k *ᵥ y) := by
  rw [taylor, sum_mulVec]
  refine Finset.sum_congr rfl fun k _ => ?_
  rw [smul_mulVec, smul_pow, smul_mulVec, smul_smul]

namespace ExplicitScheme

theorem next_linear (scheme : ExplicitScheme) (A : Matrix (Fin n) (Fin n) ℝ) (y : Fin n → ℝ)
    (time dt : ℝ) :
    scheme.tableau.next (fun x _ => A *ᵥ x) y time dt = taylor scheme.order (dt • A) *ᵥ y := by
  have hone : A *ᵥ y = A ^ 1 *ᵥ y := by rw [pow_one]
  have hsucc (k : Nat) : A *ᵥ (A ^ k *ᵥ y) = A ^ (k + 1) *ᵥ y := by
    rw [mulVec_mulVec, pow_succ']
  rw [taylor_mulVec]
  -- Both sides are combinations of the vectors `A ^ k *ᵥ y`.
  cases scheme with
  | euler => simp [Tableau.next, Tableau.slopes, tableau, order, Finset.sum_range_succ]
  | rungeKutta4 | ssprk3 =>
      simp only [Tableau.next, Tableau.slopes, tableau, mix_cons, mix_nil, List.nil_append,
        List.cons_append, Scalar.ratio_real, mulVec_add, mulVec_smul, smul_zero, add_zero, hone,
        hsucc, order, Finset.sum_range_succ, Finset.sum_range_zero, Nat.factorial, pow_zero,
        one_mulVec]
      push_cast
      module

end ExplicitScheme

/-! ## Polynomials in time -/

theorem Tableau.next_of_time (tableau : Tableau) (g : ℝ → Fin n → ℝ) (y : Fin n → ℝ)
    (time dt : ℝ) :
    tableau.next (fun _ s => g s) y time dt =
      y + dt • mix tableau.weights (tableau.rows.map fun row => g (time + row.node * dt)) := by
  have hslopes (rows : List Row) (before : List (Fin n → ℝ)) :
      slopes (fun _ s => g s) y time dt rows before =
        before ++ rows.map fun row => g (time + row.node * dt) := by
    induction rows generalizing before with
    | nil => exact (List.append_nil before).symm
    | cons row rows ih => rw [slopes, ih, List.append_assoc, List.singleton_append, List.map_cons]
  rw [next, hslopes, List.nil_append]

theorem mix_sum_smul {M β ι : Type} [AddCommGroup M] [Module ℝ M] (weights : List ℝ)
    (rows : List β) (indices : Finset ι) (u : ι → β → ℝ) (c : ι → M) :
    mix weights (rows.map fun row => ∑ k ∈ indices, u k row • c k) =
      ∑ k ∈ indices, mix weights (rows.map (u k)) • c k := by
  induction weights generalizing rows with
  | nil => simp
  | cons weight weights ih =>
      cases rows with
      | nil => simp [mix]
      | cons row rows =>
          simp only [List.map_cons, mix_cons, ih, Finset.smul_sum, ← Finset.sum_add_distrib,
            add_smul, smul_assoc]

/-- The slopes of a scheme are weighted so that powers below the order are integrated. -/
theorem ExplicitScheme.quadrature_pow (scheme : ExplicitScheme) {k : Nat} (h : k < scheme.order)
    (time dt : ℝ) :
    dt * mix scheme.tableau.weights
        (scheme.tableau.rows.map fun row => (time + row.node * dt) ^ k) =
      ((time + dt) ^ (k + 1) - time ^ (k + 1)) / (k + 1) := by
  cases scheme with
  | euler =>
      obtain rfl : k = 0 := by simpa [order] using h
      simp [tableau]
  | rungeKutta4 | ssprk3 =>
      simp only [order] at h
      interval_cases k <;> simp [tableau] <;> ring

theorem integral_eval (q : ℝ[X]) {count : Nat} (h : q.natDegree < count) (a b : ℝ) :
    ∫ s in a..b, q.eval s =
      ∑ k ∈ Finset.range count, q.coeff k * ((b ^ (k + 1) - a ^ (k + 1)) / (k + 1)) := by
  simp_rw [Polynomial.eval_eq_sum_range' h]
  rw [intervalIntegral.integral_finsetSum fun k _ =>
    Continuous.intervalIntegrable (by fun_prop) a b]
  simp

theorem ExplicitScheme.next_polynomial (scheme : ExplicitScheme) (q : Fin n → ℝ[X])
    (hdegree : ∀ i, (q i).natDegree < scheme.order) (y : Fin n → ℝ) (time dt : ℝ) :
    scheme.tableau.next (fun _ s i => (q i).eval s) y time dt =
      fun i => y i + ∫ s in time..time + dt, (q i).eval s := by
  have hpowers : (fun (_ : Fin n → ℝ) (s : ℝ) i => (q i).eval s) =
      fun _ s => ∑ k ∈ Finset.range scheme.order, s ^ k • fun i => (q i).coeff k := by
    funext _ s i
    simp [Polynomial.eval_eq_sum_range' (hdegree i), mul_comm]
  calc scheme.tableau.next (fun _ s i => (q i).eval s) y time dt
      = y + ∑ k ∈ Finset.range scheme.order, (dt * mix scheme.tableau.weights
          (scheme.tableau.rows.map fun row => (time + row.node * dt) ^ k)) •
            fun i => (q i).coeff k := by
        rw [hpowers, Tableau.next_of_time _ fun s =>
          ∑ k ∈ Finset.range scheme.order, s ^ k • fun i => (q i).coeff k, mix_sum_smul,
          Finset.smul_sum]
        simp_rw [smul_smul]
    _ = y + ∑ k ∈ Finset.range scheme.order,
          (((time + dt) ^ (k + 1) - time ^ (k + 1)) / (k + 1)) • fun i => (q i).coeff k := by
        refine congrArg (y + ·) (Finset.sum_congr rfl fun k hk => ?_)
        rw [scheme.quadrature_pow (Finset.mem_range.1 hk)]
    _ = fun i => y i + ∫ s in time..time + dt, (q i).eval s := by
        funext i
        rw [integral_eval (q i) (hdegree i)]
        simp [mul_comm]

/-! ## The declared order -/

namespace ExplicitStepper

variable [Journal ℝ σ] {system : ContinuousSystem σ ℝ} {f : VelocityField σ n}
  {scheme : ExplicitScheme} {stepper : ExplicitStepper ℝ} {g : (Fin n → ℝ) → ℝ → Fin n → ℝ}

/-- What a scheme makes of a state in one step, and in runs of any number of steps.  Runs
refuse a time step that is not positive. -/
structure Delivers (system : ContinuousSystem σ ℝ) (scheme : ExplicitScheme) (y : Fin n → ℝ)
    (start dt : ℝ) (once : Fin n → ℝ) (many : Nat → Fin n → ℝ) : Prop where
  step {stepper : ExplicitStepper ℝ} (hused : Used system scheme stepper) (step : Nat) (env : σ) :
    let result := attempt system stepper (.ofCoords y) start dt step env
    result.1.ending = .done ∧ result.1.value.2 = .ofCoords once
  run {stepper : ExplicitStepper ℝ} (hused : Used system scheme stepper) (hdt : 0 < dt)
    (observer : Run.Observer σ ℝ) (count : Nat) (env : σ) :
    (Run.steps (steppable system scheme) (observer.beside _) start dt count (.ofCoords y)
      (stepper, env)).1 = ⟨.ofCoords (many count), .finished (start + count * dt)⟩

theorem delivers_of_evaluates (h : system.HasVelocity f) (hf : f.Evaluates g) {start dt : ℝ}
    {x : Nat → Fin n → ℝ}
    (hnext : ∀ k : Nat, scheme.tableau.next g (x k) (start + k * dt) dt = x (k + 1)) :
    Delivers system scheme (x 0) start dt (x 1) x where
  step hused step env := by
    have hfirst := hnext 0
    rw [Nat.cast_zero, zero_mul, add_zero] at hfirst
    rw [← hfirst]
    exact attempt_of_evaluates h hf hused (x 0) start dt step env
  run hused hdt observer count env := steps_of_evaluates h hf hused hdt hnext observer count env

/-- On a linear system the scheme takes as many terms of the exponential series as its
order says, and it integrates polynomials in time of a lower degree than its order. -/
theorem schemes_deliver_order (scheme : ExplicitScheme) (y : Fin n → ℝ) (start dt : ℝ)
    (h : system.HasVelocity f) :
    (∀ A : Matrix (Fin n) (Fin n) ℝ, f.Evaluates (fun x _ => A *ᵥ x) →
      Delivers system scheme y start dt (taylor scheme.order (dt • A) *ᵥ y)
        fun count => taylor scheme.order (dt • A) ^ count *ᵥ y) ∧
      ∀ q : Fin n → ℝ[X], (∀ i, (q i).natDegree < scheme.order) →
        f.Evaluates (fun _ s i => (q i).eval s) →
        Delivers system scheme y start dt
          (fun i => y i + ∫ s in start..start + dt, (q i).eval s)
          fun count i => y i + ∫ s in start..start + count * dt, (q i).eval s := by
  refine ⟨fun A hf => ?_, fun q hdegree hf => ?_⟩
  · have hnext (k : Nat) : scheme.tableau.next (fun x _ => A *ᵥ x)
        (taylor scheme.order (dt • A) ^ k *ᵥ y) (start + k * dt) dt =
          taylor scheme.order (dt • A) ^ (k + 1) *ᵥ y := by
      rw [scheme.next_linear, mulVec_mulVec, pow_succ']
    have hdelivers := delivers_of_evaluates h hf hnext
    rwa [pow_zero, one_mulVec, pow_one] at hdelivers
  · have hnext (k : Nat) : scheme.tableau.next (fun _ s i => (q i).eval s)
        (fun i => y i + ∫ s in start..start + k * dt, (q i).eval s) (start + k * dt) dt =
          fun i => y i + ∫ s in start..start + (k + 1 : Nat) * dt, (q i).eval s := by
      rw [scheme.next_polynomial q hdegree]
      funext i
      have hend : start + k * dt + dt = start + (k + 1 : Nat) * dt := by
        push_cast
        ring
      have hintegrable (a b : ℝ) :
          IntervalIntegrable (fun s => (q i).eval s) MeasureTheory.volume a b :=
        (q i).continuous.intervalIntegrable a b
      rw [← hend, add_assoc, intervalIntegral.integral_add_adjacent_intervals (hintegrable ..)
        (hintegrable ..)]
    have hdelivers := delivers_of_evaluates h hf hnext
    simpa only [Nat.cast_zero, Nat.cast_one, zero_mul, one_mul, add_zero,
      intervalIntegral.integral_same] using hdelivers

/-- Decay at rate 1. -/
noncomputable def decaying : VelocityField Unit 1 :=
  fun x _ => pure (.done ((-1 : Matrix (Fin 1) (Fin 1) ℝ) *ᵥ x))

/-- The square of the time. -/
noncomputable def squared : VelocityField Unit 1 :=
  fun _ time => pure (.done fun _ => (Polynomial.X ^ 2 : ℝ[X]).eval time)

theorem taylor_neg_one : taylor 3 (-1 : Matrix (Fin n) (Fin n) ℝ) = (1 / 3 : ℝ) • 1 := by
  have hterms : taylor 3 (-1 : Matrix (Fin n) (Fin n) ℝ) =
      (1 : Matrix (Fin n) (Fin n) ℝ) + -1 + (2 : ℝ)⁻¹ • 1 + (6 : ℝ)⁻¹ • -1 := by
    simp [taylor, Finset.sum_range_succ, Nat.factorial, pow_succ]
  rw [hterms]
  module

/-- Two steps of length 1 from 1: decay multiplies by 1 - 1 + 1/2 - 1/6 in each, and the
squares of the times from 0 to 2 add up to 8/3. -/
theorem schemes_deliver_order_ssprk3 :
    let run (f : VelocityField Unit 1) :=
      let system := ContinuousSystem.ofVelocity f
      let silent : Run.Observer Unit ℝ := fun _ _ _ => pure ()
      (Run.steps (steppable system .ssprk3) (silent.beside _) 0 1 2 (.ofCoords (1 : Fin 1 → ℝ))
        (fresh .ssprk3 system, ())).1
    run decaying = ⟨.ofCoords (fun _ : Fin 1 => 1 / 9), .finished 2⟩ ∧
      run squared = ⟨.ofCoords (fun _ : Fin 1 => 11 / 3), .finished 2⟩ := by
  intro run
  have hdecaying := (schemes_deliver_order .ssprk3 (1 : Fin 1 → ℝ) 0 1
    (ContinuousSystem.hasVelocity_ofVelocity decaying)).1 (-1) fun _ _ _ => rfl
  have hsquared := (schemes_deliver_order .ssprk3 (1 : Fin 1 → ℝ) 0 1
    (ContinuousSystem.hasVelocity_ofVelocity squared)).2 (fun _ => Polynomial.X ^ 2)
      (by simp [ExplicitScheme.order]) fun _ _ _ => rfl
  have hend : (0 + ((2 : Nat) : ℝ) * 1) = 2 := by norm_num
  refine ⟨(hdecaying.run .fresh one_pos _ 2 ()).trans ?_,
    (hsquared.run .fresh one_pos _ 2 ()).trans ?_⟩
  · have htwice : taylor ExplicitScheme.ssprk3.order ((1 : ℝ) • (-1)) ^ 2 *ᵥ (1 : Fin 1 → ℝ) =
        fun _ => 1 / 9 := by
      rw [one_smul, ExplicitScheme.order, taylor_neg_one, smul_pow, one_pow, smul_mulVec,
        one_mulVec]
      funext i
      norm_num
    rw [hend, htwice]
  · have hsum (i : Fin 1) :
        (1 : Fin 1 → ℝ) i + ∫ s in (0 : ℝ)..2, (Polynomial.X ^ 2 : ℝ[X]).eval s = 11 / 3 := by
      have hdegree : (Polynomial.X ^ 2 : ℝ[X]).natDegree < 3 := by simp
      rw [integral_eval (Polynomial.X ^ 2) hdegree]
      norm_num [Polynomial.coeff_X_pow]
    rw [hend]
    simp only [hsum]

end ExplicitStepper

end TimeStepping
