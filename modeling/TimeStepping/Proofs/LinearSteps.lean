import Mathlib.LinearAlgebra.Matrix.ToLinearEquiv
import TimeStepping.Proofs.Elimination
import TimeStepping.Proofs.Iteration
import TimeStepping.Proofs.Linearization

/-!
# Steps of linear systems

The equation of a step of an affine system is affine, with the Jacobian of the step as
its matrix.  Where that is nonsingular, one Newton correction leads to the root, where
the residual is zero.  Main statement: `StepEquation.linear_steps_reach_root`.
-/

namespace TimeStepping

open Matrix

variable {σ : Type} {n : Nat}

namespace Newton

/-- The method finds the solution of every system with a nonsingular matrix. -/
def SolvesNonsingular (linear : LinearSolver ℝ) : Prop :=
  ∀ {n : Nat} (M : Matrix (Fin n) (Fin n) ℝ) (b : Fin n → ℝ), 0 < n → M.det ≠ 0 →
    ∃ x, linear (.ofMatrix M) (.ofCoords b) = .ok (some (.ofCoords x)) ∧ M *ᵥ x = b

theorem solvesNonsingular_solve : SolvesNonsingular Mat.solve :=
  fun _ b hpos hdet => Mat.exists_solve (fun _ => eq_zero_of_mulVec_eq_zero hdet) hpos b

/-- The residual is an affine function of the state, with the matrix `M`. -/
structure Affine (equations : AlgebraicSystem σ ℝ) (R : (Fin n → ℝ) → Fin n → ℝ)
    (M : Matrix (Fin n) (Fin n) ℝ) : Prop where
  residual : equations.HasResidual Set.univ R
  jacobian : equations.HasJacobian Set.univ fun _ => M
  change (x v : Fin n → ℝ) : R (x + v) = R x + M *ᵥ v

namespace Affine

variable {equations : AlgebraicSystem σ ℝ} {R : (Fin n → ℝ) → Fin n → ℝ}
  {M : Matrix (Fin n) (Fin n) ℝ}

theorem eq_of_root (h : Affine equations R M) (hdet : M.det ≠ 0) {x root : Fin n → ℝ}
    (hroot : R root = 0) (hx : R x = 0) : x = root := by
  have hchange := h.change root (x - root)
  rw [add_sub_cancel, hx, hroot, zero_add] at hchange
  exact sub_eq_zero.1 (eq_zero_of_mulVec_eq_zero hdet hchange.symm)

theorem exists_root (h : Affine equations R M) (hdet : M.det ≠ 0) : ∃ root, R root = 0 := by
  have hunit : IsUnit M.det := isUnit_iff_ne_zero.2 hdet
  refine ⟨0 + M⁻¹ *ᵥ -R 0, ?_⟩
  rw [h.change, mulVec_mulVec, mul_nonsing_inv M hunit, one_mulVec, add_neg_cancel]

variable {settings : Settings ℝ} {linear : LinearSolver ℝ} {x root : Fin n → ℝ}

/-- The correction leads to the root. -/
theorem correct_eq (h : Affine equations R M) (hdet : M.det ≠ 0) (hpos : 0 < n)
    (hlinear : SolvesNonsingular linear) (hroot : R root = 0) (settings : Settings ℝ)
    (iteration : Nat) (x : Fin n → ℝ) :
    correct settings linear iteration (.ofCoords x) (.ofCoords (R x)) (.ofMatrix M) =
        .inl ⟨.ofCoords root, iteration + 1, .done⟩ ∨
      correct settings linear iteration (.ofCoords x) (.ofCoords (R x)) (.ofMatrix M) =
        .inr (.ofCoords root) := by
  obtain ⟨delta, hsolved, hdelta⟩ := hlinear M (-R x) hpos hdet
  have hnext : R (x + delta) = 0 := by rw [h.change, hdelta, add_neg_cancel]
  obtain rfl := h.eq_of_root hdet hroot hnext
  simp only [correct, Vec.negate_ofCoords, hsolved, Vec.add_ofCoords, Scalar.isFinite_real,
    Bool.not_true, Bool.false_eq_true, if_false]
  by_cases hmet : settings.correctionMet (Vec.norm (.ofCoords delta))
      (Vec.norm (.ofCoords (x + delta))) = true
  · left
    rw [if_pos hmet]
  · right
    rw [if_neg hmet]

variable [Journal ℝ σ]

theorem run_of_met (h : Affine equations R M) (hlimit : 0 < settings.maxIterations)
    (hmet : Vec.norm (.ofCoords (R x)) ≤ settings.residualAbs) (env : σ) :
    (run settings linear equations (.ofCoords x) env).1 = ⟨.ofCoords x, 0, .done⟩ := by
  obtain ⟨remaining, hremaining⟩ : ∃ remaining, settings.maxIterations = remaining + 1 :=
    ⟨settings.maxIterations - 1, by omega⟩
  have hresidual := h.residual.eval (Set.mem_univ x) h.residual.size_buffer env
  rw [run, hremaining]
  exact iterate_of_met remaining hresidual rfl (by simp [Settings.residualMet, hmet])

theorem run_of_unmet (h : Affine equations R M) (hdet : M.det ≠ 0)
    (hlinear : SolvesNonsingular linear) (hlimit : 2 ≤ settings.maxIterations)
    (htolerance : 0 ≤ settings.residualAbs) (hroot : R root = 0)
    (hunmet : settings.residualAbs < Vec.norm (.ofCoords (R x))) (env : σ) :
    (run settings linear equations (.ofCoords x) env).1 = ⟨.ofCoords root, 1, .done⟩ := by
  have hpos : 0 < n := by
    by_contra hzero
    obtain rfl : n = 0 := by omega
    have hnorm := Vec.norm_zeros 0
    rw [Vec.zeros_eq_ofCoords, Subsingleton.elim (0 : Fin 0 → ℝ) (R x)] at hnorm
    exact absurd hunmet (not_lt.2 (hnorm.trans_le htolerance))
  obtain ⟨remaining, hremaining⟩ : ∃ remaining, settings.maxIterations = remaining + 1 + 1 :=
    ⟨settings.maxIterations - 2, by omega⟩
  have hresidual := h.residual.eval (Set.mem_univ x) h.residual.size_buffer env
  have hjacobian := fun env => h.jacobian.eval (Set.mem_univ x) h.jacobian.shape_buffer env
  have hfirst : settings.residualMet 0 (Vec.norm (.ofCoords (R x)))
      (Vec.norm (.ofCoords (R x))) = false := by
    simp [Settings.residualMet, hunmet]
  obtain ⟨after, hafter⟩ := iterate_of_unmet (remaining + 1) hresidual rfl hfirst hjacobian
  rw [run, hremaining, hafter, afterCorrection]
  rcases h.correct_eq hdet hpos hlinear hroot settings 0 x with hdone | hopen
  · rw [hdone]
    rfl
  · -- The second pass finds that the residual is zero.
    rw [hopen]
    have hzero := h.residual.eval (Set.mem_univ root) (Vec.size_ofCoords (R x)) after
    rw [hroot, ← Vec.zeros_eq_ofCoords] at hzero
    have hsecond :
        settings.residualMet 1 (Vec.norm (.ofCoords (R x))) (Vec.norm (Vec.zeros n)) := by
      simp [Settings.residualMet, Vec.norm_zeros, htolerance]
    exact iterate_of_met remaining hzero rfl hsecond

end Affine

end Newton

namespace StepEquation

/-- Newton iteration is exact on the steps of a linear system.  With a method that solves
the systems with a nonsingular matrix, room for two iterations and a tolerance that zero
meets, the solve of the equation of a step ends after at most one iteration, at the state
it started from, if the residual is small enough there, and otherwise at the one root. -/
theorem linear_steps_reach_root [Journal ℝ σ] (A : Matrix (Fin n) (Fin n) ℝ) (g : ℝ → Fin n → ℝ)
    (system : ContinuousSystem σ ℝ)
    (hvelocity : ∀ time, (system.frozenAt time).HasResidual Set.univ fun y => A *ᵥ y + g time)
    (hjacobian : ∀ time, (system.frozenAt time).HasJacobian Set.univ fun _ => A)
    (point : StepPoint ℝ) {stencil : Stencil ℝ}
    (hstencil : ∀ state ∈ stencil.slots, state.size = n) {table : BdfTable ℝ}
    (htable : BdfTable.ofSize? stencil.size = some table)
    (hregular : (1 - (table.beta * point.dt) • A).det ≠ 0) {linear : Newton.LinearSolver ℝ}
    (hlinear : Newton.SolvesNonsingular linear) {settings : Newton.Settings ℝ}
    (hlimit : 2 ≤ settings.maxIterations) (htolerance : 0 ≤ settings.residualAbs)
    (start : Fin n → ℝ) (env : σ) :
    let equations := (bdf system).system point stencil
    let report := (Newton.run settings linear equations (.ofCoords start) env).1
    ∃ (R : (Fin n → ℝ) → Fin n → ℝ) (root : Fin n → ℝ), equations.HasResidual Set.univ R ∧
      (∀ x, R x = 0 ↔ x = root) ∧ report.ending = .done ∧ report.iterations ≤ 1 ∧
      (report.state = .ofCoords start ∨ report.state = .ofCoords root) ∧
      (report.state = .ofCoords start ↔
        Vec.norm (.ofCoords (R start)) ≤ settings.residualAbs) := by
  intro equations report
  obtain ⟨ys, hslots⟩ := Vec.exists_map_ofCoords hstencil
  let R (y : Fin n → ℝ) : Fin n → ℝ :=
    y - mix table.alpha ys - (table.beta * point.dt) • (A *ᵥ y + g point.time)
  have hstep : Newton.Affine equations R (1 - (table.beta * point.dt) • A) := by
    constructor
    case residual => exact (hvelocity point.time).step hslots htable point.step point.dt
    case jacobian => exact (hjacobian point.time).step htable point.step point.dt
    case change =>
      intro x v
      simp only [R, mulVec_add, sub_mulVec, one_mulVec, smul_mulVec]
      module
  obtain ⟨root, hroot⟩ := hstep.exists_root hregular
  have hunique : ∀ x, R x = 0 ↔ x = root :=
    fun x => ⟨hstep.eq_of_root hregular hroot, fun hx => hx ▸ hroot⟩
  refine ⟨R, root, hstep.residual, hunique, ?_⟩
  by_cases hmet : Vec.norm (.ofCoords (R start)) ≤ settings.residualAbs
  · have hreport : report = ⟨.ofCoords start, 0, .done⟩ := hstep.run_of_met (by omega) hmet env
    rw [hreport]
    exact ⟨rfl, Nat.zero_le 1, .inl rfl, iff_of_true rfl hmet⟩
  · have hreport : report = ⟨.ofCoords root, 1, .done⟩ :=
      hstep.run_of_unmet hregular hlinear hlimit htolerance hroot (not_le.1 hmet) env
    have hmoved : Vec.ofCoords root ≠ Vec.ofCoords start := by
      intro heq
      rw [← Vec.ofCoords_injective heq, hroot, ← Vec.zeros_eq_ofCoords, Vec.norm_zeros] at hmet
      exact hmet htolerance
    rw [hreport]
    exact ⟨rfl, le_refl 1, .inr rfl, iff_of_false hmoved hmet⟩

def rotation : Matrix (Fin 2) (Fin 2) ℝ :=
  !![0, 1; -1, 0]

/-- A rotation with a growing force on the first component. -/
noncomputable def forced : ContinuousSystem Unit ℝ where
  velocityBuffer := Vec.zeros 2
  jacobianBuffer := Mat.zeros 2 2
  velocity state time _ :=
    pure (.done (.ofCoords ![state.getD 1 0 + time, -state.getD 0 0]))
  jacobian _ _ _ := pure (.done (.ofMatrix rotation))

theorem linear_steps_reach_root_forced :
    let equations := (bdf forced).system ⟨2, 1, 1 / 2⟩ ⟨.ofCoords ![1, 0], [.ofCoords ![0, 1]]⟩
    let report := (Newton.run .standard Mat.solve equations (.ofCoords ![3, 4]) ()).1
    report.ending = .done ∧ report.iterations ≤ 1 ∧
      ∃ R : (Fin 2 → ℝ) → Fin 2 → ℝ, equations.HasResidual Set.univ R ∧
        ∃ root, R root = 0 ∧
          (report.state = .ofCoords ![3, 4] ∨ report.state = .ofCoords root) := by
  intro equations report
  have hvelocity : ∀ time, (forced.frozenAt time).HasResidual Set.univ
      fun y => rotation *ᵥ y + ![time, 0] := by
    intro time
    constructor
    case size_buffer => rfl
    case eval =>
      intro y _ buffer _ env
      change Outcome.done _ = Outcome.done (Vec.ofCoords _)
      congr 2
      funext i
      fin_cases i <;> simp [rotation, dotProduct]
  have hjacobian : ∀ time, (forced.frozenAt time).HasJacobian Set.univ
      fun _ => rotation := by
    intro time
    constructor
    case shape_buffer => exact ⟨rfl, rfl⟩
    case eval => exact fun _ _ _ _ => rfl
  have hregular : (1 - (Scalar.ratio 2 3 * (1 / 2) : ℝ) • rotation).det ≠ 0 := by
    norm_num [rotation, det_fin_two, Matrix.one_apply]
  have hlimit : 2 ≤ (Newton.Settings.standard : Newton.Settings ℝ).maxIterations := by
    norm_num [Newton.Settings.standard, Newton.Settings.withTolerance]
  have htolerance : 0 ≤ (Newton.Settings.standard : Newton.Settings ℝ).residualAbs := by
    norm_num [Newton.Settings.standard, Newton.Settings.withTolerance]
  have hstencil : ∀ state ∈ (⟨.ofCoords ![1, 0], [.ofCoords ![0, 1]]⟩ : Stencil ℝ).slots,
      state.size = 2 := by
    simp [Stencil.slots]
  obtain ⟨R, root, hR, hroot, hdone, hcount, hstate, -⟩ :=
    linear_steps_reach_root rotation (fun time => ![time, 0]) forced hvelocity hjacobian
      ⟨2, 1, 1 / 2⟩ hstencil rfl hregular Newton.solvesNonsingular_solve hlimit htolerance
      ![3, 4] ()
  exact ⟨hdone, hcount, R, hR, root, (hroot root).2 rfl, hstate⟩

end StepEquation

end TimeStepping
