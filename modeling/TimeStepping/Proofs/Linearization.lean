import Mathlib.Analysis.Calculus.FDeriv.Add
import Mathlib.Analysis.Calculus.FDeriv.Comp
import Mathlib.Analysis.Calculus.FDeriv.Mul
import Mathlib.Analysis.Normed.Module.FiniteDimension
import TimeStepping.Proofs.Reduction

/-!
# Linearizations

Over the real numbers, an evaluation that is completed is a function of the state, and
what a Jacobian leaves of the change of that function is its remainder.  The equation
of a step scales the remainder of the system it is about, and a reduced model projects
it; so a Jacobian that is the derivative stays one.  Main statement:
`ContinuousSystem.remainders_carry_over`.
-/

namespace TimeStepping

open Matrix

variable {σ : Type} {n m k : Nat}

/-! ## Evaluations as functions -/

namespace AlgebraicSystem

/-- On the domain, the residual is completed and is the given function of the state.
Nothing is said of it elsewhere. -/
structure HasResidual (equations : AlgebraicSystem σ ℝ) (domain : Set (Fin n → ℝ))
    (F : (Fin n → ℝ) → Fin m → ℝ) : Prop where
  size_buffer : equations.residualBuffer.size = m
  eval {x : Fin n → ℝ} (hx : x ∈ domain) {buffer : Vec ℝ} (hbuffer : buffer.size = m) (env : σ) :
    (equations.residual (.ofCoords x) buffer env).1 = .done (.ofCoords (F x))

/-- On the domain, the Jacobian is completed and is the given function of the state. -/
structure HasJacobian (equations : AlgebraicSystem σ ℝ) (domain : Set (Fin n → ℝ))
    (J : (Fin n → ℝ) → Matrix (Fin m) (Fin n) ℝ) : Prop where
  shape_buffer : equations.jacobianBuffer.rows = m ∧ equations.jacobianBuffer.cols = n
  eval {x : Fin n → ℝ} (hx : x ∈ domain) {buffer : Mat ℝ}
    (hbuffer : buffer.rows = m ∧ buffer.cols = n) (env : σ) :
    (equations.jacobian (.ofCoords x) buffer env).1 = .done (.ofMatrix (J x))

section Steps

variable {system : ContinuousSystem σ ℝ} {domain : Set (Fin n → ℝ)}
  {f : (Fin n → ℝ) → Fin n → ℝ} {J : (Fin n → ℝ) → Matrix (Fin n) (Fin n) ℝ} {time : ℝ}
  {stencil : Stencil ℝ} {ys : List (Fin n → ℝ)} {table : BdfTable ℝ}

theorem HasResidual.step (h : (system.frozenAt time).HasResidual domain f)
    (hslots : stencil.slots = ys.map .ofCoords)
    (htable : BdfTable.ofSize? stencil.size = some table) (step : Nat) (dt : ℝ) :
    ((StepEquation.bdf system).system ⟨step, time, dt⟩ stencil).HasResidual domain
      fun y => y - mix table.alpha ys - (table.beta * dt) • f y := by
  constructor
  case size_buffer => exact h.size_buffer
  case eval =>
    intro y hy buffer hbuffer env
    change ((StepEquation.bdf system).residual ⟨step, time, dt⟩ stencil _ buffer env).1 = _
    rw [StepEquation.residual_of_velocity htable (h.eval hy hbuffer env), hslots,
      BdfTable.residual_ofCoords]
    rfl

theorem HasJacobian.step (h : (system.frozenAt time).HasJacobian domain J)
    (htable : BdfTable.ofSize? stencil.size = some table) (step : Nat) (dt : ℝ) :
    ((StepEquation.bdf system).system ⟨step, time, dt⟩ stencil).HasJacobian domain
      fun y => 1 - (table.beta * dt) • J y := by
  constructor
  case shape_buffer => exact h.shape_buffer
  case eval =>
    intro y hy buffer hbuffer env
    change ((StepEquation.bdf system).jacobian ⟨step, time, dt⟩ stencil _ buffer env).1 = _
    rw [StepEquation.jacobian_of_evaluated htable (h.eval hy hbuffer env),
      BdfTable.jacobian_ofMatrix]

end Steps

section Reductions

variable {model : Galerkin σ ℝ} {Φ : Matrix (Fin n) (Fin k) ℝ} {r : Fin n → ℝ} {time : ℝ}
  {domain : Set (Fin n → ℝ)} {f : (Fin n → ℝ) → Fin n → ℝ}
  {J : (Fin n → ℝ) → Matrix (Fin n) (Fin n) ℝ}

theorem HasResidual.reduced (hmodel : model.Coordinates Φ r)
    (h : (model.full.frozenAt time).HasResidual domain f) :
    (model.system.frozenAt time).HasResidual {z | Φ *ᵥ z + r ∈ domain}
      fun z => Φᵀ *ᵥ f (Φ *ᵥ z + r) := by
  constructor
  case size_buffer => exact hmodel.size_velocityBuffer
  case eval =>
    intro z hz buffer hbuffer env
    have hfull := h.eval hz h.size_buffer env
    have hfits : buffer.size = (Vec.ofCoords (Φᵀ *ᵥ f (Φ *ᵥ z + r))).size := by
      rw [hbuffer, Vec.size_ofCoords]
    exact congrArg Prod.fst (Galerkin.velocity_of_done time (hmodel.reconstruct_ofCoords z) hfull
      (hmodel.applyTranspose_ofCoords _) hfits)

theorem HasJacobian.reduced (hmodel : model.Coordinates Φ r)
    (h : (model.full.frozenAt time).HasJacobian domain J) :
    (model.system.frozenAt time).HasJacobian {z | Φ *ᵥ z + r ∈ domain}
      fun z => Φᵀ * (J (Φ *ᵥ z + r) * Φ) := by
  constructor
  case shape_buffer => exact hmodel.shape_jacobianBuffer
  case eval =>
    intro z hz buffer hbuffer env
    have hfull := h.eval hz h.shape_buffer env
    have hfits : buffer.rows = (Mat.ofMatrix (Φᵀ * (J (Φ *ᵥ z + r) * Φ))).rows ∧
        buffer.cols = (Mat.ofMatrix (Φᵀ * (J (Φ *ᵥ z + r) * Φ))).cols := by
      rwa [Mat.rows_ofMatrix, Mat.cols_ofMatrix]
    exact congrArg Prod.fst (Galerkin.jacobian_of_done time (hmodel.reconstruct_ofCoords z) hfull
      (hmodel.between_ofMatrix _) hfits)

end Reductions

end AlgebraicSystem

/-! ## Remainders and derivatives -/

/-- What the Jacobian leaves of the change of a function from `x` to `x + v`. -/
noncomputable def remainder (F : (Fin n → ℝ) → Fin m → ℝ)
    (J : (Fin n → ℝ) → Matrix (Fin m) (Fin n) ℝ) (x v : Fin n → ℝ) : Fin m → ℝ :=
  F (x + v) - F x - J x *ᵥ v

/-- The Jacobian at `x` is the derivative there, within the domain. -/
def IsDerivativeAt (F : (Fin n → ℝ) → Fin m → ℝ) (J : (Fin n → ℝ) → Matrix (Fin m) (Fin n) ℝ)
    (domain : Set (Fin n → ℝ)) (x : Fin n → ℝ) : Prop :=
  HasFDerivWithinAt F (J x).mulVecLin.toContinuousLinearMap domain x

section Remainders

variable (f : (Fin n → ℝ) → Fin n → ℝ) (J : (Fin n → ℝ) → Matrix (Fin n) (Fin n) ℝ)

theorem remainder_step (past : Fin n → ℝ) (c : ℝ) (y v : Fin n → ℝ) :
    remainder (fun y => y - past - c • f y) (fun y => 1 - c • J y) y v =
      -(c • remainder f J y v) := by
  simp only [remainder, sub_mulVec, one_mulVec, smul_mulVec]
  module

theorem remainder_reduced (Φ : Matrix (Fin n) (Fin k) ℝ) (r : Fin n → ℝ) (z w : Fin k → ℝ) :
    remainder (fun z => Φᵀ *ᵥ f (Φ *ᵥ z + r)) (fun z => Φᵀ * (J (Φ *ᵥ z + r) * Φ)) z w =
      Φᵀ *ᵥ remainder f J (Φ *ᵥ z + r) (Φ *ᵥ w) := by
  have hmove : Φ *ᵥ (z + w) + r = Φ *ᵥ z + r + Φ *ᵥ w := by
    rw [mulVec_add]
    abel
  simp only [remainder, hmove, mulVec_sub, mulVec_mulVec]

end Remainders

section Derivatives

variable {f : (Fin n → ℝ) → Fin n → ℝ} {J : (Fin n → ℝ) → Matrix (Fin n) (Fin n) ℝ}
  {domain : Set (Fin n → ℝ)}

theorem IsDerivativeAt.step {y : Fin n → ℝ} (h : IsDerivativeAt f J domain y)
    (past : Fin n → ℝ) (c : ℝ) :
    IsDerivativeAt (fun y => y - past - c • f y) (fun y => 1 - c • J y) domain y := by
  have hmap : (1 - c • J y).mulVecLin.toContinuousLinearMap =
      ContinuousLinearMap.id ℝ (Fin n → ℝ) - c • (J y).mulVecLin.toContinuousLinearMap := by
    apply ContinuousLinearMap.ext
    intro v
    change (1 - c • J y) *ᵥ v = v - c • J y *ᵥ v
    rw [sub_mulVec, one_mulVec, smul_mulVec]
  rw [IsDerivativeAt, hmap]
  exact ((hasFDerivWithinAt_id y domain).sub_const past).sub (h.const_smul c)

theorem IsDerivativeAt.reduced {Φ : Matrix (Fin n) (Fin k) ℝ} {r : Fin n → ℝ} {z : Fin k → ℝ}
    (h : IsDerivativeAt f J domain (Φ *ᵥ z + r)) :
    IsDerivativeAt (fun z => Φᵀ *ᵥ f (Φ *ᵥ z + r)) (fun z => Φᵀ * (J (Φ *ᵥ z + r) * Φ))
      {z | Φ *ᵥ z + r ∈ domain} z := by
  have hmap : (Φᵀ * (J (Φ *ᵥ z + r) * Φ)).mulVecLin.toContinuousLinearMap =
      Φᵀ.mulVecLin.toContinuousLinearMap.comp
        ((J (Φ *ᵥ z + r)).mulVecLin.toContinuousLinearMap.comp
          Φ.mulVecLin.toContinuousLinearMap) := by
    apply ContinuousLinearMap.ext
    intro w
    change (Φᵀ * (J (Φ *ᵥ z + r) * Φ)) *ᵥ w = Φᵀ *ᵥ J (Φ *ᵥ z + r) *ᵥ Φ *ᵥ w
    rw [mulVec_mulVec, mulVec_mulVec, Matrix.mul_assoc]
  have hreconstruct : HasFDerivWithinAt (fun z => Φ *ᵥ z + r)
      Φ.mulVecLin.toContinuousLinearMap {z | Φ *ᵥ z + r ∈ domain} z :=
    Φ.mulVecLin.toContinuousLinearMap.hasFDerivWithinAt.add_const r
  have hfull : HasFDerivWithinAt (fun z => f (Φ *ᵥ z + r)) _ {z | Φ *ᵥ z + r ∈ domain} z :=
    HasFDerivWithinAt.comp (g := f) z h hreconstruct fun _ hw => hw
  rw [IsDerivativeAt, hmap]
  exact Φᵀ.mulVecLin.toContinuousLinearMap.hasFDerivAt.comp_hasFDerivWithinAt z hfull

end Derivatives

/-! ## The equation of a step and reduced models -/

/-- On the domain the equations evaluate a residual and a Jacobian, which leaves the
remainder `q` and is the derivative at the states told. -/
def AlgebraicSystem.LinearizedWith (equations : AlgebraicSystem σ ℝ) (domain : Set (Fin n → ℝ))
    (q : (Fin n → ℝ) → (Fin n → ℝ) → Fin n → ℝ) (smooth : (Fin n → ℝ) → Prop) : Prop :=
  ∃ F J, equations.HasResidual domain F ∧ equations.HasJacobian domain J ∧
    (∀ x v, F (x + v) = F x + J x *ᵥ v + q x v) ∧ ∀ x, smooth x → IsDerivativeAt F J domain x

theorem AlgebraicSystem.LinearizedWith.intro {equations : AlgebraicSystem σ ℝ}
    {domain : Set (Fin n → ℝ)} {q : (Fin n → ℝ) → (Fin n → ℝ) → Fin n → ℝ}
    {smooth : (Fin n → ℝ) → Prop} {F : (Fin n → ℝ) → Fin n → ℝ}
    {J : (Fin n → ℝ) → Matrix (Fin n) (Fin n) ℝ} (hF : equations.HasResidual domain F)
    (hJ : equations.HasJacobian domain J) (hq : ∀ x v, remainder F J x v = q x v)
    (hsmooth : ∀ x, smooth x → IsDerivativeAt F J domain x) :
    equations.LinearizedWith domain q smooth := by
  refine ⟨F, J, hF, hJ, fun x v => ?_, hsmooth⟩
  rw [← hq, remainder]
  abel

namespace StepEquation

variable {system : ContinuousSystem σ ℝ} {domain : Set (Fin n → ℝ)}
  {f : (Fin n → ℝ) → Fin n → ℝ} {J : (Fin n → ℝ) → Matrix (Fin n) (Fin n) ℝ} {time : ℝ}

theorem bdf_linearized (hf : (system.frozenAt time).HasResidual domain f)
    (hJ : (system.frozenAt time).HasJacobian domain J) (step : Nat) (dt : ℝ)
    {stencil : Stencil ℝ} (hsize : stencil.size ≤ 3)
    (hstencil : ∀ state ∈ stencil.slots, state.size = n) :
    ∃ table, BdfTable.ofSize? stencil.size = some table ∧
      ((bdf system).system ⟨step, time, dt⟩ stencil).LinearizedWith domain
        (fun y v => -((table.beta * dt) • remainder f J y v)) (IsDerivativeAt f J domain) := by
  have hpos : 0 < stencil.size := Nat.succ_pos _
  obtain ⟨table, htable⟩ := BdfTable.exists_ofSize? (α := ℝ) hpos hsize
  obtain ⟨ys, hslots⟩ := Vec.exists_map_ofCoords hstencil
  exact ⟨table, htable, .intro (hf.step hslots htable step dt) (hJ.step htable step dt)
    (remainder_step f J _ _) fun y h => h.step _ _⟩

end StepEquation

/-- Jacobians stay as good as they are.  Write the change of the velocity of a system, on
the domain where it is evaluated, as the Jacobian and a remainder.  Then the residual of a
step has the same remainder, times `-beta * dt`; the reduced model over any basis and
reference has the remainder between the reconstructed states, tested against the basis;
and so has the residual of a step of the reduced model.  Where the Jacobian is the
derivative, so are those of the step and of the reduced model. -/
theorem ContinuousSystem.remainders_carry_over (system : ContinuousSystem σ ℝ) {time : ℝ}
    {domain : Set (Fin n → ℝ)} {f : (Fin n → ℝ) → Fin n → ℝ}
    {J : (Fin n → ℝ) → Matrix (Fin n) (Fin n) ℝ}
    (hf : (system.frozenAt time).HasResidual domain f)
    (hJ : (system.frozenAt time).HasJacobian domain J) :
    (∀ (step : Nat) (dt : ℝ) (stencil : Stencil ℝ), stencil.size ≤ 3 →
      (∀ state ∈ stencil.slots, state.size = n) →
        ∃ table, BdfTable.ofSize? stencil.size = some table ∧
          ((StepEquation.bdf system).system ⟨step, time, dt⟩ stencil).LinearizedWith domain
            (fun y v => -((table.beta * dt) • remainder f J y v)) (IsDerivativeAt f J domain)) ∧
    ∀ {k : Nat} (Φ : Matrix (Fin n) (Fin k) ℝ) (r : Fin n → ℝ),
      ∃ model, Galerkin.ofBasis system (.ofMatrix Φ) (.ofCoords r) = .ok model ∧
        let full z := Φ *ᵥ z + r
        let q z w := Φᵀ *ᵥ remainder f J (full z) (Φ *ᵥ w)
        let smooth z := IsDerivativeAt f J domain (full z)
        (∀ z, model.reconstruct (.ofCoords z) = .ok (.ofCoords (full z))) ∧
        (model.system.frozenAt time).LinearizedWith {z | full z ∈ domain} q smooth ∧
        ∀ (step : Nat) (dt : ℝ) (stencil : Stencil ℝ), stencil.size ≤ 3 →
          (∀ state ∈ stencil.slots, state.size = k) →
            ∃ table, BdfTable.ofSize? stencil.size = some table ∧
              ((StepEquation.bdf model.system).system ⟨step, time, dt⟩ stencil).LinearizedWith
                {z | full z ∈ domain} (fun z w => -((table.beta * dt) • q z w)) smooth := by
  refine ⟨fun step dt stencil => StepEquation.bdf_linearized hf hJ step dt, fun Φ r => ?_⟩
  have hrows : (Mat.ofMatrix Φ).rows = system.velocityBuffer.size := hf.size_buffer.symm
  have hreference : (Vec.ofCoords r).size = system.velocityBuffer.size := by
    rw [Vec.size_ofCoords]
    exact hf.size_buffer.symm
  let model : Galerkin σ ℝ := ⟨system, .ofMatrix Φ, .ofCoords r, hrows, hreference⟩
  have hmodel : model.Coordinates Φ r := ⟨rfl, rfl⟩
  have hf' := AlgebraicSystem.HasResidual.reduced hmodel hf
  have hJ' := AlgebraicSystem.HasJacobian.reduced hmodel hJ
  have hremainder := remainder_reduced f J Φ r
  refine ⟨model, dif_pos ⟨hrows, hreference⟩, hmodel.reconstruct_ofCoords, ?_, ?_⟩
  · exact .intro hf' hJ' hremainder fun z h => h.reduced
  · intro step dt stencil hsize hstencil
    obtain ⟨table, htable, F, K, hF, hK, hchange, hsmooth⟩ :=
      StepEquation.bdf_linearized hf' hJ' step dt hsize hstencil
    simp only [hremainder] at hchange
    exact ⟨table, htable, F, K, hF, hK, hchange, fun z h => hsmooth z h.reduced⟩

namespace Coupled

/-- Two components with the velocities `y₀ y₁` and `y₀²`. -/
noncomputable def system : ContinuousSystem Unit ℝ where
  velocityBuffer := Vec.zeros 2
  jacobianBuffer := Mat.zeros 2 2
  velocity state _ _ :=
    pure (.done (.ofCoords ![state.getD 0 0 * state.getD 1 0, state.getD 0 0 ^ 2]))
  jacobian state _ _ :=
    pure (.done (.ofMatrix !![state.getD 1 0, state.getD 0 0; state.getD 0 0 + state.getD 0 0, 0]))

def velocity (y : Fin 2 → ℝ) : Fin 2 → ℝ :=
  ![y 0 * y 1, y 0 ^ 2]

def jacobian (y : Fin 2 → ℝ) : Matrix (Fin 2) (Fin 2) ℝ :=
  !![y 1, y 0; y 0 + y 0, 0]

theorem hasResidual (time : ℝ) : (system.frozenAt time).HasResidual Set.univ velocity := by
  constructor
  case size_buffer => rfl
  case eval =>
    intro y _ buffer _ env
    change Outcome.done _ = Outcome.done (Vec.ofCoords (velocity y))
    simp [velocity]

theorem hasJacobian (time : ℝ) : (system.frozenAt time).HasJacobian Set.univ jacobian := by
  constructor
  case shape_buffer => exact ⟨rfl, rfl⟩
  case eval =>
    intro y _ buffer _ env
    change Outcome.done _ = Outcome.done (Mat.ofMatrix (jacobian y))
    simp [jacobian]

theorem remainder_eq (y v : Fin 2 → ℝ) :
    remainder velocity jacobian y v = ![v 0 * v 1, v 0 ^ 2] := by
  funext i
  fin_cases i
  · simp [remainder, velocity, jacobian, dotProduct]
    ring
  · simp [remainder, velocity, jacobian, dotProduct]
    ring

/-- The basis is not orthonormal: its square is 5. -/
theorem transpose_mulVec_remainder (w : Fin 1 → ℝ) :
    (!![2; 1] : Matrix (Fin 2) (Fin 1) ℝ)ᵀ *ᵥ
      ![(!![2; 1] *ᵥ w) 0 * (!![2; 1] *ᵥ w) 1, (!![2; 1] *ᵥ w) 0 ^ 2] = ![8 * w 0 ^ 2] := by
  funext i
  fin_cases i
  simp [mulVec, dotProduct]
  ring

end Coupled

theorem ContinuousSystem.remainders_carry_over_coupled :
    (∃ smooth, ((StepEquation.bdf Coupled.system).system ⟨1, 0, 1 / 2⟩
      ⟨.ofCoords ![1, 1], []⟩).LinearizedWith Set.univ
        (fun _ v => -((1 * (1 / 2) : ℝ) • ![v 0 * v 1, v 0 ^ 2])) smooth) ∧
    ∃ model, Galerkin.ofBasis Coupled.system (.ofMatrix !![2; 1]) (.ofCoords ![0, 1]) =
        .ok model ∧
      ∃ smooth, (model.system.frozenAt 0).LinearizedWith Set.univ
        (fun _ w : Fin 1 → ℝ => ![8 * w 0 ^ 2]) smooth := by
  obtain ⟨hstep, hreduced⟩ :=
    Coupled.system.remainders_carry_over (Coupled.hasResidual 0) (Coupled.hasJacobian 0)
  obtain ⟨table, htable, hlinearized⟩ := hstep 1 (1 / 2) ⟨.ofCoords ![1, 1], []⟩ (by decide)
    (by simp [Stencil.slots])
  obtain ⟨model, hmodel, -, hmodelled, -⟩ := hreduced !![2; 1] ![0, 1]
  cases htable
  simp only [Coupled.remainder_eq, Coupled.transpose_mulVec_remainder] at hlinearized hmodelled
  exact ⟨⟨_, hlinearized⟩, model, hmodel, _, hmodelled⟩

end TimeStepping
