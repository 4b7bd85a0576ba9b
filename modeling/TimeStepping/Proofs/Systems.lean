import TimeStepping.Proofs.Assertions
import TimeStepping.Proofs.Coordinates
import TimeStepping.System

/-!
# Systems in use

A system is evaluated into buffers that hold what earlier evaluations left there, and in
environments it sees only a part of.  `Reused` says which buffers these can be, `Oblivious`
that their contents are of no account, and `beside` puts a component in front of the
environment that the system does not see.
-/

namespace TimeStepping

variable {σ τ α : Type}

/-! ## Environments -/

/-- The same equations, in an environment with a component they do not see in front. -/
def AlgebraicSystem.beside (τ : Type) (system : AlgebraicSystem σ α) :
    AlgebraicSystem (τ × σ) α where
  residualBuffer := system.residualBuffer
  jacobianBuffer := system.jacobianBuffer
  residual state buffer := besides τ (system.residual state buffer)
  jacobian state buffer := besides τ (system.jacobian state buffer)

namespace ContinuousSystem

/-- The same system, in an environment with a component it does not see in front. -/
def beside (τ : Type) (system : ContinuousSystem σ α) : ContinuousSystem (τ × σ) α where
  velocityBuffer := system.velocityBuffer
  jacobianBuffer := system.jacobianBuffer
  velocity state time buffer := besides τ (system.velocity state time buffer)
  jacobian state time buffer := besides τ (system.jacobian state time buffer)

/-! ## Buffers -/

/-- The buffers that evaluations of the velocity can leave behind, a new one included. -/
inductive Reused (system : ContinuousSystem σ α) : Vec α → Prop
  | new : Reused system system.velocityBuffer
  | left {buffer : Vec α} (before : Reused system buffer) (state : Vec α) (time : α) (env : σ) :
      Reused system (system.velocity state time buffer env).1.value

theorem reused_of_beside {system : ContinuousSystem σ α} {buffer : Vec α}
    (h : (system.beside τ).Reused buffer) : system.Reused buffer := by
  induction h with
  | new => exact .new
  | left before state time env ih => exact ih.left state time env.2

/-- At states of the given size, what an evaluation finds in its buffer is of no account,
and nothing of it is left once the evaluation is completed. -/
structure Oblivious (system : ContinuousSystem σ α) (size : Nat) : Prop where
  env {buffer state : Vec α} (h : system.Reused buffer) (hsize : state.size = size) (time : α)
    (env : σ) :
    (system.velocity state time buffer env).2 =
      (system.velocity state time system.velocityBuffer env).2
  ending {buffer state : Vec α} (h : system.Reused buffer) (hsize : state.size = size) (time : α)
    (env : σ) :
    (system.velocity state time buffer env).1.ending =
      (system.velocity state time system.velocityBuffer env).1.ending
  value {buffer state : Vec α} (h : system.Reused buffer) (hsize : state.size = size) (time : α)
    (env : σ)
    (hdone : (system.velocity state time system.velocityBuffer env).1.ending = .done) :
    (system.velocity state time buffer env).1.value =
      (system.velocity state time system.velocityBuffer env).1.value

/-! ## Saturated growth -/

/-- The velocity `y - y²`, which grows from 0 to a capacity of 1. -/
noncomputable def saturating : ContinuousSystem Unit ℝ where
  velocityBuffer := Vec.zeros 1
  jacobianBuffer := Mat.zeros 1 1
  velocity state _ _ := pure (.done (state.map fun y => y - y ^ 2))
  jacobian _ _ buffer := pure (.done buffer)

theorem velocity_saturating (y time : ℝ) (buffer : Vec ℝ) (env : Unit) :
    (saturating.velocity (.ofCoords ![y]) time buffer env).1 = .done (.ofCoords ![y - y ^ 2]) := by
  change Outcome.done _ = _
  rw [Vec.map_ofCoords]
  exact congrArg Outcome.done (Vec.ofCoords_ext_single rfl)

end ContinuousSystem

end TimeStepping
