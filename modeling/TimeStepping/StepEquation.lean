import TimeStepping.Bdf

/-!
# The equation of a step

An implicit step looks for a root of a residual over the states before it.  A
`StepEquation` says what that residual and its Jacobian are; at a given stencil
and step it is an algebraic system.  Two families are provided: the backward
differentiation formulas over the velocity of a continuous-time system, and the
residual that a discrete-time system states itself.
-/

namespace TimeStepping

/-- Residual and Jacobian of the steps of a scheme. -/
structure StepEquation (σ α : Type) where
  residualBuffer : Vec α
  jacobianBuffer : Mat α
  residual (point : StepPoint α) (stencil : Stencil α) (trial buffer : Vec α) :
    StateM σ (Outcome α (Vec α))
  jacobian (point : StepPoint α) (stencil : Stencil α) (trial : Vec α) (buffer : Mat α) :
    StateM σ (Outcome α (Mat α))

namespace StepEquation

variable {σ α : Type}

def system (equation : StepEquation σ α) (point : StepPoint α) (stencil : Stencil α) :
    AlgebraicSystem σ α where
  residualBuffer := equation.residualBuffer
  jacobianBuffer := equation.jacobianBuffer
  residual := equation.residual point stencil
  jacobian := equation.jacobian point stencil

/-- Evaluate with the formula for the size of the stencil; without one, nothing
is evaluated. -/
def withTable [Scalar α] {β : Type} (stencil : Stencil α) (buffer : β)
    (evaluate : BdfTable α → StateM σ (Outcome α β)) : StateM σ (Outcome α β) :=
  match BdfTable.ofSize? stencil.size with
  | some table => evaluate table
  | none => pure ⟨buffer, .failed (.configuration (.noBdfTable stencil.size))⟩

def bdf [Scalar α] (system : ContinuousSystem σ α) : StepEquation σ α where
  residualBuffer := system.velocityBuffer
  jacobianBuffer := system.jacobianBuffer
  residual point stencil trial buffer :=
    withTable stencil buffer fun table => do
      let velocity ← system.velocity trial point.time buffer
      match velocity.ending with
      | .done =>
          pure (.ofChecked velocity.value
            (table.residual point.dt trial stencil.slots velocity.value))
      | _ => pure (velocity.mapFailure (·.asResidualFailure point.step point.time))
  jacobian point stencil trial buffer :=
    withTable stencil buffer fun table => do
      let jacobian ← system.jacobian trial point.time buffer
      match jacobian.ending with
      | .done => pure (.done (table.jacobian point.dt jacobian.value))
      | _ => pure (jacobian.mapFailure (·.asResidualFailure point.step point.time))

def discrete (system : DiscreteSystem σ α) : StepEquation σ α where
  residualBuffer := system.residualBuffer
  jacobianBuffer := system.jacobianBuffer
  residual point stencil trial buffer := do
    let residual ← system.residual point trial stencil.slots buffer
    pure (residual.mapFailure (·.asResidualFailure point.step point.time))
  jacobian point stencil trial buffer := do
    let jacobian ← system.jacobian point trial stencil.slots buffer
    pure (jacobian.mapFailure (·.asResidualFailure point.step point.time))

end StepEquation

end TimeStepping
