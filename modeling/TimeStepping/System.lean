import TimeStepping.Linear.Mat

/-!
# Systems

What the user of an integrator supplies: a system in continuous time with its
velocity and Jacobian, or a system in discrete time that states the residual of
a step itself.  Nonlinear solvers see either as an algebraic system.  An
evaluation writes into a buffer, acts on an environment `σ` of the user's own,
and may fail; the buffer is handed back as the evaluation left it.
-/

namespace TimeStepping

/-- A system `dy/dt = f(y, t)`. -/
structure ContinuousSystem (σ α : Type) where
  velocityBuffer : Vec α
  jacobianBuffer : Mat α
  velocity (state : Vec α) (time : α) (buffer : Vec α) : StateM σ (Outcome α (Vec α))
  jacobian (state : Vec α) (time : α) (buffer : Mat α) : StateM σ (Outcome α (Mat α))

/-- The step an equation belongs to: its number, the time it is evaluated at and
its length. -/
structure StepPoint (α : Type) where
  step : Nat
  time : α
  dt : α

structure DiscreteSystem (σ α : Type) where
  residualBuffer : Vec α
  jacobianBuffer : Mat α
  residual (point : StepPoint α) (trial : Vec α) (history : List (Vec α)) (buffer : Vec α) :
    StateM σ (Outcome α (Vec α))
  jacobian (point : StepPoint α) (trial : Vec α) (history : List (Vec α)) (buffer : Mat α) :
    StateM σ (Outcome α (Mat α))

/-- Equations `R(x) = 0` with their Jacobian. -/
structure AlgebraicSystem (σ α : Type) where
  residualBuffer : Vec α
  jacobianBuffer : Mat α
  residual (state : Vec α) (buffer : Vec α) : StateM σ (Outcome α (Vec α))
  jacobian (state : Vec α) (buffer : Mat α) : StateM σ (Outcome α (Mat α))

/-- A system in continuous time, held at one time, as the equations for its
equilibria. -/
def ContinuousSystem.frozenAt {σ α : Type} (system : ContinuousSystem σ α) (time : α) :
    AlgebraicSystem σ α where
  residualBuffer := system.velocityBuffer
  jacobianBuffer := system.jacobianBuffer
  residual state buffer := system.velocity state time buffer
  jacobian state buffer := system.jacobian state time buffer

/-- A nonlinear solver.  It updates the state in place; when it stops because of
a failure or a fault, the state is left wherever the iteration had come. -/
structure Solver (σ α : Type) where
  solve (system : AlgebraicSystem σ α) (state : Vec α) : StateM σ (Outcome α (Vec α))

end TimeStepping
