import TimeStepping.System

/-!
# Quadratic residuals

Discrete-time systems whose residual treats every component alike: a quadratic
in the trial state, a weighted sum over the states before it, and terms linear in
the time step, the time and the number of the step.
-/

namespace TimeStepping

structure QuadraticResidual (α : Type) where
  dimension : Nat
  linear : α
  quadratic : α
  weights : List α
  dtWeight : α
  timeWeight : α
  stepWeight : α

namespace QuadraticResidual

variable {α : Type} [Scalar α]

def component (m : QuadraticResidual α) (point : StepPoint α) (trial : Vec α)
    (history : List (Vec α)) (i : Nat) : Except Fault α := do
  let x ← Vec.entry trial i
  let own := m.linear * x + m.quadratic * x * x
  let past ← (m.weights.zip history).foldlM
    (fun s term => do pure (s + term.1 * (← Vec.entry term.2 i))) own
  pure (past + m.dtWeight * point.dt + m.timeWeight * point.time
    + m.stepWeight * (point.step : α))

def residual (m : QuadraticResidual α) (point : StepPoint α) (trial : Vec α)
    (history : List (Vec α)) (buffer : Vec α) : Except Fault (Vec α) := do
  let entries ← (List.range m.dimension).mapM (m.component point trial history)
  if m.dimension ≤ buffer.size then
    pure (entries.toArray ++ buffer.extract m.dimension buffer.size)
  else .error .outOfBounds

def jacobian (m : QuadraticResidual α) (trial : Vec α) (buffer : Mat α) :
    Except Fault (Mat α) :=
  (List.range m.dimension).foldlM
    (fun j i => do
      let x ← Vec.entry trial i
      if i < j.rows ∧ i < j.cols then
        pure (j.modify i i fun _ => m.linear + ((2 : Nat) : α) * m.quadratic * x)
      else .error .outOfBounds)
    (Mat.zeros buffer.rows buffer.cols)

def system {σ : Type} (m : QuadraticResidual α) : DiscreteSystem σ α where
  residualBuffer := Vec.zeros m.dimension
  jacobianBuffer := Mat.zeros m.dimension m.dimension
  residual point trial history buffer :=
    pure (.ofChecked buffer (m.residual point trial history buffer))
  jacobian _ trial _ buffer := pure (.ofChecked buffer (m.jacobian trial buffer))

end QuadraticResidual

end TimeStepping
