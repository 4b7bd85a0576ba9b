import TimeStepping.Event
import TimeStepping.Linear.Elimination
import TimeStepping.System

/-!
# Newton iteration

A nonlinear solver that replaces the system by its linearization and solves
that.  It stops as soon as a residual or correction tolerance is met.  A failed
evaluation, a residual or correction that is not finite, a singular Jacobian and
the iteration limit all end the solve in one kind of failure, which tells the
number of iterations made.
-/

namespace TimeStepping

namespace Newton

structure Settings (α : Type) where
  maxIterations : Nat
  residualAbs : α
  residualRel : α
  correctionAbs : α
  correctionRel : α
  deriving BEq

namespace Settings

variable {α : Type} [Scalar α]

def withTolerance (settings : Settings α) (tolerance : α) : Settings α :=
  { settings with
    residualAbs := tolerance
    residualRel := tolerance
    correctionAbs := tolerance
    correctionRel := tolerance }

def standard : Settings α :=
  withTolerance ⟨100, 0, 0, 0, 0⟩ (Scalar.ratio 1 1000000)

def tolerances (settings : Settings α) : List α :=
  [settings.residualAbs, settings.residualRel, settings.correctionAbs, settings.correctionRel]

def validate (settings : Settings α) : Except (Misconfiguration α) Unit :=
  if settings.maxIterations = 0 then .error .newtonIterations
  else if settings.tolerances.any fun t => !Scalar.isFinite t || decide (t < 0) then
    .error .newtonTolerances
  else .ok ()

def residualMet (settings : Settings α) (iteration : Nat) (initial norm : α) : Bool :=
  decide (norm ≤ settings.residualAbs) ||
    (decide (0 < iteration) && decide (norm ≤ settings.residualRel * initial))

def correctionMet (settings : Settings α) (correction state : α) : Bool :=
  decide (correction ≤ settings.correctionAbs) ||
    decide (correction ≤ settings.correctionRel * state)

end Settings

/-- A method for linear systems: the solution, none if the matrix is singular. -/
abbrev LinearSolver (α : Type) :=
  Mat α → Vec α → Except Fault (Option (Vec α))

/-- What a solve leaves behind: the state, the number of iterations made, and
how the solve ended. -/
structure Report (α : Type) where
  state : Vec α
  iterations : Nat
  ending : Ending α

namespace Report

variable {α : Type}

def diverged (state : Vec α) (iterations : Nat) (reason : Divergence) : Report α :=
  ⟨state, iterations, .failed (.unsolved iterations reason)⟩

def interrupted (state : Vec α) (iterations : Nat) : Ending α → Report α
  | .failed cause => ⟨state, iterations, .failed (cause.asSolveFailure iterations)⟩
  | ending => ⟨state, iterations, ending⟩

end Report

variable {σ α : Type} [Scalar α] [Journal α σ]

def correct (settings : Settings α) (linear : LinearSolver α) (iteration : Nat)
    (state residual : Vec α) (jacobian : Mat α) : Report α ⊕ Vec α :=
  match linear jacobian (Vec.negate residual) with
  | .error cause => .inl ⟨state, iteration, .fault cause⟩
  | .ok none => .inl (.diverged state iteration .singularJacobian)
  | .ok (some delta) =>
      match Vec.add state delta with
      | .error cause => .inl ⟨state, iteration, .fault cause⟩
      | .ok next =>
          let correction := Vec.norm delta
          if !Scalar.isFinite correction then
            .inl (.diverged next (iteration + 1) .correctionNotFinite)
          else if settings.correctionMet correction (Vec.norm next) then
            .inl ⟨next, iteration + 1, .done⟩
          else .inr next

/-- Iterate from `state`, with `remaining` iterations left of the limit.
`initial` is the norm of the first residual once that is known. -/
def iterate (settings : Settings α) (linear : LinearSolver α) (system : AlgebraicSystem σ α) :
    (remaining iteration : Nat) → (initial : α) → (state residual : Vec α) → (jacobian : Mat α) →
      StateM σ (Report α)
  | 0, iteration, _, state, _, _ =>
      pure (.diverged state iteration (.iterationLimit settings.maxIterations))
  | remaining + 1, iteration, initial, state, residual, jacobian => do
      let r ← system.residual state residual
      match r.ending with
      | .done =>
          let norm := Vec.norm r.value
          let initial := if iteration = 0 then norm else initial
          if !Scalar.isFinite norm then
            pure (.diverged state iteration .residualNotFinite)
          else
            note (.newtonIteration iteration norm)
            if settings.residualMet iteration initial norm then
              pure ⟨state, iteration, .done⟩
            else
              let j ← system.jacobian state jacobian
              match j.ending with
              | .done =>
                  match correct settings linear iteration state r.value j.value with
                  | .inl report => pure report
                  | .inr next =>
                      iterate settings linear system remaining (iteration + 1) initial next
                        r.value j.value
              | ending => pure (.interrupted state iteration ending)
      | ending => pure (.interrupted state iteration ending)

def run (settings : Settings α) (linear : LinearSolver α) (system : AlgebraicSystem σ α)
    (state : Vec α) : StateM σ (Report α) :=
  iterate settings linear system settings.maxIterations 0 0 state
    system.residualBuffer system.jacobianBuffer

/-- Newton iteration as a solver.  `keep` notes the number of iterations of each
solve in the environment. -/
def solver (settings : Settings α) (linear : LinearSolver α) (keep : Nat → σ → σ) :
    Solver σ α where
  solve system state := do
    let report ← run settings linear system state
    modify (keep report.iterations)
    pure ⟨report.state, report.ending⟩

end Newton

end TimeStepping
