import TimeStepping.Explicit
import TimeStepping.Implicit.Attempt
import TimeStepping.Models.Refusal
import TimeStepping.Newton
import TimeStepping.Proofs.Assertions

/-!
# Watched systems

A watched system logs its evaluations, each with the way it ended.  Whatever
evaluates it does so as it would evaluate the system itself: `attempt_actsAs` for
implicit steps, `ExplicitStepper.attempt_actsAs` for explicit ones.
-/

namespace TimeStepping

variable {σ τ α β : Type}

/-- An evaluation that was made, and how it ended. -/
structure Evaluated (α : Type) where
  evaluation : Evaluation
  ending : Ending α

/-- An environment with the evaluations so far in front. -/
abbrev Watched (σ α : Type) := List (Evaluated α) × σ

def ContinuousSystem.watched (system : ContinuousSystem σ α) :
    ContinuousSystem (Watched σ α) α where
  velocityBuffer := system.velocityBuffer
  jacobianBuffer := system.jacobianBuffer
  velocity state time buffer :=
    logging (fun _ outcome _ => ⟨.value, outcome.ending⟩) (system.velocity state time buffer)
  jacobian state time buffer :=
    logging (fun _ outcome _ => ⟨.jacobian, outcome.ending⟩) (system.jacobian state time buffer)

def DiscreteSystem.watched (system : DiscreteSystem σ α) : DiscreteSystem (Watched σ α) α where
  residualBuffer := system.residualBuffer
  jacobianBuffer := system.jacobianBuffer
  residual point trial history buffer :=
    logging (fun _ outcome _ => ⟨.value, outcome.ending⟩)
      (system.residual point trial history buffer)
  jacobian point trial history buffer :=
    logging (fun _ outcome _ => ⟨.jacobian, outcome.ending⟩)
      (system.jacobian point trial history buffer)

theorem ContinuousSystem.velocity_logs (system : ContinuousSystem σ α) (state : Vec α) (time : α)
    (buffer : Vec α) :
    Logs (system.watched.velocity state time buffer) fun evaluations outcome =>
      evaluations = [⟨.value, outcome.ending⟩] :=
  ⟨fun _ => ⟨_, rfl, rfl⟩⟩

/-- Equations that are evaluated like others, apart from what the evaluations
keep in front of the environment. -/
structure AlgebraicSystem.ActsAs (system : AlgebraicSystem (τ × σ) α)
    (plain : AlgebraicSystem σ α) : Prop where
  residualBuffer : system.residualBuffer = plain.residualBuffer
  jacobianBuffer : system.jacobianBuffer = plain.jacobianBuffer
  residual (state buffer : Vec α) :
    TimeStepping.ActsAs (system.residual state buffer) (plain.residual state buffer)
  jacobian (state : Vec α) (buffer : Mat α) :
    TimeStepping.ActsAs (system.jacobian state buffer) (plain.jacobian state buffer)

/-- Solvers that do the same with equations that are evaluated alike. -/
def Solver.ActsAs (solver : Solver (τ × σ) α) (plain : Solver σ α) : Prop :=
  ∀ system system', AlgebraicSystem.ActsAs system system' →
    ∀ state, TimeStepping.ActsAs (solver.solve system state) (plain.solve system' state)

def StepEquation.ActsAs (equation : StepEquation (τ × σ) α) (plain : StepEquation σ α) : Prop :=
  ∀ point stencil, (equation.system point stencil).ActsAs (plain.system point stencil)

namespace StepEquation

end StepEquation

namespace Newton

variable [Scalar α] [Journal α σ] (settings : Settings α) (linear : LinearSolver α)

theorem iterate_actsAs {system : AlgebraicSystem (τ × σ) α} {plain : AlgebraicSystem σ α}
    (h : system.ActsAs plain) (remaining iteration : Nat) (initial : α) (state residual : Vec α)
    (jacobian : Mat α) :
    ActsAs (iterate settings linear system remaining iteration initial state residual jacobian)
      (iterate settings linear plain remaining iteration initial state residual jacobian) := by
  induction remaining generalizing iteration initial state residual jacobian with
  | zero => exact .pure _
  | succ remaining ih =>
      refine (h.residual state residual).bind fun r => ?_
      cases r.ending with
      | failed cause => exact .pure _
      | fault cause => exact .pure _
      | done =>
          refine .ite (.pure _) ((ActsAs.note _).bind fun _ => .ite (.pure _) ?_)
          refine (h.jacobian state jacobian).bind fun j => ?_
          cases j.ending with
          | failed cause => exact .pure _
          | fault cause => exact .pure _
          | done =>
              cases correct settings linear iteration state r.value j.value with
              | inl report => exact .pure _
              | inr next => exact ih ..

/-- Note the number of iterations in the environment behind a front component. -/
def keepBeside (τ : Type) (keep : Nat → σ → σ) : Nat → τ × σ → τ × σ :=
  fun iterations env => (env.1, keep iterations env.2)

end Newton

/-- A guess that does not see what is in front of the environment. -/
def Guess.beside (τ : Type) (guess : Guess σ α) : Guess (τ × σ) α :=
  fun step time live => besides τ (guess step time live)

namespace Chain

variable [Scalar α] [Journal α σ] {equation : StepEquation (τ × σ) α} {plain : StepEquation σ α}
  {solver : Solver (τ × σ) α} {plainSolver : Solver σ α}

theorem attempt_actsAs (hequation : equation.ActsAs plain) (hsolver : solver.ActsAs plainSolver)
    {guess : Guess (τ × σ) α} {plainGuess : Guess σ α}
    (hguess : ∀ step time live, ActsAs (guess step time live) (plainGuess step time live))
    (chain : Chain α) (live : Vec α) (now dt : α) (step : Nat) :
    ActsAs (attempt equation solver chain guess live now dt step)
      (attempt plain plainSolver chain plainGuess live now dt step) := by
  induction chain generalizing guess plainGuess with
  | nil => exact .pure _
  | cons member auxiliary ih =>
      unfold attempt
      split
      · exact .pure _
      · refine (ActsAs.note _).bind fun _ => ActsAs.bind ?_ fun inner =>
          (ActsAs.noteAll _).bind fun _ => .pure _
        split
        · exact ih fun _ _ _ => .pure _
        · refine ActsAs.bind ?_ fun solved => .pure _
          refine (hguess ..).bind ?_
          rintro ⟨start, fault⟩
          cases fault with
          | some cause => exact .pure _
          | none => exact hsolver _ _ (hequation ..) start

end Chain

namespace ExplicitStepper

variable [Scalar α] {system : ContinuousSystem (τ × σ) α} {plain : ContinuousSystem σ α}
  (h : ∀ state time buffer,
    ActsAs (system.velocity state time buffer) (plain.velocity state time buffer))

include h

theorem evaluateStages_actsAs (scheme : ExplicitScheme) (y : Vec α) (time dt : α)
    (buffers slopes : List (Vec α)) :
    ActsAs (evaluateStages system scheme y time dt buffers slopes)
      (evaluateStages plain scheme y time dt buffers slopes) := by
  induction buffers generalizing slopes with
  | nil => exact .pure _
  | cons buffer buffers ih =>
      unfold evaluateStages
      cases stageState scheme y dt slopes with
      | error cause => exact .pure _
      | ok state =>
          refine (h ..).bind fun slope => ?_
          cases slope.ending with
          | done => exact ih _
          | failed cause => exact .pure _
          | fault cause => exact .pure _

theorem attempt_actsAs [Journal α σ] (stepper : ExplicitStepper α) (live : Vec α) (time dt : α)
    (step : Nat) :
    ActsAs (attempt system stepper live time dt step)
      (attempt plain stepper live time dt step) := by
  refine (ActsAs.note _).bind fun _ => (evaluateStages_actsAs h ..).bind fun stages => ?_
  dsimp only
  cases stages.ending with
  | failed cause => exact .pure _
  | fault cause => exact .pure _
  | done => cases finalState stepper.scheme live dt stages.value <;> exact .pure _

end ExplicitStepper

end TimeStepping
