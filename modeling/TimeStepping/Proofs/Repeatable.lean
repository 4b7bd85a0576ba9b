import TimeStepping.Newton
import TimeStepping.StepEquation

/-!
# Repeatable actions

An action is repeatable if its result is the same in every environment.  It may
still act on the environment, for instance by keeping a journal.  Evaluations of
a pure system are repeatable, and a solver is repeatable if it is so on every
pure system: its outcome then is a function of the equations and the starting
state.  Newton iteration is one, `Newton.solver_repeatable`.
-/

namespace TimeStepping

variable {σ α β γ : Type}

/-- The result of an action is the same in every environment. -/
def Repeatable (action : StateM σ β) : Prop :=
  ∀ env env' : σ, (action env).1 = (action env').1

namespace Repeatable

theorem pure (value : β) : Repeatable (pure value : StateM σ β) :=
  fun _ _ => rfl

theorem modify (f : σ → σ) : Repeatable (modify f : StateM σ Unit) :=
  fun _ _ => rfl

theorem bind {action : StateM σ β} {next : β → StateM σ γ} (haction : Repeatable action)
    (hnext : ∀ value, Repeatable (next value)) : Repeatable (action >>= next) := by
  intro env env'
  change (next (action env).1 (action env).2).1 = (next (action env').1 (action env').2).1
  rw [haction env env']
  exact hnext _ _ _

theorem ite {c : Prop} [Decidable c] {first second : StateM σ β} (hfirst : Repeatable first)
    (hsecond : Repeatable second) : Repeatable (if c then first else second) := by
  split
  · exact hfirst
  · exact hsecond

theorem note [Journal α σ] (event : Event α) : Repeatable (note event : StateM σ Unit) :=
  modify _

end Repeatable

/-! ## Pure systems -/

/-- A system in continuous time whose evaluations depend on nothing but their arguments. -/
structure ContinuousSystem.Pure (system : ContinuousSystem σ α) : Prop where
  velocity (state : Vec α) (time : α) (buffer : Vec α) :
    Repeatable (system.velocity state time buffer)
  jacobian (state : Vec α) (time : α) (buffer : Mat α) :
    Repeatable (system.jacobian state time buffer)

/-- Equations whose evaluations depend on nothing but their arguments. -/
structure AlgebraicSystem.Pure (system : AlgebraicSystem σ α) : Prop where
  residual (state buffer : Vec α) : Repeatable (system.residual state buffer)
  jacobian (state : Vec α) (buffer : Mat α) : Repeatable (system.jacobian state buffer)

/-- A step equation that is pure at every step and over every stencil. -/
def StepEquation.Pure (equation : StepEquation σ α) : Prop :=
  ∀ point stencil, (equation.system point stencil).Pure

theorem StepEquation.withTable_repeatable [Scalar α] {stencil : Stencil α} {buffer : β}
    {evaluate : BdfTable α → StateM σ (Outcome α β)} (h : ∀ table, Repeatable (evaluate table)) :
    Repeatable (withTable stencil buffer evaluate) := by
  unfold withTable
  split
  · exact h _
  · exact .pure _

theorem StepEquation.bdf_pure [Scalar α] {system : ContinuousSystem σ α} (h : system.Pure) :
    (StepEquation.bdf system).Pure := by
  intro point stencil
  constructor
  · intro trial buffer
    refine withTable_repeatable fun table => (h.velocity trial point.time buffer).bind ?_
    intro velocity
    cases velocity.ending <;> exact .pure _
  · intro trial buffer
    refine withTable_repeatable fun table => (h.jacobian trial point.time buffer).bind ?_
    intro jacobian
    cases jacobian.ending <;> exact .pure _

/-! ## Repeatable solvers -/

/-- A solver whose outcome is a function of the equations and the starting state. -/
def Solver.Repeatable (solver : Solver σ α) : Prop :=
  ∀ system : AlgebraicSystem σ α, system.Pure →
    ∀ state, TimeStepping.Repeatable (solver.solve system state)

namespace Newton

variable [Scalar α] [Journal α σ] (settings : Settings α) (linear : LinearSolver α)

theorem iterate_repeatable {system : AlgebraicSystem σ α} (h : system.Pure)
    (remaining iteration : Nat) (initial : α) (state residual : Vec α) (jacobian : Mat α) :
    Repeatable (iterate settings linear system remaining iteration initial state residual
      jacobian) := by
  induction remaining generalizing iteration initial state residual jacobian with
  | zero => exact .pure _
  | succ remaining ih =>
      refine (h.residual state residual).bind fun r => ?_
      cases r.ending with
      | failed cause => exact .pure _
      | fault cause => exact .pure _
      | done =>
          refine .ite (.pure _) ((Repeatable.note _).bind fun _ => .ite (.pure _) ?_)
          refine (h.jacobian state jacobian).bind fun j => ?_
          cases j.ending with
          | failed cause => exact .pure _
          | fault cause => exact .pure _
          | done =>
              cases correct settings linear iteration state r.value j.value with
              | inl report => exact .pure _
              | inr next => exact ih _ _ _ _ _

/-- Newton iteration ends the same way in every environment. -/
theorem solver_repeatable (keep : Nat → σ → σ) : (solver settings linear keep).Repeatable := by
  intro system h state
  refine (iterate_repeatable settings linear h _ _ _ _ _ _).bind fun report => ?_
  exact (Repeatable.modify _).bind fun _ => .pure _

end Newton

end TimeStepping
