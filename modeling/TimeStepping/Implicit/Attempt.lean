import TimeStepping.Event
import TimeStepping.Implicit.Chain
import TimeStepping.Run.Basic

/-!
# Attempting a step

An implicit step rotates the live state into the stencil and then either solves
the equation of the step or, while too few accepted states exist, delegates the
step to the auxiliary chain.  A step that does not complete, because of a
failure or of a fault, is undone at every level: the live state and the stencil
are restored from what the rotation saved.
-/

namespace TimeStepping

/-- A callback that may improve the initial iterate of a solve.  It is told the
step and its evaluation time, works on the live state in place, and may give up
with a fault. -/
abbrev Guess (σ α : Type) :=
  Nat → α → Vec α → StateM σ (Vec α × Option Fault)

def Guess.none {σ α : Type} : Guess σ α :=
  fun _ _ live => pure (live, Option.none)

structure Attempt (α : Type) where
  chain : Chain α
  live : Vec α
  ending : Ending α

namespace Chain

variable {σ α : Type}

/-- Solve the equation of a step, from the initial iterate that `guess` makes of
the live state. -/
def solveStep (solver : Solver σ α) (system : AlgebraicSystem σ α) (guess : Guess σ α)
    (point : StepPoint α) (live : Vec α) : StateM σ (Outcome α (Vec α)) := do
  let (start, fault) ← guess point.step point.time live
  match fault with
  | some cause => pure ⟨start, .fault cause⟩
  | none => solver.solve system start

/-- Close an attempt.  `rotated` is the stencil during the attempt and `inner`
what became of it; a completed step keeps both, any other restores the live
state from the stencil and the stencil from its dropped state. -/
def settle (member : Member α) (rotated : Stencil α) (startingUp : Bool) (inner : Attempt α) :
    Attempt α :=
  let restored := rotated.unrotate member.recovery
  match inner.ending with
  | .done =>
      ⟨{ member with stencil := rotated, phase := .afterStep startingUp } :: inner.chain,
        inner.live, .done⟩
  | .failed cause =>
      ⟨{ member with stencil := restored, phase := .rolledBack } :: inner.chain,
        rotated.newest, .failed (cause.asTimeStepFailure member.point.step member.point.dt)⟩
  | .fault cause =>
      ⟨{ member with stencil := restored } :: inner.chain, rotated.newest, .fault cause⟩

def closingEvents (member : Member α) : Ending α → List (Event α)
  | .done => []
  | .failed cause =>
      [.tentativeStepUndone member.stencil.size,
        .stepRolledBack member.name member.point.step cause]
  | .fault _ => [.tentativeStepUndone member.stencil.size]

variable [Scalar α] [Journal α σ]

/-- Attempt to advance `live` by one step from `now` to `now + dt`.  Steps are
numbered from 1, and a step that is not is refused before anything changes. -/
def attempt (equation : StepEquation σ α) (solver : Solver σ α) :
    Chain α → (guess : Guess σ α) → (live : Vec α) → (now dt : α) → (step : Nat) →
      StateM σ (Attempt α)
  | [], _, live, _, _, step =>
      pure ⟨[], live, .failed (.configuration (.noAuxiliary step))⟩
  | member :: auxiliary, guess, live, now, dt, step =>
      if step = 0 then
        pure ⟨member :: auxiliary, live, .failed (.configuration .stepZero)⟩
      else
        let point : StepPoint α := ⟨step, now + dt, dt⟩
        let tentative := { member with point := point, recovery := member.stencil.oldest }
        let rotated := member.stencil.rotate live
        let startingUp := decide (step ≤ stencilSize auxiliary)
        let work : StateM σ (Attempt α) :=
          if startingUp then
            attempt equation solver auxiliary Guess.none live now dt step
          else do
            let solved ← solveStep solver (equation.system point rotated) guess point live
            pure ⟨auxiliary, solved.value, solved.ending⟩
        do
          note (.stepBegun member.name step now dt)
          let inner ← work
          noteAll (closingEvents tentative inner.ending)
          pure (settle tentative rotated startingUp inner)

def steppable (equation : StepEquation σ α) (solver : Solver σ α) (order : Nat) :
    Steppable (Chain α × σ) α where
  order := order
  step live time dt step := fun (chain, env) =>
    let (result, env) := attempt equation solver chain Guess.none live time dt step env
    (⟨result.live, result.ending⟩, (result.chain, env))

end Chain

end TimeStepping
