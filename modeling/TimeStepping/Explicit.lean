import TimeStepping.Event
import TimeStepping.Run.Basic
import TimeStepping.System

/-!
# Explicit Runge-Kutta steps

Forward Euler, the classical scheme of order four, and the strong-stability
preserving scheme of order three.  The slopes of the stages are kept in buffers
that live from step to step.  The live state is written only after every stage
has been evaluated, so a failed evaluation leaves it untouched.
-/

namespace TimeStepping

inductive ExplicitScheme where
  | euler
  | rungeKutta4
  | ssprk3
  deriving DecidableEq

namespace ExplicitScheme

def order : ExplicitScheme → Nat
  | euler => 1
  | rungeKutta4 => 4
  | ssprk3 => 3

def stages : ExplicitScheme → Nat
  | euler => 1
  | rungeKutta4 => 4
  | ssprk3 => 3

def name : ExplicitScheme → String
  | euler => "euler"
  | rungeKutta4 => "rk4"
  | ssprk3 => "ssprk3"

end ExplicitScheme

structure ExplicitStepper (α : Type) where
  scheme : ExplicitScheme
  slopes : List (Vec α)

namespace ExplicitStepper

variable {σ α : Type}

def fresh (scheme : ExplicitScheme) (system : ContinuousSystem σ α) : ExplicitStepper α :=
  ⟨scheme, List.replicate scheme.stages system.velocityBuffer⟩

/-- The time of a stage, by its position. -/
def stageTime [Scalar α] (scheme : ExplicitScheme) (time dt : α) : (stage : Nat) → α
  | 0 => time
  | stage + 1 =>
      match scheme with
      | .euler => time
      | .rungeKutta4 => if stage < 2 then time + Scalar.ratio 1 2 * dt else time + dt
      | .ssprk3 => if stage = 0 then time + dt else time + Scalar.ratio 1 2 * dt

def moved [Scalar α] (y : Vec α) (c : α) (k : Vec α) : Except Fault (Vec α) :=
  Vec.add y (Vec.scale c k)

def stageState [Scalar α] (scheme : ExplicitScheme) (y : Vec α) (dt : α)
    (slopes : List (Vec α)) : Except Fault (Vec α) :=
  match scheme, slopes with
  | .rungeKutta4, [k] => moved y (Scalar.ratio 1 2 * dt) k
  | .rungeKutta4, [_, k] => moved y (Scalar.ratio 1 2 * dt) k
  | .rungeKutta4, [_, _, k] => moved y dt k
  | .ssprk3, [k] => moved y dt k
  | .ssprk3, [k, k'] => do
      let u ← moved (← moved y dt k) dt k'
      Vec.add (Vec.scale (Scalar.ratio 3 4) y) (Vec.scale (Scalar.ratio 1 4) u)
  | _, _ => .ok y

def finalState [Scalar α] (scheme : ExplicitScheme) (y : Vec α) (dt : α)
    (slopes : List (Vec α)) : Except Fault (Vec α) :=
  match scheme, slopes with
  | .euler, [k] => moved y dt k
  | .rungeKutta4, [k0, k1, k2, k3] => do
      let two : α := ((2 : Nat) : α)
      let sum ← Vec.add (← Vec.add (← Vec.add k0 (Vec.scale two k1)) (Vec.scale two k2)) k3
      moved y (dt / ((6 : Nat) : α)) sum
  | .ssprk3, [k0, k1, k2] => do
      let u ← stageState .ssprk3 y dt [k0, k1]
      let third := y.map (· / ((3 : Nat) : α))
      Vec.add third (Vec.scale (Scalar.ratio 2 3) (← moved u dt k2))
  | _, _ => .ok y

/-- Evaluate the stages that are left into their buffers, after the stages with
the given slopes.  The first one that cannot be evaluated ends the step; the
buffers stay as they were left. -/
def evaluateStages [Scalar α] (system : ContinuousSystem σ α) (scheme : ExplicitScheme)
    (y : Vec α) (time dt : α) :
    (buffers slopes : List (Vec α)) → StateM σ (Outcome α (List (Vec α)))
  | [], slopes => pure (.done slopes)
  | buffer :: buffers, slopes =>
      match stageState scheme y dt slopes with
      | .error cause => pure ⟨slopes ++ buffer :: buffers, .fault cause⟩
      | .ok state => do
          let slope ← system.velocity state (stageTime scheme time dt slopes.length) buffer
          match slope.ending with
          | .done => evaluateStages system scheme y time dt buffers (slopes ++ [slope.value])
          | ending => pure ⟨slopes ++ slope.value :: buffers, ending⟩

def attempt [Scalar α] [Journal α σ] (system : ContinuousSystem σ α)
    (stepper : ExplicitStepper α) (live : Vec α) (time dt : α) (step : Nat) :
    StateM σ (Outcome α (ExplicitStepper α × Vec α)) := do
  note (.stepBegun stepper.scheme.name step time dt)
  let stages ← evaluateStages system stepper.scheme live time dt stepper.slopes []
  let after := { stepper with slopes := stages.value }
  match stages.ending with
  | .done =>
      match finalState stepper.scheme live dt stages.value with
      | .ok next => pure (.done (after, next))
      | .error cause => pure ⟨(after, live), .fault cause⟩
  | .failed cause => pure ⟨(after, live), .failed (cause.asTimeStepFailure step dt)⟩
  | .fault cause => pure ⟨(after, live), .fault cause⟩

def steppable [Scalar α] [Journal α σ] (system : ContinuousSystem σ α) (scheme : ExplicitScheme) :
    Steppable (ExplicitStepper α × σ) α where
  order := scheme.order
  step live time dt step := fun (stepper, env) =>
    let (result, env) := attempt system stepper live time dt step env
    (⟨result.value.2, result.ending⟩, (result.value.1, env))

end ExplicitStepper

end TimeStepping
