import TimeStepping.System

/-!
# Refusals

Systems that refuse an evaluation by rule.  They are what the recovery of failed
steps is tried out on: a rule says in which situation an evaluation fails, and
with which failure.
-/

namespace TimeStepping

inductive Evaluation where
  | value
  | jacobian
  deriving DecidableEq

/-- The circumstances of one evaluation; `calls` counts the evaluations of the
same function, this one included. -/
structure Situation (α : Type) where
  evaluation : Evaluation
  state : Vec α
  time : α
  calls : Nat
  step : Nat
  dt : α

structure Refusal (α : Type) where
  evaluation : Evaluation
  timeAbove : Option α
  timeBelow : Option α
  someAbove : Option α
  someBelow : Option α
  calls : Option (Nat × Nat)
  step : Option Nat
  dtAbove : Option α
  dtEqual : Option α
  failure : Failure α

namespace Refusal

variable {α : Type} [Scalar α]

def holds [BEq α] (rule : Refusal α) (s : Situation α) : Bool :=
  rule.evaluation == s.evaluation &&
  rule.timeAbove.all (fun x => decide (x < s.time)) &&
  rule.timeBelow.all (fun x => decide (s.time < x)) &&
  rule.someAbove.all (fun x => s.state.any fun y => decide (x < y)) &&
  rule.someBelow.all (fun x => s.state.any fun y => decide (y < x)) &&
  rule.calls.all (fun range => decide (range.1 ≤ s.calls ∧ s.calls ≤ range.2)) &&
  rule.step.all (fun step => s.step == step) &&
  rule.dtAbove.all (fun x => decide (x < s.dt)) &&
  rule.dtEqual.all (fun x => s.dt == x)

def first? [BEq α] (rules : List (Refusal α)) (s : Situation α) : Option (Failure α) :=
  (rules.find? (·.holds s)).map (·.failure)

/-- Evaluate unless a rule refuses.  `count` counts the evaluation and tells the
number of them so far. -/
def guard [BEq α] {σ β : Type} (rules : List (Refusal α)) (count : StateM σ Nat)
    (situation : Nat → Situation α) (buffer : β) (evaluate : StateM σ (Outcome α β)) :
    StateM σ (Outcome α β) := do
  let calls ← count
  match first? rules (situation calls) with
  | some cause => pure ⟨buffer, .failed cause⟩
  | none => evaluate

/-- A continuous-time system under rules; its evaluations belong to no step. -/
def guardContinuous [BEq α] {σ : Type} (rules : List (Refusal α))
    (count : Evaluation → StateM σ Nat) (system : ContinuousSystem σ α) :
    ContinuousSystem σ α where
  velocityBuffer := system.velocityBuffer
  jacobianBuffer := system.jacobianBuffer
  velocity state time buffer :=
    guard rules (count .value) (fun calls => ⟨.value, state, time, calls, 0, 0⟩) buffer
      (system.velocity state time buffer)
  jacobian state time buffer :=
    guard rules (count .jacobian) (fun calls => ⟨.jacobian, state, time, calls, 0, 0⟩) buffer
      (system.jacobian state time buffer)

def guardDiscrete [BEq α] {σ : Type} (rules : List (Refusal α))
    (count : Evaluation → StateM σ Nat) (system : DiscreteSystem σ α) :
    DiscreteSystem σ α where
  residualBuffer := system.residualBuffer
  jacobianBuffer := system.jacobianBuffer
  residual point trial history buffer :=
    guard rules (count .value)
      (fun calls => ⟨.value, trial, point.time, calls, point.step, point.dt⟩) buffer
      (system.residual point trial history buffer)
  jacobian point trial history buffer :=
    guard rules (count .jacobian)
      (fun calls => ⟨.jacobian, trial, point.time, calls, point.step, point.dt⟩) buffer
      (system.jacobian point trial history buffer)

end Refusal

end TimeStepping
