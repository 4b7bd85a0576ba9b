import TimeStepping.Failure
import TimeStepping.Scalar

/-!
# Step controls

The time step to try first, and how far it may be reduced when a step fails.
-/

namespace TimeStepping

/-- The sizes one step may be attempted with: the first one, the smallest one
for a retry, and the factor between two attempts. -/
structure StepControl (α : Type) where
  dt : α
  minimum : α
  reduction : α
  deriving BEq

namespace StepControl

variable {α : Type} [Scalar α]

/-- A control that leaves no room for a retry. -/
def fixed (dt : α) : StepControl α :=
  ⟨dt, dt, ((2 : Nat) : α)⟩

/-- Accept a positive finite step, a minimum in reach of it, and a factor that reduces. -/
def validate (control : StepControl α) : Except (Misconfiguration α) Unit :=
  if ¬(Scalar.isFinite control.dt ∧ 0 < control.dt) then .error (.controlDt control.dt)
  else if ¬(0 < control.minimum ∧ control.minimum ≤ control.dt) then
    .error (.controlMinimum control.dt control.minimum)
  else if ¬(Scalar.isFinite control.reduction ∧ 1 < control.reduction) then
    .error (.controlReduction control.reduction)
  else .ok ()

end StepControl

end TimeStepping
