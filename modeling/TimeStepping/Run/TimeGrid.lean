import TimeStepping.Failure
import TimeStepping.Scalar

/-!
# Time grids

Which intervals and time steps a run accepts, and how its steps are fitted to
the end of the interval.
-/

namespace TimeStepping

namespace TimeGrid

variable {α : Type} [Scalar α]

/-- How close to the final time counts as having arrived. -/
def tolerance (final : α) : α :=
  Scalar.ratio 1 1000000000000 * Scalar.larger (Scalar.abs final) 1

def checkInterval (start final : α) : Except (Misconfiguration α) Unit :=
  if ¬(Scalar.isFinite start ∧ Scalar.isFinite final) ∨ final < start then
    .error (.interval start final)
  else .ok ()

def checkDt (dt : α) (step : Nat) : Except (Misconfiguration α) Unit :=
  if ¬(Scalar.isFinite dt ∧ 0 < dt) then .error (.stepDt dt step) else .ok ()

def reachesEnd (time dt final : α) : Bool :=
  decide (final - tolerance final ≤ time + dt)

def clamp (time dt final : α) : α :=
  if reachesEnd time dt final then final - time else dt

def endAhead (time final : α) : Bool :=
  decide (tolerance final < final - time)

end TimeGrid

end TimeStepping
