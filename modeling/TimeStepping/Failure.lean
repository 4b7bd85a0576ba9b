/-!
# Failures

Why an integration stopped.  A failure is either numerical, and then a retry
with a smaller time step may succeed, or fatal.  `Failure.asTimeStepFailure`
surfaces a failure raised inside a step as one time-step failure, never two.
-/

namespace TimeStepping

/-- A request that no retry can satisfy. -/
inductive Misconfiguration (α : Type) where
  | noAuxiliary (step : Nat)
  | stepZero
  | noBdfTable (size : Nat)
  | stencilSize (size : Nat)
  | orderZero
  | controlDt (dt : α)
  | controlMinimum (dt minimum : α)
  | controlReduction (factor : α)
  | interval (start final : α)
  | stepDt (dt : α) (step : Nat)
  | newtonIterations
  | newtonTolerances
  | duration (duration : α)
  | noCells
  | decoderShape (rows reference full : Nat)
  | unreadableSettings
  | unreadableFile (path reason : String)
  | other (text : String)
  deriving BEq

/-- Why a nonlinear solve gave up although every evaluation succeeded. -/
inductive Divergence where
  | residualNotFinite
  | singularJacobian
  | correctionNotFinite
  | iterationLimit (limit : Nat)
  | other (text : String)
  deriving BEq

/-- What can go wrong during an integration. -/
inductive Failure (α : Type) where
  | velocity (reason : String)
  | discreteResidual (reason : String)
  | residual (step : Nat) (time : α) (source : Failure α)
  | unsolved (iterations : Nat) (reason : Divergence)
  | unevaluated (iterations : Nat) (source : Failure α)
  | timeStep (step : Nat) (dt : α) (source : Failure α)
  | timeStepTooSmall (step : Nat) (dt minimum : α)
  | configuration (cause : Misconfiguration α)
  deriving BEq

namespace Failure

variable {α : Type}

def isRecoverable : Failure α → Bool
  | timeStepTooSmall .. => false
  | configuration _ => false
  | _ => true

def isTimeStepFailure : Failure α → Bool
  | timeStep .. => true
  | _ => false

/-- Surface a failure raised inside a step.  A time-step failure of an auxiliary
stepper and a fatal failure pass unchanged; any other is wrapped once. -/
def asTimeStepFailure (step : Nat) (dt : α) (failure : Failure α) : Failure α :=
  if failure.isTimeStepFailure || !failure.isRecoverable then failure
  else timeStep step dt failure

def asResidualFailure (step : Nat) (time : α) (failure : Failure α) : Failure α :=
  if failure.isRecoverable then residual step time failure else failure

def asSolveFailure (iterations : Nat) (failure : Failure α) : Failure α :=
  if failure.isRecoverable then unevaluated iterations failure else failure

end Failure

end TimeStepping
