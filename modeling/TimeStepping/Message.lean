import TimeStepping.Event
import TimeStepping.NumberText

/-!
# Messages

The wording of failures and events.  All text a user reads about a failed step
is made here.
-/

namespace TimeStepping

variable {α : Type} [NumberText α]

open NumberText (plain)

def Misconfiguration.message : Misconfiguration α → String
  | noAuxiliary step => s!"no auxiliary stepper available for step {step}"
  | stepZero => "steps are numbered from 1"
  | noBdfTable size => s!"no BDF scheme with {size} stencil states"
  | stencilSize size => s!"arbitrary steppers support 1 to 3 stencil states, got {size}"
  | orderZero => "scheme order must be positive"
  | controlDt dt => s!"dt must be positive, got {plain dt}"
  | controlMinimum dt minimum => s!"min_dt must lie in (0, {plain dt}], got {plain minimum}"
  | controlReduction factor =>
      s!"dt reduction factor must be greater than 1, got {plain factor}"
  | interval start final => s!"cannot advance from t = {plain start} to t = {plain final}"
  | stepDt dt step => s!"invalid dt = {plain dt} for step {step}"
  | newtonIterations => "newton max_iterations must be positive"
  | newtonTolerances => "newton tolerances must be finite and non-negative"
  | duration length => s!"duration must be finite and non-negative, got {plain length}"
  | noCells => "burgers1d needs at least one cell"
  | decoderShape rows reference full =>
      s!"decoder has {rows} rows and reference state {reference} entries, "
        ++ s!"full-order model has {full}"
  | unreadableSettings => "invalid settings"
  | unreadableFile path reason => s!"cannot read {path}: {reason}"
  | other text => text

def Divergence.message : Divergence → String
  | residualNotFinite => "residual is not finite"
  | singularJacobian => "singular jacobian"
  | correctionNotFinite => "correction is not finite"
  | iterationLimit limit => s!"no convergence within {limit} iterations"
  | other text => text

/-- The line that describes a failure; of a source only what belongs to the line. -/
def Failure.message : Failure α → String
  | velocity reason => s!"Velocity evaluation failed: {reason}"
  | discreteResidual reason =>
      s!"Discrete-time residual evaluation failed unrecoverably: {reason}"
  | residual step time source =>
      s!"Residual evaluation failed at step {step} (t = {plain time}): " ++ source.message
  | unsolved iterations reason =>
      s!"Nonlinear solve failed after {iterations} iterations: {reason.message}"
  | unevaluated iterations source =>
      s!"Nonlinear solve failed after {iterations} iterations: " ++ source.message
  | timeStep step dt _ => s!"Time step {step} failed with dt = {plain dt}"
  | timeStepTooSmall step dt minimum =>
      s!"Timestep {plain dt} smaller than minimum {plain minimum} at step {step}"
  | configuration cause => s!"Invalid configuration: {cause.message}"

def Failure.source? : Failure α → Option (Failure α)
  | residual _ _ source => some source
  | timeStep _ _ source => some source
  | _ => none

def Event.message : Event α → String
  | stepBegun scheme step time dt =>
      s!"{scheme} stepper: do step {step} (t = {plain time}, dt = {plain dt})"
  | stepRolledBack scheme step cause =>
      s!"{scheme} stepper: step {step} rolled back: {cause.message}"
  | tentativeStepUndone size => s!"rolling back tentative step (stencil size {size})"
  | newtonIteration iteration norm =>
      s!"newton iteration {iteration}: |R| = {NumberText.scientific 3 norm}"
  | retrying step dt reduced =>
      s!"step {step} failed with dt = {plain dt}, retrying with dt = {plain reduced}"
  | gaveUp step cause => s!"step {step}: giving up, {cause.message}"
  | observed step time norm =>
      s!"step {step}: t = {NumberText.fixed 4 time}, |u| = {NumberText.fixed 6 norm}"
  | runFailed cause => cause.message

def Event.line (event : Event α) : String :=
  s!"{event.level.name} {event.message}"

end TimeStepping
