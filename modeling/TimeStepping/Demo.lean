import TimeStepping.Explicit
import TimeStepping.Implicit.Attempt
import TimeStepping.Message
import TimeStepping.Models.Burgers
import TimeStepping.Run.Prescribed
import TimeStepping.Run.Retrying
import TimeStepping.Settings.Json

/-!
# Demonstration

One run of the Burgers equation on twenty cells with given settings, and the
report that is printed about it.
-/

namespace TimeStepping

namespace Demo

inductive ReadFailure where
  | missing
  | forbidden
  | directory
  | notText
  | other (text : String)

def ReadFailure.message : ReadFailure → String
  | missing => "No such file or directory (os error 2)"
  | forbidden => "Permission denied (os error 13)"
  | directory => "Is a directory (os error 21)"
  | notText => "stream did not contain valid UTF-8"
  | other text => text

inductive Source where
  | standard
  | text (content : String)
  | unreadable (path : String) (reason : ReadFailure)

/-- What the demonstration prints, how it ended, and what happened meanwhile. -/
structure Report where
  output : String
  ending : RunEnding Float Nat
  events : Array (Event Float)

def cells : Nat := 20

/-- More steps, and more attempts of one step, than any run takes. -/
def fuel : Nat := 1000000000000000000

def settings : Source → Except (Failure Float) (Settings Float)
  | .standard =>
      let settings : Settings Float := .standard
      match settings.validate with
      | .ok _ => .ok settings
      | .error cause => .error (.configuration cause)
  | .text content => Settings.read content
  | .unreadable path reason => .error (.configuration (.unreadableFile path reason.message))

section Integration

variable {σ α : Type} [Scalar α] [Journal α σ]

def observer : Run.Observer σ α :=
  fun step time state => note (.observed step time (Vec.norm state))

/-- Drive a stepper over the interval of the settings, in the way they ask for. -/
def integrate (fuel : Nat) (stepper : Steppable σ α) (settings : Settings α) (live : Vec α) :
    StateM σ (Run α Nat) :=
  if settings.recovery then
    Run.toTimeRetrying fuel stepper (fun _ _ => pure settings.control) observer
      settings.startTime settings.finalTime live
  else
    Run.toTime fuel stepper (fun _ _ => pure settings.dt) observer
      settings.startTime settings.finalTime live

def integrateExplicit (fuel : Nat) (system : ContinuousSystem σ α) (scheme : ExplicitScheme)
    (settings : Settings α) (live : Vec α) : StateM σ (Run α Nat) := fun env =>
  let (run, _, env) :=
    integrate fuel (ExplicitStepper.steppable system scheme) settings live
      (ExplicitStepper.fresh scheme system, env)
  (run, env)

/-- Integrate with the backward differentiation formula over `size` states. -/
def integrateImplicit (fuel : Nat) (system : ContinuousSystem σ α) (size : Nat)
    (settings : Settings α) (live : Vec α) : StateM σ (Run α Nat) := fun env =>
  let solver := Newton.solver settings.newton Mat.solve fun _ env => env
  let (run, _, env) :=
    integrate fuel (Chain.steppable (.bdf system) solver size) settings live
      (Chain.bdf live size, env)
  (run, env)

def integrateBy (fuel : Nat) (system : ContinuousSystem σ α) (settings : Settings α)
    (live : Vec α) : StateM σ (Run α Nat) :=
  match settings.scheme with
  | .euler => integrateExplicit fuel system .euler settings live
  | .rungeKutta4 => integrateExplicit fuel system .rungeKutta4 settings live
  | .ssprk3 => integrateExplicit fuel system .ssprk3 settings live
  | .bdf1 => integrateImplicit fuel system 1 settings live
  | .bdf2 => integrateImplicit fuel system 2 settings live
  | .bdf3 => integrateImplicit fuel system 3 settings live

end Integration

open NumberText (plain fixed)

def heading (settings : Settings Float) (cells : Nat) : String :=
  "odestep - Burgers1D demo\n"
    ++ "========================\n\n"
    ++ s!"  scheme:   {settings.scheme.name} (order {settings.scheme.order})\n"
    ++ s!"  cells:    {cells}\n"
    ++ s!"  interval: [{plain settings.startTime}, {plain settings.finalTime}], "
    ++ s!"dt = {plain settings.dt}\n\n"

def summary (steps : Nat) (state : Vec Float) : String :=
  s!"Completed {steps} steps\n"
    ++ s!"  min(u) = {fixed 6 (Vec.least state)}\n"
    ++ s!"  max(u) = {fixed 6 (Vec.greatest state)}\n"
    ++ s!"  |u|    = {fixed 6 (Vec.norm state)}\n"

def Report.complaint? (report : Report) : Option String :=
  match report.ending with
  | .finished _ => none
  | .failed cause => some s!"error: {cause.message}"
  | .fault cause => some s!"error: {cause.message}"
  | .unfinished => some "error: too many steps"

def failing (output : String) (events : Array (Event Float)) (cause : Failure Float) : Report :=
  ⟨output, .failed cause, events.push (.runFailed cause)⟩

def run (source : Source) : Report :=
  match settings source with
  | .error cause => failing "" #[] cause
  | .ok settings =>
      match Burgers.ofCells .standard cells with
      | .error cause => failing "" #[] cause
      | .ok model =>
          let heading := heading settings model.cells
          let (run, events) :=
            integrateBy fuel model.system settings model.initialState (#[] : Array (Event Float))
          match run.ending with
          | .finished steps => ⟨heading ++ summary steps run.live, run.ending, events⟩
          | .failed cause => failing heading events cause
          | ending => ⟨heading, ending, events⟩

end Demo

end TimeStepping
