import TimeStepping.Failure

/-!
# Events

What the library reports while it works.  An event is recorded in the
environment of the computation through `Journal`; what becomes of it, and which
levels are kept, is the choice of whoever supplies the environment.
-/

namespace TimeStepping

inductive Level where
  | error
  | warn
  | info
  | debug
  | trace
  deriving DecidableEq

namespace Level

def all : List Level :=
  [error, warn, info, debug, trace]

def rank : Level → Nat
  | error => 1
  | warn => 2
  | info => 3
  | debug => 4
  | trace => 5

def name : Level → String
  | error => "ERROR"
  | warn => "WARN"
  | info => "INFO"
  | debug => "DEBUG"
  | trace => "TRACE"

end Level

inductive Event (α : Type) where
  | stepBegun (scheme : String) (step : Nat) (time dt : α)
  | stepRolledBack (scheme : String) (step : Nat) (cause : Failure α)
  | tentativeStepUndone (size : Nat)
  | newtonIteration (iteration : Nat) (norm : α)
  | retrying (step : Nat) (dt reduced : α)
  | gaveUp (step : Nat) (cause : Failure α)
  | observed (step : Nat) (time norm : α)
  | runFailed (cause : Failure α)

def Event.level {α : Type} : Event α → Level
  | stepBegun .. => .debug
  | stepRolledBack .. => .debug
  | tentativeStepUndone _ => .trace
  | newtonIteration .. => .trace
  | retrying .. => .warn
  | gaveUp .. => .debug
  | observed .. => .info
  | runFailed _ => .error

/-- An environment that takes note of events. -/
class Journal (α σ : Type) where
  record : Event α → σ → σ

/-- The trivial environment forgets every event. -/
instance {α : Type} : Journal α Unit where
  record _ _ := ()

instance {α : Type} : Journal α (Array (Event α)) where
  record event events := events.push event

instance {α τ σ : Type} [Journal α σ] : Journal α (τ × σ) where
  record event env := (env.1, Journal.record event env.2)

def note {α σ : Type} [Journal α σ] (event : Event α) : StateM σ Unit :=
  modify (Journal.record event)

def noteAll {α σ : Type} [Journal α σ] (events : List (Event α)) : StateM σ Unit :=
  modify fun env => events.foldl (fun env event => Journal.record event env) env

end TimeStepping
