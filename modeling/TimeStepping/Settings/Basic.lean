import TimeStepping.Newton
import TimeStepping.Run.StepControl

/-!
# Settings

What a run over an interval is told: the scheme, the interval, the time step and
how far it may be reduced, and the settings of the nonlinear solver.
-/

namespace TimeStepping

inductive Scheme where
  | euler
  | rungeKutta4
  | ssprk3
  | bdf1
  | bdf2
  | bdf3
  deriving DecidableEq

namespace Scheme

def all : List Scheme :=
  [euler, rungeKutta4, ssprk3, bdf1, bdf2, bdf3]

def name : Scheme → String
  | euler => "Euler"
  | rungeKutta4 => "RK4"
  | ssprk3 => "SSPRK3"
  | bdf1 => "BDF1"
  | bdf2 => "BDF2"
  | bdf3 => "BDF3"

def ofName? (name : String) : Option Scheme :=
  all.find? fun scheme => scheme.name == name

def order : Scheme → Nat
  | euler => 1
  | rungeKutta4 => 4
  | ssprk3 => 3
  | bdf1 => 1
  | bdf2 => 2
  | bdf3 => 3

def isImplicit : Scheme → Bool
  | bdf1 | bdf2 | bdf3 => true
  | _ => false

end Scheme

structure Settings (α : Type) where
  scheme : Scheme
  startTime : α
  duration : α
  dt : α
  recovery : Bool
  minimumDt : α
  reduction : α
  newton : Newton.Settings α

namespace Settings

variable {α : Type} [Scalar α]

def standard : Settings α where
  scheme := .bdf2
  startTime := 0
  duration := Scalar.ratio 1 10
  dt := Scalar.ratio 1 100
  recovery := false
  minimumDt := Scalar.ratio 1 100000000
  reduction := ((2 : Nat) : α)
  newton := .standard

def finalTime (settings : Settings α) : α :=
  settings.startTime + settings.duration

/-- The control of every step; without recovery the time step is never reduced. -/
def control (settings : Settings α) : StepControl α :=
  if settings.recovery then ⟨settings.dt, settings.minimumDt, settings.reduction⟩
  else .fixed settings.dt

def validate (settings : Settings α) : Except (Misconfiguration α) Unit :=
  if ¬Scalar.isFinite settings.duration ∨ settings.duration < 0 then
    .error (.duration settings.duration)
  else
    match settings.control.validate with
    | .error cause => .error cause
    | .ok _ => settings.newton.validate

end Settings

end TimeStepping
