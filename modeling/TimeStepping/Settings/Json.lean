import TimeStepping.Json.Printer
import TimeStepping.Json.Reader
import TimeStepping.Json.Record
import TimeStepping.Settings.Basic

/-!
# Settings as JSON

The JSON form of settings and of step controls.  Missing settings take their
standard values; a step control has to be complete.
-/

namespace TimeStepping

namespace Scheme

/-- Read the name of a scheme, alone or as the only member of an object, with no value. -/
def ofJson? : Json → Option Scheme
  | .string spelling => do ofName? (String.ofList (← Json.Spelling.decode spelling))
  | .object [(spelling, .null)] => do ofName? (String.ofList (← Json.Spelling.decode spelling))
  | _ => none

def toJson (scheme : Scheme) : Json :=
  Json.text scheme.name

end Scheme

namespace Newton.Settings

variable {α : Type} [JsonNumber α]

def fieldNames : List String :=
  ["max_iterations", "residual_abs_tol", "residual_rel_tol", "correction_abs_tol",
    "correction_rel_tol"]

def ofJson? (default : Settings α) (json : Json) : Option (Settings α) := do
  match ← Json.fields? fieldNames json with
  | [maxIterations, residualAbs, residualRel, correctionAbs, correctionRel] =>
      pure {
        maxIterations := ← Json.fieldOr Json.count? default.maxIterations maxIterations
        residualAbs := ← Json.fieldOr Json.scalar? default.residualAbs residualAbs
        residualRel := ← Json.fieldOr Json.scalar? default.residualRel residualRel
        correctionAbs := ← Json.fieldOr Json.scalar? default.correctionAbs correctionAbs
        correctionRel := ← Json.fieldOr Json.scalar? default.correctionRel correctionRel }
  | _ => none

def toJson (settings : Settings α) : Json :=
  Json.ofFields [
    ("max_iterations", .number (Json.Number.ofNat settings.maxIterations)),
    ("residual_abs_tol", Json.ofScalar settings.residualAbs),
    ("residual_rel_tol", Json.ofScalar settings.residualRel),
    ("correction_abs_tol", Json.ofScalar settings.correctionAbs),
    ("correction_rel_tol", Json.ofScalar settings.correctionRel)]

end Newton.Settings

namespace Settings

variable {α : Type} [JsonNumber α]

def fieldNames : List String :=
  ["scheme", "start_time", "duration", "dt", "recovery", "dt_min", "dt_reduction_factor",
    "newton"]

def ofJson? (default : Settings α) (json : Json) : Option (Settings α) := do
  match ← Json.fields? fieldNames json with
  | [scheme, startTime, duration, dt, recovery, minimumDt, reduction, newton] =>
      pure {
        scheme := ← Json.fieldOr Scheme.ofJson? default.scheme scheme
        startTime := ← Json.fieldOr Json.scalar? default.startTime startTime
        duration := ← Json.fieldOr Json.scalar? default.duration duration
        dt := ← Json.fieldOr Json.scalar? default.dt dt
        recovery := ← Json.fieldOr Json.bool? default.recovery recovery
        minimumDt := ← Json.fieldOr Json.scalar? default.minimumDt minimumDt
        reduction := ← Json.fieldOr Json.scalar? default.reduction reduction
        newton := ← Json.fieldOr
          (Newton.Settings.ofJson? default.newton) default.newton newton }
  | _ => none

def toJson (settings : Settings α) : Json :=
  Json.ofFields [
    ("scheme", settings.scheme.toJson),
    ("start_time", Json.ofScalar settings.startTime),
    ("duration", Json.ofScalar settings.duration),
    ("dt", Json.ofScalar settings.dt),
    ("recovery", .bool settings.recovery),
    ("dt_min", Json.ofScalar settings.minimumDt),
    ("dt_reduction_factor", Json.ofScalar settings.reduction),
    ("newton", settings.newton.toJson)]

def write (settings : Settings α) : String :=
  settings.toJson.pretty

def read [Scalar α] (text : String) : Except (Failure α) (Settings α) :=
  match (Json.read? text).bind (ofJson? standard) with
  | none => .error (.configuration .unreadableSettings)
  | some settings =>
      match settings.validate with
      | .error cause => .error (.configuration cause)
      | .ok _ => .ok settings

end Settings

namespace StepControl

variable {α : Type} [JsonNumber α]

def fieldNames : List String :=
  ["dt", "min_dt", "reduction_factor"]

def ofJson? (json : Json) : Option (StepControl α) := do
  match ← Json.fields? fieldNames json with
  | [some dt, some minimum, some reduction] =>
      pure ⟨← Json.scalar? dt, ← Json.scalar? minimum, ← Json.scalar? reduction⟩
  | _ => none

def read? (text : String) : Option (StepControl α) :=
  (Json.read? text).bind ofJson?

def toJson (control : StepControl α) : Json :=
  Json.ofFields [
    ("dt", Json.ofScalar control.dt),
    ("min_dt", Json.ofScalar control.minimum),
    ("reduction_factor", Json.ofScalar control.reduction)]

def write (control : StepControl α) : String :=
  control.toJson.compact

end StepControl

end TimeStepping
