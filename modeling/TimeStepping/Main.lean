import TimeStepping.Demo

/-!
# Command line

The demonstration as a program.  Its first argument, if there is one, names a
file with settings.  The variable `LOG_LEVEL` of the environment chooses the
events that are reported on the error stream; by default these are errors.
-/

namespace TimeStepping.CommandLine

def readFailure : IO.Error → Demo.ReadFailure
  | .noFileOrDirectory .. => .missing
  | .permissionDenied .. => .forbidden
  | .inappropriateType .. => .directory
  | error => .other (toString error)

def readSource : List String → IO Demo.Source
  | [] => pure .standard
  | path :: _ => do
      match ← (IO.FS.readBinFile path).toBaseIO with
      | .error error => pure (.unreadable path (readFailure error))
      | .ok bytes =>
          match String.fromUTF8? bytes with
          | some text => pure (.text text)
          | none => pure (.unreadable path .notText)

def reportedRank : IO Nat := do
  match ← IO.getEnv "LOG_LEVEL" with
  | none => pure Level.error.rank
  | some name =>
      let named := Level.all.find? fun level => level.name == name.toUpper
      pure ((named.map Level.rank).getD 0)

def print (report : Demo.Report) : IO UInt32 := do
  let rank ← reportedRank
  for event in report.events do
    if event.level.rank ≤ rank then IO.eprintln event.line
  IO.print report.output
  match report.complaint? with
  | none => pure 0
  | some line =>
      IO.eprintln line
      pure 1

end TimeStepping.CommandLine

def main (args : List String) : IO UInt32 := do
  let source ← TimeStepping.CommandLine.readSource args
  TimeStepping.CommandLine.print (TimeStepping.Demo.run source)
