import TimeStepping.Bdf
import TimeStepping.Decimal.Basic
import TimeStepping.Decimal.Binary
import TimeStepping.Decimal.Shortest
import TimeStepping.Demo
import TimeStepping.Difference
import TimeStepping.Event
import TimeStepping.Explicit
import TimeStepping.Failure
import TimeStepping.Galerkin
import TimeStepping.Implicit.Attempt
import TimeStepping.Implicit.Chain
import TimeStepping.Json.Number
import TimeStepping.Json.Printer
import TimeStepping.Json.Reader
import TimeStepping.Json.Record
import TimeStepping.Json.Spelling
import TimeStepping.Json.Syntax
import TimeStepping.Linear.Elimination
import TimeStepping.Linear.Mat
import TimeStepping.Linear.Vec
import TimeStepping.Main
import TimeStepping.Message
import TimeStepping.Models.Burgers
import TimeStepping.Models.Polynomial
import TimeStepping.Models.Quadratic
import TimeStepping.Models.Refusal
import TimeStepping.Newton
import TimeStepping.NumberText
import TimeStepping.Outcome
import TimeStepping.Run.Basic
import TimeStepping.Run.Prescribed
import TimeStepping.Run.Retrying
import TimeStepping.Run.StepControl
import TimeStepping.Run.TimeGrid
import TimeStepping.Scalar
import TimeStepping.Settings.Basic
import TimeStepping.Settings.Json
import TimeStepping.Stencil
import TimeStepping.StepEquation
import TimeStepping.System
import TimeStepping.Proofs.Assertions
import TimeStepping.Proofs.Burgers
import TimeStepping.Proofs.Causality
import TimeStepping.Proofs.CentralDifferences
import TimeStepping.Proofs.Conservation
import TimeStepping.Proofs.Coordinates
import TimeStepping.Proofs.Decimal
import TimeStepping.Proofs.Doubles
import TimeStepping.Proofs.Elimination
import TimeStepping.Proofs.Equilibria
import TimeStepping.Proofs.Exact
import TimeStepping.Proofs.Explicit.Accuracy
import TimeStepping.Proofs.Explicit.Buffers
import TimeStepping.Proofs.Explicit.Orbits
import TimeStepping.Proofs.Explicit.SideBySide
import TimeStepping.Proofs.Explicit.Stages
import TimeStepping.Proofs.Explicit.StrongStability
import TimeStepping.Proofs.Explicit.Tableau
import TimeStepping.Proofs.Fate
import TimeStepping.Proofs.Formulas
import TimeStepping.Proofs.Implicit.Delegation
import TimeStepping.Proofs.Implicit.Lines
import TimeStepping.Proofs.Implicit.Memory
import TimeStepping.Proofs.Implicit.Overwriting
import TimeStepping.Proofs.Implicit.OwnSystem
import TimeStepping.Proofs.Implicit.Restart
import TimeStepping.Proofs.Implicit.Session
import TimeStepping.Proofs.Implicit.StartUp
import TimeStepping.Proofs.Implicit.Surfacing
import TimeStepping.Proofs.Implicit.Transaction
import TimeStepping.Proofs.Iterates
import TimeStepping.Proofs.Iteration
import TimeStepping.Proofs.IterationLimit
import TimeStepping.Proofs.Json.Numerals
import TimeStepping.Proofs.Json.Records
import TimeStepping.Proofs.Json.RoundTrip
import TimeStepping.Proofs.LinearSteps
import TimeStepping.Proofs.Linearization
import TimeStepping.Proofs.NestedReductions
import TimeStepping.Proofs.Order
import TimeStepping.Proofs.Projection
import TimeStepping.Proofs.Reduction
import TimeStepping.Proofs.Renumbering
import TimeStepping.Proofs.Repeatable
import TimeStepping.Proofs.Reproduction
import TimeStepping.Proofs.Rotations
import TimeStepping.Proofs.Rounding
import TimeStepping.Proofs.Run.Atomicity
import TimeStepping.Proofs.Run.Composition
import TimeStepping.Proofs.Run.Course
import TimeStepping.Proofs.Run.Fate
import TimeStepping.Proofs.Run.FixedControl
import TimeStepping.Proofs.Run.Fuel
import TimeStepping.Proofs.Run.Lines
import TimeStepping.Proofs.Run.Lockstep
import TimeStepping.Proofs.Run.Rest
import TimeStepping.Proofs.Run.Retries
import TimeStepping.Proofs.Run.Schedule
import TimeStepping.Proofs.Run.Sequence
import TimeStepping.Proofs.Run.Tandem
import TimeStepping.Proofs.Run.TargetTime
import TimeStepping.Proofs.Run.Termination
import TimeStepping.Proofs.Run.Timeline
import TimeStepping.Proofs.Run.Trace
import TimeStepping.Proofs.Run.Untroubled
import TimeStepping.Proofs.Settings.RoundTrip
import TimeStepping.Proofs.Settings.Running
import TimeStepping.Proofs.Settings.Validation
import TimeStepping.Proofs.Systems
import TimeStepping.Proofs.Watching
