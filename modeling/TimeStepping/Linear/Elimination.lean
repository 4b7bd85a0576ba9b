import TimeStepping.Linear.Mat

/-!
# Gaussian elimination

Square systems of linear equations, solved by elimination with partial
pivoting.  Eliminating one unknown leaves a system with one equation less, so
the method recurses on the number of unknowns and substitutes back on return.
-/

namespace TimeStepping

/-- One linear equation: the coefficients of the unknowns still present, and the
right-hand side. -/
structure Equation (α : Type) where
  coefficients : List α
  rhs : α

namespace Equation

variable {α : Type} [Scalar α]

def lead (row : Equation α) : α :=
  row.coefficients.headD 0

/-- Subtract the multiple of `pivot` that cancels the first unknown of `row`. -/
def eliminate (pivot row : Equation α) : Equation α :=
  let m := row.lead * (1 / pivot.lead)
  ⟨List.zipWith (fun u c => -u * m + c) pivot.coefficients.tail row.coefficients.tail,
    -pivot.rhs * m + row.rhs⟩

/-- The first unknown, once the others are known; the last unknown is moved to
the right-hand side first. -/
def resolve (pivot : Equation α) (others : List α) : α :=
  (List.zip pivot.coefficients.tail others).foldr (fun term b => -term.2 * term.1 + b) pivot.rhs
    / pivot.lead

/-- The position of the equation to eliminate with: the first one of largest
leading magnitude, where only a larger magnitude replaces an earlier choice. -/
def pivotPosition (first : Equation α) (rest : List (Equation α)) : Nat :=
  (rest.zipIdx.foldl
    (fun best candidate =>
      let magnitude := Scalar.abs candidate.1.lead
      if best.1 < magnitude then (magnitude, candidate.2 + 1) else best)
    (Scalar.abs first.lead, 0)).2

def exchange (first : Equation α) (rest : List (Equation α)) :
    Nat → Equation α × List (Equation α)
  | 0 => (first, rest)
  | position + 1 => (rest[position]?.getD first, rest.set position first)

/-- The solution of `n` equations in `n` unknowns; none if a pivot is zero. -/
def solve : (n : Nat) → List (Equation α) → Option (List α)
  | 0, _ => some []
  | _ + 1, [] => none
  | n + 1, first :: rest =>
      let (pivot, others) := exchange first rest (pivotPosition first rest)
      if Scalar.isZero pivot.lead then none
      else
        match solve n (others.map pivot.eliminate) with
        | none => none
        | some tail => some (pivot.resolve tail :: tail)

end Equation

namespace Mat

variable {α : Type} [Scalar α]

/-- The solution `x` of `a x = b`, none if `a` is singular.  The matrix has to be
square with at least one row. -/
def solve (a : Mat α) (b : Vec α) : Except Fault (Option (Vec α)) :=
  if a.rows = b.size ∧ a.rows = a.cols ∧ a.rows ≠ 0 then
    let rows := List.zipWith Equation.mk a.toRows b.toList
    .ok ((Equation.solve a.rows rows).map List.toArray)
  else .error .sizeMismatch

end Mat

end TimeStepping
