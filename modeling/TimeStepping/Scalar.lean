/-!
# Scalars

The arithmetic the integrators are written over.  Every numerical definition of
the library is generic in its scalar, so the same text runs on binary floating
point and is reasoned about over the real numbers.  The class asks for
operations only, no laws.
-/

namespace TimeStepping

/-- Operations on scalars: field arithmetic, comparisons that can be decided,
magnitude, square root, and the tests for zero and for a finite value. -/
class Scalar (α : Type) extends
    Zero α, One α, Add α, Sub α, Mul α, Div α, Neg α, NatCast α, LT α, LE α where
  decidableLT (x y : α) : Decidable (x < y)
  decidableLE (x y : α) : Decidable (x ≤ y)
  abs : α → α
  sqrt : α → α
  isZero : α → Bool
  isFinite : α → Bool

attribute [reducible, instance] Scalar.decidableLT Scalar.decidableLE

/-- A scalar with an exponential function.  It is kept apart because no law of
the integrators depends on what the function is. -/
class Exponential (α : Type) where
  exp : α → α

namespace Scalar

variable {α : Type} [Scalar α]

/-- The quotient of two counts, the form in which literals such as 2/3 are written. -/
def ratio (p q : Nat) : α :=
  (p : α) / (q : α)

def larger (x y : α) : α :=
  if y < x then x else y

end Scalar

instance : Scalar Float where
  natCast := Float.ofNat
  decidableLT := inferInstance
  decidableLE := inferInstance
  abs := Float.abs
  sqrt := Float.sqrt
  isZero x := x == 0.0
  isFinite := Float.isFinite

instance : Exponential Float where
  exp := Float.exp

end TimeStepping
