/-!
# Binary values

A double-precision number taken apart into sign, significand and binary
exponent, and positive fractions to compare such values exactly.
-/

namespace TimeStepping

structure Fraction where
  numerator : Nat
  denominator : Nat
  deriving DecidableEq

namespace Fraction

def scaled (n base : Nat) (exponent : Int) : Fraction :=
  match exponent with
  | .ofNat e => ⟨n * Nat.pow base e, 1⟩
  | .negSucc e => ⟨n, Nat.pow base (e + 1)⟩

def shift (x : Fraction) (exponent : Int) : Fraction :=
  match exponent with
  | .ofNat e => ⟨x.numerator * Nat.pow 10 e, x.denominator⟩
  | .negSucc e => ⟨x.numerator, x.denominator * Nat.pow 10 (e + 1)⟩

def le (x y : Fraction) : Bool :=
  decide (x.numerator * y.denominator ≤ y.numerator * x.denominator)

def lt (x y : Fraction) : Bool :=
  decide (x.numerator * y.denominator < y.numerator * x.denominator)

def floor (x : Fraction) : Nat :=
  x.numerator / x.denominator

def round (x : Fraction) : Nat :=
  let quotient := x.numerator / x.denominator
  let twice := 2 * (x.numerator % x.denominator)
  if twice < x.denominator then quotient
  else if x.denominator < twice then quotient + 1
  else quotient + quotient % 2

end Fraction

/-- A double-precision number: no number, an infinity, or a signed
`significand * 2 ^ exponent`. -/
inductive Binary where
  | nan
  | infinite (negative : Bool)
  | finite (negative : Bool) (significand : Nat) (exponent : Int)
  deriving DecidableEq

namespace Binary

/-- The bit of the sign. -/
def signBit : Nat := 0x8000000000000000

def impliedBit : Nat := 0x10000000000000

/-- Take the bits of a number apart: one for the sign, eleven for the exponent,
fifty-two for the significand, whose leading bit is implied by an exponent above
the least one. -/
def ofFloat (x : Float) : Binary :=
  let bits : Nat := x.toBits.toNat
  let negative := decide (signBit ≤ bits)
  let biased : Nat := bits / impliedBit % 2048
  let rest := bits % impliedBit
  if biased = 2047 then
    if rest = 0 then infinite negative else nan
  else if biased = 0 then finite negative rest (-1074)
  else finite negative (impliedBit + rest) (Int.subNatNat biased 1075)

end Binary

end TimeStepping
