import TimeStepping.Decimal.Basic

/-!
# Shortest decimals

The decimal with the fewest digits that reads back as a given double, and of
those the nearest one.  A number reads back exactly as long as it lies between
the midpoints to the neighbouring doubles; the midpoints themselves belong to
the doubles with an even significand.
-/

namespace TimeStepping

/-- Which of two equally near decimals is taken. -/
inductive Tie where
  | upward
  | even
  deriving DecidableEq

namespace Decimal

/-- The interval of the numbers that round to one double. -/
structure Neighbourhood where
  value : Fraction
  low : Fraction
  high : Fraction
  closed : Bool

namespace Neighbourhood

/-- The neighbourhood of `m * 2 ^ e`.  Below a power of two the next double is
only half as far away. -/
def ofBinary (m : Nat) (e : Int) : Neighbourhood where
  value := .scaled m 2 e
  low :=
    if m = Binary.impliedBit ∧ e ≠ -1074 then .scaled (4 * m - 1) 2 (e - 2)
    else .scaled (4 * m - 2) 2 (e - 2)
  high := .scaled (4 * m + 2) 2 (e - 2)
  closed := m % 2 == 0

def holds (n : Neighbourhood) (d : Decimal) : Bool :=
  let x := Fraction.scaled d.coefficient 10 d.exponent
  if n.closed then n.low.le x && x.le n.high else n.low.lt x && x.lt n.high

/-- The decimal of the interval on the grid of one power of ten, if there is
one: one of the two grid points around the value, the nearer one if both
qualify. -/
def onGrid (n : Neighbourhood) (tie : Tie) (exponent : Int) : Option Decimal :=
  let scaled := n.value.shift (-exponent)
  let below : Decimal := ⟨scaled.floor, exponent⟩
  let above : Decimal := ⟨scaled.floor + 1, exponent⟩
  let twice := 2 * (scaled.numerator % scaled.denominator)
  let up :=
    decide (scaled.denominator < twice) ||
      (twice == scaled.denominator && (tie == .upward || below.coefficient % 2 == 1))
  match n.holds below, n.holds above with
  | true, true => some (if up then above else below)
  | true, false => some below
  | false, true => some above
  | false, false => none

/-- The first hit on ever finer grids. -/
def search (n : Neighbourhood) (tie : Tie) : (grids : Nat) → (exponent : Int) → Decimal
  | 0, exponent => ⟨(n.value.shift (-exponent)).floor, exponent⟩
  | grids + 1, exponent =>
      match n.onGrid tie exponent with
      | some d => d
      | none => n.search tie grids (exponent - 1)

end Neighbourhood

def trimmed : (fuel : Nat) → Decimal → Decimal
  | 0, d => d
  | fuel + 1, d =>
      if d.coefficient ≠ 0 ∧ d.coefficient % 10 = 0 then
        trimmed fuel ⟨d.coefficient / 10, d.exponent + 1⟩
      else d

/-- The shortest decimal that reads back as `m * 2 ^ e`; seventeen digits always do. -/
def shortest (tie : Tie) (m : Nat) (e : Int) : Decimal :=
  if m = 0 then ⟨0, 0⟩
  else
    let n := Neighbourhood.ofBinary m e
    trimmed 17 (n.search tie 17 (leadingExponent n.value))

end Decimal

end TimeStepping
