import TimeStepping.Decimal.Shortest
import TimeStepping.Json.Syntax

/-!
# JSON numbers

How scalars are written as JSON numbers, and what a spelled number means.
Doubles are written with the fewest digits that read back.  They are read from
the digits that fit into a 64-bit word, by one multiplication or division with a
power of ten.
-/

namespace TimeStepping

class JsonNumber (α : Type) where
  write : α → Option Json.Literal
  read : Json.Literal → Option α

namespace Json.Number

/-- The powers of ten of the leading digit that are written without an exponent. -/
structure Layout where
  least : Int
  greatest : Int

/-- Numbers from a hundred-thousandth up to sixteen digits before the point are
written without an exponent. -/
def layout : Layout :=
  ⟨-5, 15⟩

/-- The spelling of a decimal.  Without an exponent there is always a digit
behind the point; with one there is a point only between digits. -/
def spell (layout : Layout) (negative : Bool) (d : Decimal) : Literal :=
  let ds := Decimal.digits d.coefficient
  let lead := d.exponent + ((ds.length - 1 : Nat) : Int)
  if d.coefficient = 0 ∨ (layout.least ≤ lead ∧ lead ≤ layout.greatest) then
    let (whole, fraction) := d.positional
    ⟨negative, whole, if fraction.isEmpty then ['0'] else fraction, none⟩
  else
    ⟨negative, ds.take 1, ds.drop 1, some (some (decide (lead < 0)), Decimal.digits lead.natAbs)⟩

def ofNat (n : Nat) : Literal :=
  ⟨false, Decimal.digits n, [], none⟩

def digitValue (c : Char) : Nat :=
  c.toNat - '0'.toNat

/-- Append digits to a number as long as it stays within `limit`; the second
component is the number of digits that were left out. -/
def appendDigits (limit : Nat) : (n : Nat) → List Char → Nat × Nat
  | n, [] => (n, 0)
  | n, c :: rest =>
      let next := n * 10 + digitValue c
      if next ≤ limit then appendDigits limit next rest else (n, rest.length + 1)

/-- The count that is spelled, if it is spelled as a whole number and is at most `limit`. -/
def toNat? (limit : Nat) (n : Literal) : Option Nat :=
  if n.negative ∨ n.fraction ≠ [] ∨ n.exponent.isSome then none
  else
    match appendDigits limit 0 n.whole with
    | (value, 0) => some value
    | _ => none

def wordLimit : Nat :=
  0xFFFFFFFFFFFFFFFF

def exponentLimit : Nat :=
  0x7FFFFFFF

/-- The double nearest to a power of ten, up to the greatest that is finite. -/
def powerOfTen (n : Nat) : Float :=
  Float.ofScientific 1 false n

/-- The value `x * 10 ^ exponent` by one rounded operation; exponents below the
table of powers are worked off in turns.  There is none beyond the finite range. -/
def applyExponent : (turns : Nat) → Float → (exponent : Int) → Option Float
  | 0, x, _ => some x
  | turns + 1, x, exponent =>
      if exponent.natAbs ≤ 308 then
        let power := powerOfTen exponent.natAbs
        if 0 ≤ exponent then
          let value := x * power
          if value.isInf then none else some value
        else some (x / power)
      else if x == 0.0 then some x
      else if 0 ≤ exponent then none
      else applyExponent turns (x / powerOfTen 308) (exponent + 308)

/-- The magnitude of a spelled number.  Digits that do not fit into a word are
dropped, those before the point in exchange for a power of ten. -/
def magnitude (n : Literal) : Option Float :=
  let (whole, dropped) := appendDigits wordLimit 0 n.whole
  let (significand, ignored) := appendDigits wordLimit whole n.fraction
  let point : Int := (dropped : Int) - ((n.fraction.length - ignored : Nat) : Int)
  match n.exponent with
  | none => applyExponent 4 (Float.ofNat significand) point
  | some (sign, digits) =>
      let negative := sign == some true
      match appendDigits exponentLimit 0 digits with
      | (exponent, 0) =>
          let total := if negative then point - exponent else point + exponent
          applyExponent 4 (Float.ofNat significand) total
      | _ => if significand = 0 ∨ negative then some 0.0 else none

end Json.Number

instance : JsonNumber Float where
  write x :=
    match Binary.ofFloat x with
    | .finite negative m e =>
        some (Json.Number.spell Json.Number.layout negative (Decimal.shortest .even m e))
    | _ => none
  read n := (Json.Number.magnitude n).map fun x => if n.negative then -x else x

end TimeStepping
