import TimeStepping.Decimal.Binary

/-!
# Decimals

Unsigned decimal numbers as a coefficient and a power of ten, rounding of
fractions to a number of digits, and the text of a number in positional and in
scientific form.
-/

namespace TimeStepping

/-- The value `coefficient * 10 ^ exponent`. -/
structure Decimal where
  coefficient : Nat
  exponent : Int
  deriving DecidableEq

namespace Decimal

def digits (n : Nat) : List Char :=
  Nat.toDigits 10 n

def paddedDigits (width n : Nat) : List Char :=
  let ds := digits n
  List.replicate (width - ds.length) '0' ++ ds

def leadingExponent (x : Fraction) : Int :=
  if x.denominator ≤ x.numerator then ((digits x.floor).length : Int) - 1
  else
    let n := (digits (x.denominator / x.numerator)).length
    if x.denominator ≤ x.numerator * Nat.pow 10 (n - 1) then -((n - 1 : Nat) : Int) else -(n : Int)

/-- A positive fraction rounded to `count + 1` significant digits, half to even. -/
def significant (count : Nat) (x : Fraction) : Decimal :=
  let lead := leadingExponent x
  let n := (x.shift ((count : Int) - lead)).round
  if n = Nat.pow 10 (count + 1) then ⟨Nat.pow 10 count, lead + 1 - count⟩ else ⟨n, lead - count⟩

def integerText : Int → String
  | .ofNat n => String.ofList (digits n)
  | .negSucc n => String.ofList ('-' :: digits (n + 1))

def scientificText (d : Decimal) : String :=
  let ds := digits d.coefficient
  let mantissa :=
    match ds with
    | lead :: second :: rest => lead :: '.' :: second :: rest
    | _ => ds
  String.ofList mantissa ++ "e" ++ integerText (d.exponent + ((ds.length - 1 : Nat) : Int))

/-- The digits before and after the point, without an exponent.  The whole part
has at least one digit. -/
def positional (d : Decimal) : List Char × List Char :=
  let ds := digits d.coefficient
  match d.exponent with
  | .ofNat e => (ds ++ List.replicate e '0', [])
  | .negSucc e =>
      let places := e + 1
      if places < ds.length then (ds.take (ds.length - places), ds.drop (ds.length - places))
      else (['0'], List.replicate (places - ds.length) '0' ++ ds)

/-- The digits with a point where there is a fractional part. -/
def positionalText (d : Decimal) : String :=
  match d.positional with
  | (whole, []) => String.ofList whole
  | (whole, fraction) => String.ofList (whole ++ '.' :: fraction)

/-- A fraction with a fixed number of places after the point, half to even. -/
def fixedText (places : Nat) (x : Fraction) : String :=
  let n := (x.shift places).round
  let whole := digits (n / Nat.pow 10 places)
  if places = 0 then String.ofList whole
  else String.ofList (whole ++ '.' :: paddedDigits places (n % Nat.pow 10 places))

end Decimal

end TimeStepping
