import TimeStepping.Decimal.Shortest

/-!
# Numbers in messages

How numbers are written in messages and reports.
-/

namespace TimeStepping

class NumberText (α : Type) where
  plain : α → String
  /-- One digit before the point, the given number behind it, and an exponent. -/
  scientific : Nat → α → String
  fixed : Nat → α → String

namespace NumberText

def signed (negative : Bool) (text : String) : String :=
  if negative then "-" ++ text else text

def write (magnitude : (significand : Nat) → (exponent : Int) → String) (x : Float) : String :=
  match Binary.ofFloat x with
  | .nan => "NaN"
  | .infinite negative => signed negative "inf"
  | .finite negative significand exponent => signed negative (magnitude significand exponent)

def scientificMagnitude (places significand : Nat) (exponent : Int) : String :=
  if significand = 0 then
    if places = 0 then "0e0" else "0." ++ String.ofList (List.replicate places '0') ++ "e0"
  else (Decimal.significant places (.scaled significand 2 exponent)).scientificText

end NumberText

instance : NumberText Float where
  plain := NumberText.write fun m e => (Decimal.shortest .upward m e).positionalText
  scientific places := NumberText.write (NumberText.scientificMagnitude places)
  fixed places := NumberText.write fun m e => Decimal.fixedText places (.scaled m 2 e)

end TimeStepping
