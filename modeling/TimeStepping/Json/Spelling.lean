/-!
# Spelled strings

The text between the quotes of a JSON string.  `Spelling.scan` finds the end of
a string; it checks escapes for their form only.  `Spelling.decode` gives the
text meant, which also has to pair up the halves of surrogate pairs.
-/

namespace TimeStepping.Json.Spelling

def hexDigit (c : Char) : Option Nat :=
  if '0' ≤ c ∧ c ≤ '9' then some (c.toNat - '0'.toNat)
  else if 'a' ≤ c ∧ c ≤ 'f' then some (c.toNat - 'a'.toNat + 10)
  else if 'A' ≤ c ∧ c ≤ 'F' then some (c.toNat - 'A'.toNat + 10)
  else none

def hexUnit (a b c d : Char) : Option Nat := do
  pure ((((← hexDigit a) * 16 + (← hexDigit b)) * 16 + (← hexDigit c)) * 16 + (← hexDigit d))

def shortEscape : Char → Option Char
  | '"' => some '"'
  | '\\' => some '\\'
  | '/' => some '/'
  | 'b' => some '\x08'
  | 'f' => some '\x0c'
  | 'n' => some '\n'
  | 'r' => some '\r'
  | 't' => some '\t'
  | _ => none

/-- Split the characters behind an opening quote into the spelling of the string
and what follows its closing quote. -/
def scan : List Char → Option (List Char × List Char)
  | [] => none
  | '"' :: rest => some ([], rest)
  | '\\' :: 'u' :: a :: b :: c :: d :: rest =>
      if (hexUnit a b c d).isSome then
        (scan rest).map fun (s, after) => ('\\' :: 'u' :: a :: b :: c :: d :: s, after)
      else none
  | '\\' :: e :: rest =>
      if (shortEscape e).isSome then (scan rest).map fun (s, after) => ('\\' :: e :: s, after)
      else none
  | c :: rest =>
      if c = '\\' ∨ c.toNat < 32 then none
      else (scan rest).map fun (s, after) => (c :: s, after)

def isHigh (u : Nat) : Bool :=
  decide (0xD800 ≤ u ∧ u < 0xDC00)

def isLow (u : Nat) : Bool :=
  decide (0xDC00 ≤ u ∧ u < 0xE000)

def decode : List Char → Option (List Char)
  | [] => some []
  | '\\' :: 'u' :: a :: b :: c :: d :: '\\' :: 'u' :: e :: f :: g :: h :: rest => do
      let first ← hexUnit a b c d
      if isHigh first then
        let second ← hexUnit e f g h
        if isLow second then
          let code := 0x10000 + (first - 0xD800) * 0x400 + (second - 0xDC00)
          pure (Char.ofNat code :: (← decode rest))
        else none
      else if isLow first then none
      else pure (Char.ofNat first :: (← decode ('\\' :: 'u' :: e :: f :: g :: h :: rest)))
  | '\\' :: 'u' :: a :: b :: c :: d :: rest => do
      let unit ← hexUnit a b c d
      if isHigh unit || isLow unit then none
      else pure (Char.ofNat unit :: (← decode rest))
  | '\\' :: e :: rest => do pure ((← shortEscape e) :: (← decode rest))
  | c :: rest => do pure (c :: (← decode rest))

end TimeStepping.Json.Spelling
