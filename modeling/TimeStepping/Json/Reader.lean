import TimeStepping.Json.Spelling
import TimeStepping.Json.Syntax

/-!
# Reading JSON

A strict reader for the JSON grammar: one value, blanks around it and nothing
else.  Every function takes the text that is left and gives back what follows
the part it read.
-/

namespace TimeStepping.Json

def skipBlanks : List Char → List Char
  | [] => []
  | c :: rest =>
      if c = ' ' ∨ c = '\t' ∨ c = '\n' ∨ c = '\r' then skipBlanks rest else c :: rest

def isDigit (c : Char) : Bool :=
  decide ('0' ≤ c ∧ c ≤ '9')

def spanDigits (text : List Char) : List Char × List Char :=
  (text.takeWhile isDigit, text.dropWhile isDigit)

namespace Literal

/-- Read the digits before the point: none are missing, and a zero stands alone. -/
def readWhole (text : List Char) : Option (List Char × List Char) :=
  match spanDigits text with
  | ([], _) => none
  | (['0'], rest) => some (['0'], rest)
  | ('0' :: _, _) => none
  | (whole, rest) => some (whole, rest)

def readFraction : List Char → Option (List Char × List Char)
  | '.' :: text =>
      match spanDigits text with
      | ([], _) => none
      | (fraction, rest) => some (fraction, rest)
  | text => some ([], text)

def readSign : List Char → Option Bool × List Char
  | '+' :: text => (some false, text)
  | '-' :: text => (some true, text)
  | text => (none, text)

def readExponent (text : List Char) :
    Option (Option (Option Bool × List Char) × List Char) :=
  match text with
  | [] => some (none, [])
  | c :: rest =>
      if c = 'e' ∨ c = 'E' then
        let (sign, digits) := readSign rest
        match spanDigits digits with
        | ([], _) => none
        | (exponent, rest) => some (some (sign, exponent), rest)
      else some (none, text)

def read (text : List Char) : Option (Literal × List Char) := do
  let (negative, text) :=
    match text with
    | '-' :: rest => (true, rest)
    | text => (false, text)
  let (whole, text) ← readWhole text
  let (fraction, text) ← readFraction text
  let (exponent, text) ← readExponent text
  pure (⟨negative, whole, fraction, exponent⟩, text)

end Literal

mutual

def readValue : (fuel : Nat) → List Char → Option (Json × List Char)
  | 0, _ => none
  | fuel + 1, text =>
      match text with
      | 'n' :: 'u' :: 'l' :: 'l' :: rest => some (null, rest)
      | 't' :: 'r' :: 'u' :: 'e' :: rest => some (bool true, rest)
      | 'f' :: 'a' :: 'l' :: 's' :: 'e' :: rest => some (bool false, rest)
      | '"' :: rest => (Spelling.scan rest).map fun (s, after) => (string s, after)
      | '[' :: rest =>
          match skipBlanks rest with
          | ']' :: after => some (array [], after)
          | rest => (readElements fuel rest).map fun (es, after) => (array es, after)
      | '\x7b' :: rest =>
          match skipBlanks rest with
          | '\x7d' :: after => some (object [], after)
          | rest => (readMembers fuel rest).map fun (ms, after) => (object ms, after)
      | text => (Literal.read text).map fun (n, after) => (number n, after)

def readElements : (fuel : Nat) → List Char → Option (List Json × List Char)
  | 0, _ => none
  | fuel + 1, text => do
      let (element, text) ← readValue fuel text
      match skipBlanks text with
      | ']' :: rest => pure ([element], rest)
      | ',' :: rest =>
          let (elements, rest) ← readElements fuel (skipBlanks rest)
          pure (element :: elements, rest)
      | _ => none

def readMembers : (fuel : Nat) → List Char → Option (List (List Char × Json) × List Char)
  | 0, _ => none
  | fuel + 1, text =>
      match text with
      | '"' :: rest => do
          let (name, text) ← Spelling.scan rest
          match skipBlanks text with
          | ':' :: rest =>
              let (value, text) ← readValue fuel (skipBlanks rest)
              match skipBlanks text with
              | '\x7d' :: rest => pure ([(name, value)], rest)
              | ',' :: rest =>
                  let (members, rest) ← readMembers fuel (skipBlanks rest)
                  pure ((name, value) :: members, rest)
              | _ => none
          | _ => none
      | _ => none

end

def read? (text : String) : Option Json := do
  let chars := text.toList
  let (value, rest) ← readValue (2 * chars.length + 1) (skipBlanks chars)
  match skipBlanks rest with
  | [] => pure value
  | _ => none

end TimeStepping.Json
