import TimeStepping.Json.Syntax

/-!
# Writing JSON

Two layouts: without any blank, and with one member or element a line, indented
by two spaces a level.
-/

namespace TimeStepping.Json

def Literal.spelled (n : Literal) : List Char :=
  let sign := if n.negative then ['-'] else []
  let fraction := if n.fraction.isEmpty then [] else '.' :: n.fraction
  let exponent :=
    match n.exponent with
    | none => []
    | some (none, digits) => 'e' :: digits
    | some (some negative, digits) => 'e' :: (if negative then '-' else '+') :: digits
  sign ++ n.whole ++ fraction ++ exponent

def quoted (spelling : List Char) : List Char :=
  '"' :: spelling ++ ['"']

def lineEnd (level : Nat) : List Char :=
  '\n' :: List.replicate (2 * level) ' '

mutual

def compactChars : Json → List Char
  | null => "null".toList
  | bool b => (if b then "true" else "false").toList
  | number n => n.spelled
  | string s => quoted s
  | array es => '[' :: compactElements es ++ [']']
  | object ms => '\x7b' :: compactMembers ms ++ ['\x7d']

def compactElements : List Json → List Char
  | [] => []
  | [e] => compactChars e
  | e :: es => compactChars e ++ ',' :: compactElements es

def compactMembers : List (List Char × Json) → List Char
  | [] => []
  | [(k, v)] => quoted k ++ ':' :: compactChars v
  | (k, v) :: ms => quoted k ++ ':' :: compactChars v ++ ',' :: compactMembers ms

end

mutual

def prettyChars (level : Nat) : Json → List Char
  | null => "null".toList
  | bool b => (if b then "true" else "false").toList
  | number n => n.spelled
  | string s => quoted s
  | array [] => ['[', ']']
  | array es => '[' :: prettyElements (level + 1) es ++ lineEnd level ++ [']']
  | object [] => ['\x7b', '\x7d']
  | object ms => '\x7b' :: prettyMembers (level + 1) ms ++ lineEnd level ++ ['\x7d']

def prettyElements (level : Nat) : List Json → List Char
  | [] => []
  | [e] => lineEnd level ++ prettyChars level e
  | e :: es => lineEnd level ++ prettyChars level e ++ ',' :: prettyElements level es

def prettyMembers (level : Nat) : List (List Char × Json) → List Char
  | [] => []
  | [(k, v)] => lineEnd level ++ quoted k ++ ':' :: ' ' :: prettyChars level v
  | (k, v) :: ms =>
      lineEnd level ++ quoted k ++ ':' :: ' ' :: prettyChars level v ++ ',' ::
        prettyMembers level ms

end

def compact (value : Json) : String :=
  String.ofList value.compactChars

def pretty (value : Json) : String :=
  String.ofList (value.prettyChars 0)

end TimeStepping.Json
