/-!
# JSON values

Values of the JSON grammar.  Numbers and strings are kept as they are spelled,
so that what a spelling means is decided by whoever reads the value.
-/

namespace TimeStepping

/-- The spelling of a number: its sign, the digits before and behind the point,
and the exponent with the sign it is written with. -/
structure Json.Literal where
  negative : Bool
  whole : List Char
  fraction : List Char
  exponent : Option (Option Bool × List Char)
  deriving DecidableEq

/-- A JSON value.  Strings and the names of members are spelled as between the
quotes. -/
inductive Json where
  | null
  | bool (value : Bool)
  | number (literal : Json.Literal)
  | string (spelling : List Char)
  | array (elements : List Json)
  | object (members : List (List Char × Json))

namespace Json

def text (s : String) : Json :=
  string s.toList

end Json

end TimeStepping
