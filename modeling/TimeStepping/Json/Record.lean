import TimeStepping.Json.Number
import TimeStepping.Json.Spelling

/-!
# Records in JSON

A record is written as an object.  It is read from an object, where unknown
members are skipped and no member of the record may be repeated, or from an
array of its fields in order, where fields at the end may be missing.
-/

namespace TimeStepping.Json

def putField (value : Json) : (position : Nat) → List (Option Json) → Option (List (Option Json))
  | _, [] => none
  | 0, none :: slots => some (some value :: slots)
  | 0, some _ :: _ => none
  | position + 1, slot :: slots => (putField value position slots).map (slot :: ·)

/-- Put every member whose name is the name of a field into the slot of that field. -/
def putMembers (names : List String) :
    List (List Char × Json) → List (Option Json) → Option (List (Option Json))
  | [], slots => some slots
  | (spelling, value) :: members, slots => do
      let name := String.ofList (← Spelling.decode spelling)
      match names.idxOf? name with
      | none => putMembers names members slots
      | some position => putMembers names members (← putField value position slots)

/-- The fields of a record with the given names, in order, where they are present. -/
def fields? (names : List String) : Json → Option (List (Option Json))
  | object members => putMembers names members (List.replicate names.length none)
  | array elements =>
      if elements.length ≤ names.length then
        some (elements.map some ++ List.replicate (names.length - elements.length) none)
      else none
  | _ => none

def fieldOr {β : Type} (read : Json → Option β) (default : β) : Option Json → Option β
  | some value => read value
  | none => some default

def scalar? {α : Type} [JsonNumber α] : Json → Option α
  | number literal => JsonNumber.read literal
  | _ => none

def bool? : Json → Option Bool
  | bool value => some value
  | _ => none

def count? : Json → Option Nat
  | number literal => Number.toNat? Number.wordLimit literal
  | _ => none

def ofScalar {α : Type} [JsonNumber α] (x : α) : Json :=
  match JsonNumber.write x with
  | some literal => number literal
  | none => null

def ofFields (fields : List (String × Json)) : Json :=
  object (fields.map fun field => (field.1.toList, field.2))

end TimeStepping.Json
