/-!
# JSON values

The values that descriptions and configurations are exchanged as.  Integers are kept apart from
other numbers: a number counts as an integer only if it is written as one and fits a machine word,
so `1.0`, `1e0` and `-0` are not integers.
-/

namespace EntityQuery

/-- A JSON value.  Numbers that are not integers carry no value, because nothing accepts them. -/
inductive Json where
  | null
  | bool (value : Bool)
  | integer (value : Int)
  | fraction
  | text (value : String)
  | array (items : List Json)
  | object (fields : List (String × Json))
deriving Inhabited

namespace Json

/-- The number that a nonempty list of decimal digits writes. -/
def natOfDigits? (digits : List Char) : Option Nat :=
  if digits ≠ [] ∧ digits.all Char.isDigit then
    some (digits.foldl (fun value digit => value * 10 + (digit.toNat - '0'.toNat)) 0)
  else
    none

def ofNumeral (numeral : String) : Json :=
  match numeral.toList with
  | '-' :: digits =>
      match natOfDigits? digits with
      | some value => if 0 < value ∧ value ≤ UInt64.size / 2 then .integer (-value) else .fraction
      | none => .fraction
  | digits =>
      match natOfDigits? digits with
      | some value => if value < UInt64.size then .integer value else .fraction
      | none => .fraction

/-- The natural number below a bound that a value is. -/
def natBelow? (limit : Nat) : Json → Option Nat
  | .integer (.ofNat value) => if value < limit then some value else none
  | _ => none

def byte? (value : Json) : Option UInt8 :=
  (value.natBelow? UInt8.size).map UInt8.ofNat

def word32? (value : Json) : Option UInt32 :=
  (value.natBelow? UInt32.size).map UInt32.ofNat

def word64? (value : Json) : Option UInt64 :=
  (value.natBelow? UInt64.size).map UInt64.ofNat

def bool? : Json → Option Bool
  | .bool value => some value
  | _ => none

/-- The field of a name; a name that is written twice has its last value. -/
def fieldIn? (name : String) (fields : List (String × Json)) : Option Json :=
  (fields.reverse.find? fun field => field.1 == name).map Prod.snd

def ofNat (value : Nat) : Json := .integer value

end Json

end EntityQuery
