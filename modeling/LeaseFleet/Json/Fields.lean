import LeaseFleet.Decimal.Text
import LeaseFleet.Json.Value

/-!
# Decoding records

Readers from JSON values to the values of the domain. A record is an object; a field that the
record does not know is ignored, one that it knows may occur once. Some records may also be written
as the array of all their fields, in order.
-/

namespace LeaseFleet.Json

def asText? : Json → Option String
  | .string text => some text
  | _ => none

def asBool? : Json → Option Bool
  | .bool value => some value
  | _ => none

/-- A natural number below a limit, written as an integer. -/
def asBelow? (limit : Nat) : Json → Option Nat
  | .natural n => if n < limit then some n else none
  | _ => none

def asWord? (value : Json) : Option Nat := value.asBelow? Decimal.wordLimit

def asFloat? : Json → Option Float
  | .natural n => some n.toUInt64.toFloat
  | .negative n => some (-n.toUInt64.toFloat)
  | .real x => some x
  | _ => none

def asOption? {α : Type} (decode : Json → Option α) : Json → Option (Option α)
  | .null => some none
  | value => (decode value).map some

/-- A list, every item of which the reader accepts. -/
def asList? {α : Type} (decode : Json → Option α) : Json → Option (List α)
  | .array items => items.mapM decode
  | _ => none

def asObject? : Json → Option (List (String × Json))
  | .object fields => some fields
  | _ => none

/-- The fields of an object, or those of an array that has one value for each of the names. -/
def asRecord? (names : List String) : Json → Option (List (String × Json))
  | .object fields => some fields
  | .array values => if values.length = names.length then some (names.zip values) else none
  | _ => none

def valuesOf (name : String) (fields : List (String × Json)) : List Json :=
  (fields.filter (·.1 == name)).map (·.2)

def required {α : Type} (fields : List (String × Json)) (name : String)
    (decode : Json → Option α) : Option α :=
  match valuesOf name fields with
  | [value] => decode value
  | _ => none

/-- A field that has a default when it is missing. -/
def defaulted {α : Type} (fields : List (String × Json)) (name : String) (fallback : α)
    (decode : Json → Option α) : Option α :=
  match valuesOf name fields with
  | [] => some fallback
  | [value] => decode value
  | _ => none

/-- A field that may be missing or null. -/
def optional {α : Type} (fields : List (String × Json)) (name : String)
    (decode : Json → Option α) : Option (Option α) :=
  defaulted fields name none (asOption? decode)

end LeaseFleet.Json
