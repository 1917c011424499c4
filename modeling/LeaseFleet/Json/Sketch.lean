import LeaseFleet.Json.Fields

/-!
# Reading sketches

A sketch is a short JSON form of a value, for describing a scenario by hand. A field that is
missing or null takes its default, and a double may also be one of the words `nan`, `inf` and
`-inf`.
-/

namespace LeaseFleet.Json

/-- A field; a missing one reads as null. -/
def field (sketch : Json) (name : String) : Json :=
  match sketch with
  | object fields => ((fields.find? (·.1 == name)).map (·.2)).getD null
  | _ => null

/-- A field that has a default. -/
def orElse {α : Type} (sketch : Json) (name : String) (fallback : α)
    (decode : Json → Option α) : Option α :=
  match sketch.field name with
  | null => some fallback
  | given => decode given

/-- A field without a default. -/
def maybe {α : Type} (sketch : Json) (name : String) (decode : Json → Option α) :
    Option (Option α) :=
  (sketch.field name).asOption? decode

/-- A text, empty by default. -/
def text (sketch : Json) (name : String) : Option String := sketch.orElse name "" asText?

/-- A natural number, zero by default. -/
def nat (sketch : Json) (name : String) : Option Nat := sketch.orElse name 0 asWord?

/-- A truth value, false by default. -/
def flag (sketch : Json) (name : String) : Option Bool := sketch.orElse name false asBool?

/-- A list, empty by default. -/
def list {α : Type} (sketch : Json) (name : String) (decode : Json → Option α) :
    Option (List α) :=
  sketch.orElse name [] (asList? decode)

/-- A double, or one of the words for the doubles that no JSON number stands for. -/
def asAnyFloat? : Json → Option Float
  | string "nan" => some (0.0 / 0.0)
  | string "inf" => some (1.0 / 0.0)
  | string "-inf" => some (-1.0 / 0.0)
  | value => value.asFloat?

/-- A double, zero by default. -/
def float (sketch : Json) (name : String) : Option Float := sketch.orElse name 0.0 asAnyFloat?

end LeaseFleet.Json
