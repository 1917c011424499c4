import LeaseFleet.Json.Value

/-!
# Parts of views

A view is a JSON form of a value for inspection. It loses nothing: a double is shown by the
sixteen hexadecimal digits of its bits.
-/

namespace LeaseFleet.Json

/-- The last so many hexadecimal digits of a number. -/
def hexDigits : (count : Nat) → Nat → List Char
  | 0, _ => []
  | count + 1, n => hexDigits count (n / 16) ++ [Nat.digitChar (n % 16)]

/-- A double by its bits; all NaN look alike. -/
def ofBits (x : Float) : Json :=
  string (if x.isNaN then "nan" else String.ofList (hexDigits 16 x.toBits.toNat))

def ofTexts (list : List String) : Json := array (list.map string)

def ofList {α : Type} (view : α → Json) (values : List α) : Json := array (values.map view)

/-- A value that may be missing. -/
def orNull {α : Type} (view : α → Json) : Option α → Json
  | none => null
  | some value => view value

def ofExcept {ε α : Type} (failed : ε → Json) (view : α → Json) : Except ε α → Json
  | .ok value => view value
  | .error error => failed error

def invalid (message : String) : Json :=
  object [("error", string "Invalid"), ("message", string message)]

/-- An error with its kind, its wording, and whether another attempt may succeed. -/
def failure (kind message : String) (retryable : Bool) : Json :=
  object [("error", string kind), ("message", string message), ("retryable", bool retryable)]

end LeaseFleet.Json
