/-!
# JSON values

Numbers keep the kind in which they were written: a natural number of one 64-bit word, a
negative integer, or a double. The fields of an object stay in order, repeated names included.
-/

namespace LeaseFleet

/-- A JSON value. -/
inductive Json where
  | null
  | bool (value : Bool)
  | natural (value : Nat)
  /-- Minus the given magnitude. -/
  | negative (magnitude : Nat)
  | real (value : Float)
  | string (text : String)
  | array (items : List Json)
  | object (fields : List (String × Json))
  deriving Inhabited

namespace Json

def ofText? : Option String → Json
  | none => .null
  | some text => .string text

def ofNat? : Option Nat → Json
  | none => .null
  | some n => .natural n

/-- A double; JSON has no infinity and no NaN, which are written as null. -/
def ofFloat (x : Float) : Json := if x.isFinite then .real x else .null

def ofFloat? : Option Float → Json
  | none => .null
  | some x => ofFloat x

mutual

/-- Removes all but the last of the fields that share a name, inside nested values too. -/
def lastWins : Json → Json
  | .array items => .array (lastWinsItems items)
  | .object fields => .object (lastWinsFields fields)
  | value => value

/-- The items of an array, each with its last fields only. -/
def lastWinsItems : List Json → List Json
  | [] => []
  | item :: rest => lastWins item :: lastWinsItems rest

/-- The fields of an object, the last of each name. -/
def lastWinsFields : List (String × Json) → List (String × Json)
  | [] => []
  | (name, value) :: rest =>
    let later := lastWinsFields rest
    if later.any (·.1 == name) then later else (name, lastWins value) :: later

end

end Json

end LeaseFleet
