import LeaseFleet.Lease.Checkpoint

/-!
# Initial positions

Where the consumption of a newly discovered shard starts.
-/

namespace LeaseFleet

/-- Where the consumption of a new shard starts. -/
inductive InitialPosition where
  | latest
  | trimHorizon
  /-- Milliseconds since the epoch. -/
  | atTimestamp (millis : Nat)
  deriving DecidableEq, Repr, Inhabited

namespace InitialPosition

def checkpoint : InitialPosition → Checkpoint
  | latest => .latest
  | trimHorizon => .trimHorizon
  | atTimestamp millis => .atTimestamp millis

/-- The JSON form: a word, or an object for a point in time. -/
def toJson : InitialPosition → Json
  | latest => .string "latest"
  | trimHorizon => .string "trim_horizon"
  | atTimestamp millis => .object [("at_timestamp", .natural millis)]

/-- Reads the JSON form; a word may also stand as the only field of an object, over null. -/
def ofJson? : Json → Option InitialPosition
  | .string "latest" => some latest
  | .string "trim_horizon" => some trimHorizon
  | .object [("latest", .null)] => some latest
  | .object [("trim_horizon", .null)] => some trimHorizon
  | .object [("at_timestamp", value)] => value.asWord?.map atTimestamp
  | _ => none

end InitialPosition

end LeaseFleet
