import LeaseFleet.Json.Fields

/-!
# Checkpoints

The last durably processed position of a shard, and its JSON form: an object with the kind under
`type` and, for the two kinds that carry one, the position under `value`. An array of the kind and the
position is read too.
-/

namespace LeaseFleet

/-- The last durably processed position of a shard. -/
inductive Checkpoint where
  | trimHorizon
  | latest
  /-- Milliseconds since the epoch. -/
  | atTimestamp (millis : Nat)
  | sequence (number : String)
  /-- The shard has been consumed to its end; its children may start. -/
  | shardEnd
  deriving DecidableEq, Repr

namespace Checkpoint

/-- Whether the shard has been consumed to its end. -/
def isShardEnd : Checkpoint → Bool
  | shardEnd => true
  | _ => false

def toJson : Checkpoint → Json
  | trimHorizon => .object [("type", .string "trim_horizon")]
  | latest => .object [("type", .string "latest")]
  | atTimestamp millis => .object [("type", .string "at_timestamp"), ("value", .natural millis)]
  | sequence number => .object [("type", .string "sequence"), ("value", .string number)]
  | shardEnd => .object [("type", .string "shard_end")]

/-- A kind without a position tolerates a null in its place. -/
def bare (checkpoint : Checkpoint) : List Json → Option Checkpoint
  | [] => some checkpoint
  | [.null] => some checkpoint
  | _ => none

def ofJson? (json : Json) : Option Checkpoint := do
  let fields ← json.asRecord? ["type", "value"]
  let kind ← Json.required fields "type" Json.asText?
  let values := Json.valuesOf "value" fields
  match kind with
  | "trim_horizon" => bare trimHorizon values
  | "latest" => bare latest values
  | "shard_end" => bare shardEnd values
  | "at_timestamp" => (Json.required fields "value" Json.asWord?).map atTimestamp
  | "sequence" => (Json.required fields "value" Json.asText?).map sequence
  | _ => none

end Checkpoint

end LeaseFleet
