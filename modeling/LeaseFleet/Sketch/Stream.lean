import LeaseFleet.Json.Sketch
import LeaseFleet.Lease.Json
import LeaseFleet.Stream.Deletion
import LeaseFleet.Stream.Shard

/-!
# Sketches of streams

Streams, where to start on them, what they list, and what becomes of them.
-/

namespace LeaseFleet

/-- A stream: the text of a multi-stream identifier, the text of a single-stream one under
`single`, or a record under `raw`. -/
def StreamIdentifier.ofSketch? : Json → Option StreamIdentifier
  | .string text => (ofMulti text).toOption
  | sketch =>
    match sketch.field "single" with
    | .string text => (ofSingle text).toOption
    | _ => ofJson? (sketch.field "raw")

/-- A stream to consume, by default from its end. -/
def StreamConfig.ofSketch? (sketch : Json) : Option StreamConfig := do
  let stream ← StreamIdentifier.ofSketch? (sketch.field "stream")
  let position ← sketch.orElse "position" .latest InitialPosition.ofJson?
  let arn ← sketch.maybe "arn" Json.asText?
  return arn.elim (ofStream stream position) (ofStream stream position).withArn

/-- What becomes of former streams; by default nothing. -/
def DeletionStrategy.ofSketch? : Json → Option DeletionStrategy
  | .null => some keep
  | sketch => do
    let wait ← sketch.nat "wait_ms"
    match ← sketch.text "type" with
    | "none" => return keep
    | "auto" => return afterAbsence wait
    | "list" =>
      return named (← sketch.maybe "streams" (Json.asList? StreamIdentifier.ofSketch?)) wait
    | _ => none

/-- A shard: its id, or its id and its parents. -/
def ShardDescription.ofSketch? : Json → Option ShardDescription
  | .string shardId => some { shardId }
  | sketch => do
    return { shardId := ← sketch.text "id", parents := ← sketch.list "parents" Json.asText? }

/-- What a stream lists: shards, or why it lists none. -/
def ShardDescription.listingOfSketch? : Json → Option (Except String (List ShardDescription))
  | .array shards => (shards.mapM ofSketch?).map .ok
  | sketch => do return .error (← sketch.text "error")

end LeaseFleet
