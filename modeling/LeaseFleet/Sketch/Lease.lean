import LeaseFleet.Json.Sketch
import LeaseFleet.Lease.Basic
import LeaseFleet.Script.Retry

/-!
# Sketches of leases and of failures
-/

namespace LeaseFleet

/-- A lease. Its shard is by default the lease key, and its lease key by default the one under
which the lease of the shard is created. -/
def Lease.ofSketch? (sketch : Json) : Option Lease := do
  let stream ← sketch.maybe "stream_identifier" Json.asText?
  let key ← sketch.maybe "lease_key" Json.asText?
  let shardId ← sketch.orElse "shard_id" (key.getD "") Json.asText?
  return {
    leaseKey := key.getD (stream.elim shardId fun stream => stream ++ ":" ++ shardId)
    stream
    shardId
    owner := ← sketch.maybe "owner" Json.asText?
    counter := ← sketch.nat "lease_counter"
    checkpoint := ← sketch.orElse "checkpoint" .trimHorizon Checkpoint.ofJson?
    ownerSwitches := ← sketch.nat "owner_switches_since_checkpoint"
    parents := SortedSet.ofList (← sketch.list "parent_shard_ids" Json.asText?)
    throughputKbps := ← sketch.maybe "throughput_kbps" Json.asAnyFloat? }

/-- What an injected failure says unless told otherwise. -/
def injectedReason : String := "injected"

def StoreError.ofKind? (kind reason : String) : Option StoreError :=
  match kind with
  | "transient" => some (transient reason)
  | "invalid" => some (invalidArguments reason)
  | "stream" => some (invalidStream reason)
  | "unknown" => some (unknown reason)
  | _ => none

def StoreError.ofSketch? (sketch : Json) : Option StoreError := do
  ofKind? (← sketch.text "kind") (← sketch.orElse "message" injectedReason Json.asText?)

def WorkerError.ofSketch? (sketch : Json) : Option WorkerError := do
  let message ← sketch.text "message"
  match ← sketch.text "variant" with
  | "store" => return store (← StoreError.ofSketch? sketch)
  | "initialization" => return initialization (← sketch.nat "attempts") message
  | "configuration" => return configuration message
  | "shard_discovery" => return shardDiscovery (← sketch.text "stream") message
  | "task_rejected" => return taskRejected (← sketch.text "executor") message
  | "shutting_down" => return shuttingDown
  | "invalid_state" => return invalidState "initialize" message
  | _ => none

def RetryPolicy.ofSketch? : Json → Option RetryPolicy
  | .null => some standard
  | sketch => do
    return ofLimits (← sketch.nat "max_attempts") (← sketch.nat "base_ms") (← sketch.nat "max_ms")

end LeaseFleet
