import LeaseFleet.Lease.Basic

/-!
# Leases in JSON

The record form of leases and of stream identifiers, in the order of their fields.
-/

namespace LeaseFleet

/-- The record form of a stream identifier. -/
def StreamIdentifier.toJson (stream : StreamIdentifier) : Json :=
  .object
    [("account_id", .ofText? stream.accountId),
     ("stream_name", .string stream.streamName),
     ("creation_epoch", .ofNat? stream.creationEpoch),
     ("region", .ofText? stream.region)]

/-- Reads the record form of a stream identifier. -/
def StreamIdentifier.ofJson? (json : Json) : Option StreamIdentifier := do
  let fields ← json.asRecord? ["account_id", "stream_name", "creation_epoch", "region"]
  let accountId ← Json.optional fields "account_id" Json.asText?
  let streamName ← Json.required fields "stream_name" Json.asText?
  let creationEpoch ← Json.optional fields "creation_epoch" Json.asWord?
  let region ← Json.optional fields "region" Json.asText?
  some { accountId, streamName, creationEpoch, region }

namespace Lease

def toJson (lease : Lease) : Json :=
  .object
    [("lease_key", .string lease.leaseKey),
     ("stream_identifier", .ofText? lease.stream),
     ("shard_id", .string lease.shardId),
     ("owner", .ofText? lease.owner),
     ("lease_counter", .natural lease.counter),
     ("checkpoint", lease.checkpoint.toJson),
     ("owner_switches_since_checkpoint", .natural lease.ownerSwitches),
     ("parent_shard_ids", .array (lease.parents.toList.map Json.string)),
     ("throughput_kbps", .ofFloat? lease.throughputKbps)]

def fieldNames : List String :=
  ["lease_key", "stream_identifier", "shard_id", "owner", "lease_counter", "checkpoint",
   "owner_switches_since_checkpoint", "parent_shard_ids", "throughput_kbps"]

def ofJson? (json : Json) : Option Lease := do
  let fields ← json.asRecord? fieldNames
  let leaseKey ← Json.required fields "lease_key" Json.asText?
  let stream ← Json.optional fields "stream_identifier" Json.asText?
  let shardId ← Json.required fields "shard_id" Json.asText?
  let owner ← Json.optional fields "owner" Json.asText?
  let counter ← Json.required fields "lease_counter" Json.asWord?
  let checkpoint ← Json.required fields "checkpoint" Checkpoint.ofJson?
  let ownerSwitches ← Json.required fields "owner_switches_since_checkpoint" Json.asWord?
  let parents ← Json.required fields "parent_shard_ids" (Json.asList? Json.asText?)
  let throughputKbps ← Json.optional fields "throughput_kbps" Json.asFloat?
  some
    { leaseKey, stream, shardId, owner, counter, checkpoint, ownerSwitches
      parents := SortedSet.ofList parents
      throughputKbps }

end Lease

end LeaseFleet
