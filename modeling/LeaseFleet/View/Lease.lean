import LeaseFleet.Json.View
import LeaseFleet.Lease.Json
import LeaseFleet.Store.Table
import LeaseFleet.Stream.Deletion
import LeaseFleet.Stream.Shard

/-!
# Views of streams and leases
-/

namespace LeaseFleet

def StreamIdentifier.facts (stream : StreamIdentifier) : List (String × Json) :=
  [("account_id", .ofText? stream.accountId),
   ("stream_name", .string stream.streamName),
   ("creation_epoch", .ofNat? stream.creationEpoch),
   ("region", .ofText? stream.region),
   ("is_multi_stream", .bool stream.isMultiStream),
   ("serialize", .string stream.serialize),
   ("display", .string stream.serialize),
   ("arn", .ofText? stream.arn?)]

/-- A list of streams by their serialized identifiers. -/
def StreamIdentifier.viewList (streams : List StreamIdentifier) : Json :=
  .ofTexts (streams.map serialize)

def StreamConfig.view (config : StreamConfig) : Json :=
  .object
    [("stream", .string config.stream.serialize), ("position", config.position.toJson),
     ("arn", .ofText? config.arn)]

def DeletionStrategy.kind : DeletionStrategy → String
  | keep => "none"
  | afterAbsence _ => "auto"
  | named _ _ => "list"

def DeletionStrategy.view (strategy : DeletionStrategy) : Json :=
  let streams := match strategy with
    | named streams _ => [("streams", Json.orNull StreamIdentifier.viewList streams)]
    | _ => []
  .object ([("type", .string strategy.kind), ("wait_ms", .ofNat? strategy.waitPeriod?)] ++ streams)

def ShardDescription.view (shard : ShardDescription) : Json :=
  .array [.string shard.shardId, .ofTexts shard.parents]

def StoreError.kind : StoreError → String
  | transient _ => "Transient"
  | invalidArguments _ => "InvalidArguments"
  | invalidStream _ => "InvalidStreamIdentifier"
  | serialization => "SerializationError"
  | unknown _ => "Unknown"

/-- A store error; what a text that is no table says is left out. -/
def StoreError.view : StoreError → Json
  | serialization =>
    .object [("error", .string serialization.kind), ("retryable", .bool serialization.isRetryable)]
  | error => .failure error.kind error.message error.isRetryable

def Lease.view (lease : Lease) : Json :=
  .object
    [("lease_key", .string lease.leaseKey),
     ("stream_identifier", .ofText? lease.stream),
     ("shard_id", .string lease.shardId),
     ("owner", .ofText? lease.owner),
     ("lease_counter", .natural lease.counter),
     ("checkpoint", lease.checkpoint.toJson),
     ("owner_switches_since_checkpoint", .natural lease.ownerSwitches),
     ("parent_shard_ids", .ofTexts lease.parents.toList),
     ("throughput_kbps", .orNull .ofBits lease.throughputKbps)]

def Lease.row (lease : Lease) : Json :=
  .array
    [.string lease.leaseKey, .ofText? lease.owner, .natural lease.counter,
     .natural lease.ownerSwitches, lease.checkpoint.toJson]

def Lease.facts (lease : Lease) : List (String × Json) :=
  [("lease", lease.view), ("is_unowned", .bool lease.isUnowned),
   ("is_shard_end", .bool lease.isShardEnd),
   ("parent_lease_keys", .ofTexts lease.parentLeaseKeys)]

def LeaseTable.view (table : LeaseTable) : Json := .ofList Lease.row table.leases

def UpdateOutcome.name : UpdateOutcome → String
  | updated _ => "updated"
  | versionConflict => "version_conflict"
  | notFound => "not_found"

def UpdateOutcome.view (outcome : UpdateOutcome) : Json :=
  let lease := match outcome with
    | updated stored => [("lease", stored.view)]
    | _ => []
  .object
    ([("outcome", .string outcome.name), ("is_updated", .bool outcome.isUpdated)] ++ lease)

end LeaseFleet
