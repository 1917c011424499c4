import LeaseFleet.SortedMap
import LeaseFleet.Lease.Checkpoint
import LeaseFleet.Stream.Identifier

/-!
# Leases

A lease is the claim of one worker on one shard, as the shared table holds it. Its counter is
the fence of every conditional write; its key carries the stream in front of the shard, so that
shards of the same name in different streams never meet. The counter and the number of switches of
owner have no bound here: how far they are counted is up to the store that keeps them (`Capacity`).
-/

namespace LeaseFleet

def leaseKeyFor (stream : Option StreamIdentifier) (shardId : String) : String :=
  match stream with
  | some stream => stream.serialize ++ ":" ++ shardId
  | none => shardId

/-- The claim on one shard. -/
structure Lease where
  leaseKey : String
  /-- The serialized stream, in multi-stream mode. -/
  stream : Option String := none
  shardId : String
  owner : Option String := none
  /-- Raised by every successful conditional write. -/
  counter : Nat := 0
  checkpoint : Checkpoint := .trimHorizon
  /-- How often the owner changed since the last checkpoint. -/
  ownerSwitches : Nat := 0
  parents : SortedSet String := .empty
  throughputKbps : Option Float := none
  deriving DecidableEq

namespace Lease

/-- The lease of a shard that nobody owns yet. -/
def ofShard (stream : Option StreamIdentifier) (shardId : String) (checkpoint : Checkpoint) :
    Lease :=
  { leaseKey := leaseKeyFor stream shardId
    stream := stream.map StreamIdentifier.serialize
    shardId
    checkpoint }

/-- The same lease with the given parent shards. -/
def withParents (lease : Lease) (parents : List String) : Lease :=
  { lease with parents := SortedSet.ofList parents }

def withOwner (lease : Lease) (owner : String) : Lease := { lease with owner := some owner }

/-- The same lease with the given throughput. -/
def withThroughput (lease : Lease) (kbps : Float) : Lease :=
  { lease with throughputKbps := some kbps }

def isUnowned (lease : Lease) : Bool := lease.owner.isNone

/-- Whether the given worker holds the lease. -/
def isOwnedBy (lease : Lease) (worker : String) : Bool := lease.owner = some worker

/-- Whether the shard has been consumed to its end. -/
def isShardEnd (lease : Lease) : Bool := lease.checkpoint.isShardEnd

/-- The lease keys of the parent shards, in the keyspace of this lease. -/
def parentLeaseKeys (lease : Lease) : List String :=
  lease.parents.toList.map fun parent =>
    match lease.stream with
    | some stream => stream ++ ":" ++ parent
    | none => parent

/-- The lease in other hands; a change of owner is counted. -/
def transferredTo (lease : Lease) (owner : Option String) : Lease :=
  { lease with
    owner
    ownerSwitches := if lease.owner = owner then lease.ownerSwitches else lease.ownerSwitches + 1 }

end Lease

/-- What became of a conditional write. -/
inductive UpdateOutcome where
  /-- The write was applied; the lease is the stored one, with its new counter. -/
  | updated (stored : Lease)
  /-- The stored counter was not the expected one. -/
  | versionConflict
  | notFound
  deriving DecidableEq

def UpdateOutcome.isUpdated : UpdateOutcome → Bool
  | .updated _ => true
  | _ => false

end LeaseFleet
