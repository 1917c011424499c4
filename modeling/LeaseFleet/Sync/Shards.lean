import LeaseFleet.Script.Retry

/-!
# Shard sync

Keeps the lease table in line with the shards that a stream lists: every listed shard has a
lease, and the lease of a shard that is consumed to its end goes when the stream no longer lists
the shard. A sync that is cut off has done a part of this work and is completed by the next one.
-/

namespace LeaseFleet

/-- How shards are synced. -/
structure ShardSync where
  /-- Whether leases carry the stream they belong to. -/
  multi : Bool
  retry : RetryPolicy
  deriving DecidableEq, Repr

/-- How many leases a sync has created and deleted. -/
structure SyncReport where
  created : Nat := 0
  deleted : Nat := 0
  deriving DecidableEq, Repr

namespace ShardSync

/-- The stream that the leases of a stream carry. -/
def leaseStream (sync : ShardSync) (stream : StreamIdentifier) : Option StreamIdentifier :=
  if sync.multi then some stream else none

def covers (sync : ShardSync) (stream : StreamIdentifier) (lease : Lease) : Bool :=
  lease.stream = (sync.leaseStream stream).map StreamIdentifier.serialize

/-- Whether a shard is among the listed ones. -/
def isListed (listed : List ShardDescription) (shardId : String) : Bool :=
  listed.any (·.shardId == shardId)

def isLeased (existing : List Lease) (shardId : String) : Bool :=
  existing.any (·.shardId == shardId)

/-- Where a new shard starts: at its beginning if a parent of it is still known, so that nothing
written after a split is skipped, and otherwise at the initial position of the stream. -/
def startingCheckpoint (config : StreamConfig) (listed : List ShardDescription)
    (existing : List Lease) (shard : ShardDescription) : Checkpoint :=
  if shard.parents.any fun parent => isLeased existing parent || isListed listed parent then
    .trimHorizon
  else config.position.checkpoint

def newLease (sync : ShardSync) (config : StreamConfig) (listed : List ShardDescription)
    (existing : List Lease) (shard : ShardDescription) : Lease :=
  (Lease.ofShard (sync.leaseStream config.stream) shard.shardId
    (startingCheckpoint config listed existing shard)).withParents shard.parents

/-- The leases that a sync wants to create, in the order of the listing. -/
def missingLeases (sync : ShardSync) (config : StreamConfig) (listed : List ShardDescription)
    (existing : List Lease) : List Lease :=
  (listed.filter fun shard => !isLeased existing shard.shardId).map
    (sync.newLease config listed existing)

/-- The leases that a sync deletes: of shards that are consumed to their end and not listed. -/
def finishedLeases (listed : List ShardDescription) (existing : List Lease) : List Lease :=
  existing.filter fun lease => lease.isShardEnd && !isListed listed lease.shardId

variable {σ Job : Type}

def streamLeases (sync : ShardSync) (stopped : σ → Bool) (stream : StreamIdentifier) :
    Script σ Job (Except WorkerError (List Lease)) := do
  match ← sync.retry.store stopped .list with
  | .ok leases => return .ok (leases.filter (sync.covers stream))
  | .error error => return .error error

/-- Creates leases one after another and counts those that were not there yet; the first failure
ends it. -/
def createLeases (sync : ShardSync) (stopped : σ → Bool) :
    List Lease → Nat → Script σ Job (Except WorkerError Nat)
  | [], created => return .ok created
  | lease :: rest, created => do
    match ← sync.retry.store stopped (.create lease) with
    | .ok isNew => sync.createLeases stopped rest (if isNew then created + 1 else created)
    | .error error => return .error error

/-- Deletes leases one after another; the first failure ends it. -/
def deleteLeases (sync : ShardSync) (stopped : σ → Bool) :
    List Lease → Script σ Job (Except WorkerError Unit)
  | [] => return .ok ()
  | lease :: rest => do
    match ← sync.retry.store stopped (.delete lease.leaseKey) with
    | .ok _ => sync.deleteLeases stopped rest
    | .error error => return .error error

def syncStream (sync : ShardSync) (stopped : σ → Bool) (config : StreamConfig) :
    Script σ Job (Except WorkerError SyncReport) := do
  match ← Script.query (.shards config) with
  | .error reason => return .error (.shardDiscovery config.stream.serialize reason)
  | .ok listed =>
    match ← sync.streamLeases stopped config.stream with
    | .error error => return .error error
    | .ok existing =>
      match ← sync.createLeases stopped (sync.missingLeases config listed existing) 0 with
      | .error error => return .error error
      | .ok created =>
        let finished := finishedLeases listed existing
        match ← sync.deleteLeases stopped finished with
        | .error error => return .error error
        | .ok () =>
          Script.count .leasesCreated created
          Script.count .leasesDeleted finished.length
          return .ok { created, deleted := finished.length }

/-- Deletes every lease of a stream and counts them. -/
def deleteStreamLeases (sync : ShardSync) (stopped : σ → Bool) (stream : StreamIdentifier) :
    Script σ Job (Except WorkerError Nat) := do
  match ← sync.streamLeases stopped stream with
  | .error error => return .error error
  | .ok leases =>
    match ← sync.deleteLeases stopped leases with
    | .error error => return .error error
    | .ok () =>
      Script.count .leasesDeleted leases.length
      return .ok leases.length

end ShardSync

end LeaseFleet
