import LeaseFleet.Lease.Basic
import LeaseFleet.Lease.Token

/-!
# Assigned shards

A shard that a worker holds, as the consumers see it. A shard that is held under another token is
another one: it gets a consumer of its own.
-/

namespace LeaseFleet

/-- What tells the consumers of a worker apart. -/
structure ShardKey where
  stream : Option String
  shardId : String
  token : Token
  deriving DecidableEq, Repr

namespace ShardKey

/-- Keys are ordered by stream, shard and token. -/
instance : Ord ShardKey where
  compare := compareLex (compareOn stream) (compareLex (compareOn shardId) (compareOn token))

instance : Std.TransOrd ShardKey :=
  inferInstanceAs (Std.TransCmp (compareLex (compareOn stream) (compareLex (compareOn shardId)
    (compareOn token))))

instance : Std.LawfulEqOrd ShardKey where
  eq_of_compare {left right} h := by
    simp only [compare, compareLex_eq_eq] at h
    obtain ⟨stream, shard, token⟩ := h
    cases left
    cases right
    simp only [mk.injEq]
    exact ⟨Std.LawfulEqCmp.eq_of_compare stream, Std.LawfulEqCmp.eq_of_compare shard,
      Std.LawfulEqCmp.eq_of_compare token⟩

end ShardKey

/-- A shard that a worker holds. -/
structure AssignedShard where
  leaseKey : String
  stream : Option String
  shardId : String
  token : Token
  parentLeaseKeys : List String
  /-- Where consumption starts; it does not tell shards apart. -/
  checkpoint : Checkpoint
  deriving DecidableEq, Repr

namespace AssignedShard

/-- The shard of a lease that is held under a token. -/
def ofLease (lease : Lease) (token : Token) : AssignedShard :=
  { leaseKey := lease.leaseKey
    stream := lease.stream
    shardId := lease.shardId
    token
    parentLeaseKeys := lease.parentLeaseKeys
    checkpoint := lease.checkpoint }

def key (shard : AssignedShard) : ShardKey :=
  { stream := shard.stream, shardId := shard.shardId, token := shard.token }

/-- The first parent that is known and has not been consumed to its end. -/
def unfinishedParent (shard : AssignedShard) (table : SortedMap String Lease) : Option String :=
  shard.parentLeaseKeys.find? fun key =>
    match table.get? key with
    | some parent => !parent.isShardEnd
    | none => false

end AssignedShard

end LeaseFleet
