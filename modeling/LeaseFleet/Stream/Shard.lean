import LeaseFleet.Stream.Config

/-!
# Shards

The shards that a stream lists. A stream with a fixed number of shards numbers them from zero.
-/

namespace LeaseFleet

/-- A shard as its stream lists it. -/
structure ShardDescription where
  shardId : String
  /-- The shards that it was split or merged from. -/
  parents : List String := []
  deriving DecidableEq, Repr

/-- The name of a numbered shard; the number has at least twelve digits. -/
def shardName (index : Nat) : String :=
  let digits := Nat.toDigits 10 index
  "shardId-" ++ String.ofList (List.replicate (12 - digits.length) '0' ++ digits)

/-- The shards of a stream with the given number of them. -/
def numberedShards (count : Nat) : List ShardDescription :=
  (List.range count).map fun index => { shardId := shardName index }

end LeaseFleet
