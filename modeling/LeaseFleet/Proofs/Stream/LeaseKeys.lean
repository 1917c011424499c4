import LeaseFleet.Proofs.Stream.RoundTrips
import LeaseFleet.Proofs.Sync.ShardSync

/-!
# Keys of leases

A lease key is the serialization of the stream, a colon and the shard. Streams that were read with
their account have different serializations (`serialize_injective`), so the leases of one stream never
meet those of another one. A shard without a colon is what follows the last colon of the key. The keys
that a lease gives for its parents are those under which the leases of the parents are created
(`lease_keys_apart`).
-/

namespace LeaseFleet

namespace StreamIdentifier

variable {text text' : String} {stream stream' : StreamIdentifier}

/-- Streams that were read with their account are serialized differently. -/
theorem serialize_injective (read : ofMulti text = .ok stream) (read' : ofMulti text' = .ok stream')
    (same : stream.serialize = stream'.serialize) : stream = stream' := by
  by_cases known : stream.HasOrigin
  · have again := same ▸ ofMulti_serialize read known
    by_cases known' : stream'.HasOrigin
    · exact Except.ok.inj (again.symm.trans (ofMulti_serialize read' known'))
    · exact absurd again (not_read_serialize read' known')
  · by_cases known' : stream'.HasOrigin
    · exact absurd (same ▸ ofMulti_serialize read' known') (not_read_serialize read known)
    · obtain ⟨account, name, numbered, written, rfl⟩ := eq_of_not_hasOrigin read known
      obtain ⟨account', name', numbered', written', rfl⟩ := eq_of_not_hasOrigin read' known'
      have chars : arnChars "aws".toList "".toList account.toList name.toList =
          arnChars "aws".toList "".toList account'.toList name'.toList := by
        rw [← toList_arnText, ← toList_arnText, ← written, ← written', same]
      have lacks : ':' ∉ "aws".toList ∧ ':' ∉ "".toList := by simp
      obtain ⟨-, sameAccount, sameName⟩ := arn_unique chars lacks.1 lacks.1 lacks.2 lacks.2
        (Decimal.colon_not_mem numbered) (Decimal.colon_not_mem numbered')
      rw [String.toList_inj.1 sameAccount, String.toList_inj.1 sameName]

end StreamIdentifier

/-- A key whose shard has no colon is cut at its last colon. -/
theorem key_cut {stream stream' shardId shardId' : String}
    (same : stream ++ ":" ++ shardId = stream' ++ ":" ++ shardId')
    (whole : ':' ∉ shardId.toList) (whole' : ':' ∉ shardId'.toList) : stream = stream' ∧ shardId = shardId' := by
  have reversed : shardId.toList.reverse ++ ':' :: stream.toList.reverse =
      shardId'.toList.reverse ++ ':' :: stream'.toList.reverse := by
    simpa using congrArg (fun key => key.toList.reverse) same
  obtain ⟨sameShard, sameStream⟩ := StreamIdentifier.cut_unique reversed (by simpa) (by simpa)
  exact ⟨String.toList_inj.1 (List.reverse_inj.1 sameStream),
    String.toList_inj.1 (List.reverse_inj.1 sameShard)⟩

theorem leaseKeyFor_cut {stream stream' : StreamIdentifier} {shardId shardId' : String}
    (same : leaseKeyFor (some stream) shardId = leaseKeyFor (some stream') shardId')
    (whole : ':' ∉ shardId.toList) (whole' : ':' ∉ shardId'.toList) :
    stream.serialize = stream'.serialize ∧ shardId = shardId' :=
  key_cut same whole whole'

/-- The keys of the parents, in order and each once. -/
theorem Lease.parentLeaseKeys_ofShard (stream : Option StreamIdentifier) (shardId : String)
    (checkpoint : Checkpoint) (parents : List String) :
    ((Lease.ofShard stream shardId checkpoint).withParents parents).parentLeaseKeys =
      (SortedSet.ofList parents).toList.map (leaseKeyFor stream) := by
  cases stream <;> rfl

theorem Lease.nodup_parentLeaseKeys (stream : Option StreamIdentifier) (shardId : String)
    (checkpoint : Checkpoint) (parents : List String) :
    ((Lease.ofShard stream shardId checkpoint).withParents parents).parentLeaseKeys.Nodup := by
  rw [Lease.parentLeaseKeys_ofShard]
  exact List.pairwise_map.2 ((SortedMap.nodup_keys _).imp fun differ same => differ (leaseKeyFor_injective same))

theorem Lease.mem_parentLeaseKeys {stream : Option StreamIdentifier} {shardId leaseKey : String}
    {checkpoint : Checkpoint} {parents : List String} :
    leaseKey ∈ ((Lease.ofShard stream shardId checkpoint).withParents parents).parentLeaseKeys ↔
      ∃ parent ∈ parents, leaseKeyFor stream parent = leaseKey := by
  rw [Lease.parentLeaseKeys_ofShard, List.mem_map]
  simp only [SortedSet.mem_toList_ofList]

/-- Lease keys tell streams apart that were read with their account: streams with the same
serialization, or with a key in common for one shard, are the same, and a key whose shard has no colon
gives away the shard as well. In every mode the keys that a lease gives for its parents are, each once,
those under which the leases of the parents are created, in particular by a sync. -/
theorem lease_keys_apart {text text' : String} {stream stream' : StreamIdentifier}
    (read : StreamIdentifier.ofMulti text = .ok stream) (read' : StreamIdentifier.ofMulti text' = .ok stream') :
    (stream.serialize = stream'.serialize → stream = stream') ∧
      (∀ shardId, leaseKeyFor (some stream) shardId = leaseKeyFor (some stream') shardId → stream = stream') ∧
      (∀ shardId shardId', ':' ∉ shardId.toList → ':' ∉ shardId'.toList →
        leaseKeyFor (some stream) shardId = leaseKeyFor (some stream') shardId' →
          stream = stream' ∧ shardId = shardId') ∧
      (∀ (mode : Option StreamIdentifier) (shardId : String) (checkpoint : Checkpoint) (parents : List String),
        ((Lease.ofShard mode shardId checkpoint).withParents parents).parentLeaseKeys.Nodup ∧
          ∀ leaseKey, leaseKey ∈ ((Lease.ofShard mode shardId checkpoint).withParents parents).parentLeaseKeys ↔
            ∃ parent ∈ parents, ∀ start, (Lease.ofShard mode parent start).leaseKey = leaseKey) ∧
      ∀ (sync : ShardSync) (config : StreamConfig) (listed : List ShardDescription) (existing : List Lease)
        (child : ShardDescription) (leaseKey : String),
        leaseKey ∈ (sync.newLease config listed existing child).parentLeaseKeys ↔
          ∃ parent : ShardDescription, parent.shardId ∈ child.parents ∧
            (sync.newLease config listed existing parent).leaseKey = leaseKey := by
  have apart := StreamIdentifier.serialize_injective read read'
  refine ⟨apart, fun shardId same => ?_, fun shardId shardId' whole whole' same => ?_, ?_, ?_⟩
  · simp only [leaseKeyFor, String.append_assoc, String.append_left_inj] at same
    exact apart same
  · obtain ⟨serialized, sameShard⟩ := leaseKeyFor_cut same whole whole'
    exact ⟨apart serialized, sameShard⟩
  · intro mode shardId checkpoint parents
    refine ⟨Lease.nodup_parentLeaseKeys .., fun leaseKey => ?_⟩
    rw [Lease.mem_parentLeaseKeys]
    exact exists_congr fun parent => and_congr_right fun _ => ⟨fun same _ => same, fun same => same .latest⟩
  · intro sync config listed existing child leaseKey
    unfold ShardSync.newLease
    rw [Lease.mem_parentLeaseKeys]
    constructor
    · rintro ⟨parent, mem, same⟩
      exact ⟨{ shardId := parent }, mem, same⟩
    · rintro ⟨parent, mem, same⟩
      exact ⟨parent.shardId, mem, same⟩

/-- A stream read from its epoch form and one read from an ARN, whose name has a colon: their shards have
different keys, and a parent is looked up where its lease is. -/
theorem lease_keys_apart_of_two_forms :
    leaseKeyFor (some (.ofEpoch "123456789012" "a" "1")) "shard-0" ≠
        leaseKeyFor (some (.ofRegion "us-east-1" "123456789012" "a:1")) "shard-0" ∧
      leaseKeyFor (some (.ofEpoch "123456789012" "a" "1")) "shard-0" ∈
        ((Lease.ofShard (some (.ofEpoch "123456789012" "a" "1")) "shard-1" .latest).withParents
          ["shard-0"]).parentLeaseKeys := by
  have epochForm : StreamIdentifier.EpochForm "123456789012:a:1" "123456789012" "a" "1" := by
    constructor <;> decide +kernel
  have arnForm : StreamIdentifier.ArnForm "arn:aws:kinesis:us-east-1:123456789012:stream/a:1" "aws"
      "us-east-1" "123456789012" "a:1" := by
    constructor
    case places => exact List.all_eq_true.1 (by decide +kernel)
    all_goals decide +kernel
  obtain ⟨-, sameShard, -, parents, -⟩ := lease_keys_apart epochForm.read arnForm.read
  refine ⟨fun same => ?_, ?_⟩
  · have sameName := congrArg StreamIdentifier.streamName (sameShard _ same)
    exact absurd sameName (by decide +kernel)
  · exact ((parents _ _ _ _).2 _).2 ⟨"shard-0", List.mem_singleton_self _, fun _ => rfl⟩

end LeaseFleet
