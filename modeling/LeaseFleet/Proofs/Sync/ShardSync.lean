import LeaseFleet.Proofs.Script.AloneAtTable
import LeaseFleet.Sync.Shards

/-!
# What a sync makes of the table

A sync creates what is missing and then deletes what is finished. Its decisions depend on the table
only as far as its own writes do not change them: a created lease is that of a listed shard, and a
listed shard counts as known anyway; nothing is deleted before everything is created. So whatever
table a sync has come to, it wants to end in the same table from there
(`Partway.synced_eq`), and once it got there it has nothing left to do.
-/

namespace LeaseFleet

/-! ## Tables under a series of calls -/

namespace LeaseTable

/-- The table after leases were created where they were absent. -/
def createAll (table : LeaseTable) (leases : List Lease) : LeaseTable :=
  leases.foldl (fun table lease => (table.create lease).2) table

/-- The table after leases were deleted. -/
def eraseAll (table : LeaseTable) (leases : List Lease) : LeaseTable :=
  leases.foldl (fun table lease => table.erase lease.leaseKey) table

variable (table : LeaseTable)

theorem get?_create (lease : Lease) (leaseKey : String) :
    (table.create lease).2.get? leaseKey =
      (table.get? leaseKey).or (if lease.leaseKey = leaseKey ∧ leaseKey ≠ "" then some lease else none) := by
  unfold create
  by_cases blank : lease.leaseKey = ""
  · have notHere : ¬(lease.leaseKey = leaseKey ∧ leaseKey ≠ "") := fun ⟨same, named⟩ => named (same ▸ blank)
    rw [if_pos blank, if_neg notHere, Option.or_none]
  · by_cases same : lease.leaseKey = leaseKey
    · subst same
      cases found : table.get? lease.leaseKey <;> simp [blank, SortedMap.contains, found, put]
    · have other : (table.put lease).get? leaseKey = table.get? leaseKey :=
        SortedMap.get?_insert_of_ne _ (Ne.symm same) _
      rw [if_neg blank]
      split <;> simp [same, other]

/-- A series of creations leaves what is stored, and stores the first lease of each free key. -/
theorem get?_createAll (leases : List Lease) (leaseKey : String) :
    (table.createAll leases).get? leaseKey =
      (table.get? leaseKey).or (leases.find? fun lease => lease.leaseKey = leaseKey ∧ leaseKey ≠ "") := by
  induction leases generalizing table with
  | nil => simp [createAll]
  | cons lease rest ih =>
    have first : table.createAll (lease :: rest) = (table.create lease).2.createAll rest := rfl
    rw [first, ih, get?_create, Option.or_assoc, List.find?_cons]
    by_cases here : lease.leaseKey = leaseKey ∧ leaseKey ≠ ""
    · simp [here]
    · simp [here]

theorem get?_eraseAll (leases : List Lease) (leaseKey : String) :
    (table.eraseAll leases).get? leaseKey =
      if leaseKey ∈ leases.map Lease.leaseKey then none else table.get? leaseKey := by
  induction leases generalizing table with
  | nil => simp [eraseAll]
  | cons lease rest ih =>
    have first : table.eraseAll (lease :: rest) = eraseAll (table.erase lease.leaseKey) rest := rfl
    rw [first, ih, SortedMap.get?_erase]
    by_cases here : leaseKey = lease.leaseKey
    · simp [here]
    · have differs : compare leaseKey lease.leaseKey ≠ .eq :=
        fun same => here (Std.LawfulEqCmp.eq_of_compare same)
      simp [here, differs]

/-- A creation makes the table larger exactly when it says so. -/
theorem size_create {lease : Lease} {isNew : Bool} (answered : (table.create lease).1 = .ok isNew) :
    (table.create lease).2.size = if isNew then table.size + 1 else table.size := by
  rcases table.create_cases lease with ⟨same, notNew⟩ | ⟨absent, created⟩
  · cases isNew with
    | true => exact absurd answered notNew
    | false => rw [same, if_neg Bool.false_ne_true]
  · obtain rfl : true = isNew := by simpa [created] using answered
    rw [created, if_pos rfl]
    exact SortedMap.size_insert_of_absent absent lease

/-- Only a lease without a key cannot be created. -/
theorem leaseKey_of_create_error {lease : Lease} {error : StoreError}
    (refused : (table.create lease).1 = .error error) : lease.leaseKey = "" := by
  unfold create at refused
  split at refused
  · assumption
  · split at refused <;> cases refused

/-- Deleting stored leases of different keys makes the table smaller by their number. -/
theorem size_eraseAll {leases : List Lease} (distinct : (leases.map Lease.leaseKey).Nodup)
    (stored : ∀ lease ∈ leases, table.contains lease.leaseKey = true) :
    (table.eraseAll leases).size + leases.length = table.size := by
  induction leases generalizing table with
  | nil => rfl
  | cons lease rest ih =>
    rw [List.map_cons, List.nodup_cons] at distinct
    obtain ⟨first, others⟩ := List.forall_mem_cons.1 stored
    obtain ⟨found, here⟩ := Option.isSome_iff_exists.1 first
    have erased : (table.erase lease.leaseKey).size + 1 = table.size := SortedMap.size_erase_of_found here
    have still : ∀ other ∈ rest, (table.erase lease.leaseKey).contains other.leaseKey = true := by
      intro other mem
      have differs : other.leaseKey ≠ lease.leaseKey := fun same =>
        distinct.1 (same ▸ List.mem_map.2 ⟨other, mem, rfl⟩)
      obtain ⟨stored, there⟩ := Option.isSome_iff_exists.1 (others other mem)
      exact Option.isSome_iff_exists.2 ⟨stored, SortedMap.get?_erase_eq_some_iff.2 ⟨differs, there⟩⟩
    have sum := ih (table.erase lease.leaseKey) distinct.2 still
    show (eraseAll (table.erase lease.leaseKey) rest).size + (rest.length + 1) = table.size
    omega

end LeaseTable

/-! ## Leases and the keys of their shards -/

/-- All leases have keys; one without a key cannot be created. -/
def Named (leases : List Lease) : Prop := ∀ lease ∈ leases, lease.leaseKey ≠ ""

theorem named_nil : Named [] := fun _ mem => (List.not_mem_nil mem).elim

theorem named_cons {lease : Lease} {rest : List Lease} :
    Named (lease :: rest) ↔ lease.leaseKey ≠ "" ∧ Named rest := List.forall_mem_cons

/-- The key that a lease gets from its stream and shard. -/
def Lease.ownKey (lease : Lease) : String :=
  match lease.stream with
  | some stream => stream ++ ":" ++ lease.shardId
  | none => lease.shardId

/-- Every lease is stored under its key, and that is the key of its stream and shard. -/
def LeaseTable.WellKeyed (table : LeaseTable) : Prop :=
  ∀ ⦃leaseKey lease⦄, table.get? leaseKey = some lease → lease.leaseKey = leaseKey ∧ lease.ownKey = leaseKey

theorem LeaseTable.wellKeyed_ofLeases {leases : List Lease}
    (own : ∀ lease ∈ leases, lease.ownKey = lease.leaseKey) : (LeaseTable.ofLeases leases).WellKeyed := by
  intro leaseKey lease found
  obtain ⟨mem, same⟩ := LeaseTable.get?_ofLeases found
  exact ⟨same, (own lease mem).trans same⟩

theorem leaseKeyFor_injective {stream : Option StreamIdentifier} {one other : String}
    (same : leaseKeyFor stream one = leaseKeyFor stream other) : one = other := by
  cases stream with
  | none => exact same
  | some stream => exact (String.append_right_inj _).1 same

namespace ShardSync

variable (sync : ShardSync) (config : StreamConfig) (listed : List ShardDescription)

/-- The leases of the stream in a table. -/
def leasesOf (table : LeaseTable) : List Lease := table.leases.filter (sync.covers config.stream)

/-- The key of a shard's lease. -/
def shardKey (shardId : String) : String := leaseKeyFor (sync.leaseStream config.stream) shardId

/-- The leases that a sync of the table sets out to create. -/
def missing (table : LeaseTable) : List Lease :=
  sync.missingLeases config listed (sync.leasesOf config table)

/-- The leases that a sync of the table sets out to delete. -/
def finished (table : LeaseTable) : List Lease := finishedLeases listed (sync.leasesOf config table)

/-- The table after a complete sync. -/
def synced (table : LeaseTable) : LeaseTable :=
  (table.createAll (sync.missing config listed table)).eraseAll (sync.finished config listed table)

/-- Whether a lease is one of the stream whose shard is consumed to its end and not listed. -/
def Expires (lease : Lease) : Prop :=
  sync.covers config.stream lease = true ∧ lease.isShardEnd = true ∧ isListed listed lease.shardId = false

instance (lease : Lease) : Decidable (sync.Expires config listed lease) :=
  inferInstanceAs (Decidable (_ ∧ _ ∧ _))

/-- The first listed shard whose lease has the key. -/
def listedAt (leaseKey : String) : Option ShardDescription :=
  listed.find? fun shard => sync.shardKey config shard.shardId = leaseKey ∧ leaseKey ≠ ""

variable {sync config listed} {table : LeaseTable} {leaseKey shardId : String} {lease : Lease}
  {existing : List Lease} {shard : ShardDescription}

theorem newLease_leaseKey :
    (sync.newLease config listed existing shard).leaseKey = sync.shardKey config shard.shardId := rfl

theorem newLease_covers : sync.covers config.stream (sync.newLease config listed existing shard) = true := by
  simp [covers, newLease, Lease.withParents, Lease.ofShard]

theorem ownKey_of_covers (covers : sync.covers config.stream lease = true) :
    lease.ownKey = sync.shardKey config lease.shardId := by
  have stream : lease.stream = (sync.leaseStream config.stream).map StreamIdentifier.serialize := by
    simpa [ShardSync.covers] using covers
  unfold Lease.ownKey shardKey leaseKeyFor
  rw [stream]
  cases sync.leaseStream config.stream <;> rfl

theorem isListed_iff : isListed listed shardId = true ↔ ∃ shard ∈ listed, shard.shardId = shardId := by
  simp [isListed]

theorem of_listedAt (here : sync.listedAt config listed leaseKey = some shard) :
    shard ∈ listed ∧ sync.shardKey config shard.shardId = leaseKey ∧ leaseKey ≠ "" :=
  ⟨List.mem_of_find?_eq_some here, by simpa using List.find?_some here⟩

/-- Of several mentions of a shard in a listing the first counts. -/
theorem listedAt_of_first (first : listed.find? (·.shardId = shard.shardId) = some shard)
    (named : sync.shardKey config shard.shardId ≠ "") :
    sync.listedAt config listed (sync.shardKey config shard.shardId) = some shard := by
  rw [← first]
  unfold listedAt
  congr 1
  funext other
  refine decide_eq_decide.2 ⟨fun same => leaseKeyFor_injective same.1, fun same => ⟨?_, named⟩⟩
  rw [same]

/-- The lease of a listed shard does not expire. -/
theorem not_expires_newLease (mem : shard ∈ listed) :
    ¬sync.Expires config listed (sync.newLease config listed existing shard) := by
  rintro ⟨_, _, notListed⟩
  exact Bool.false_ne_true (notListed.symm.trans (isListed_iff.2 ⟨shard, mem, rfl⟩))

theorem mem_leasesOf :
    lease ∈ sync.leasesOf config table ↔
      (∃ leaseKey, table.get? leaseKey = some lease) ∧ sync.covers config.stream lease = true := by
  rw [leasesOf, List.mem_filter, LeaseTable.mem_leases]

theorem mem_finished :
    lease ∈ sync.finished config listed table ↔
      (∃ leaseKey, table.get? leaseKey = some lease) ∧ sync.Expires config listed lease := by
  simp [finished, finishedLeases, mem_leasesOf, Expires, and_assoc]

section

variable (keyed : table.WellKeyed)

include keyed

/-- A shard is leased when its key holds a lease of the stream. -/
theorem isLeased_iff :
    isLeased (sync.leasesOf config table) shardId = true ↔
      ∃ lease, table.get? (sync.shardKey config shardId) = some lease ∧
        sync.covers config.stream lease = true := by
  simp only [isLeased, List.any_eq_true, mem_leasesOf, beq_iff_eq]
  constructor
  · rintro ⟨lease, ⟨⟨leaseKey, found⟩, covers⟩, rfl⟩
    rw [← ownKey_of_covers covers, (keyed found).2]
    exact ⟨lease, found, covers⟩
  · rintro ⟨lease, found, covers⟩
    have sameKey : sync.shardKey config lease.shardId = sync.shardKey config shardId := by
      rw [← ownKey_of_covers covers, (keyed found).2]
    exact ⟨lease, ⟨⟨_, found⟩, covers⟩, leaseKeyFor_injective sameKey⟩

/-- What is missing under a free key is the lease of the first shard that is listed there. -/
theorem find?_missing (absent : table.get? leaseKey = none) :
    ((sync.missing config listed table).find? fun lease => lease.leaseKey = leaseKey ∧ leaseKey ≠ "") =
      (sync.listedAt config listed leaseKey).map
        (sync.newLease config listed (sync.leasesOf config table)) := by
  have notLeased (shard : ShardDescription) (here : sync.shardKey config shard.shardId = leaseKey) :
      isLeased (sync.leasesOf config table) shard.shardId = false := by
    rw [← Bool.not_eq_true, isLeased_iff keyed, here, absent]
    simp
  rw [missing, missingLeases, List.find?_map, listedAt, List.find?_filter]
  congr 2
  funext shard
  by_cases here : sync.shardKey config shard.shardId = leaseKey
  · simp [newLease_leaseKey, here, notLeased shard here]
  · simp [newLease_leaseKey, here]

/-- All that is missing has been created. -/
theorem get?_created (leaseKey : String) :
    (table.createAll (sync.missing config listed table)).get? leaseKey =
      (table.get? leaseKey).or ((sync.listedAt config listed leaseKey).map
        (sync.newLease config listed (sync.leasesOf config table))) := by
  rw [LeaseTable.get?_createAll]
  cases found : table.get? leaseKey with
  | some lease => rfl
  | none => rw [Option.none_or, Option.none_or, find?_missing keyed found]

theorem mem_finished_keys :
    leaseKey ∈ (sync.finished config listed table).map Lease.leaseKey ↔
      ∃ lease, table.get? leaseKey = some lease ∧ sync.Expires config listed lease := by
  simp only [List.mem_map, mem_finished]
  constructor
  · rintro ⟨lease, ⟨⟨other, found⟩, expires⟩, rfl⟩
    rw [(keyed found).1]
    exact ⟨lease, found, expires⟩
  · rintro ⟨lease, found, expires⟩
    exact ⟨lease, ⟨⟨_, found⟩, expires⟩, (keyed found).1⟩

/-- What a complete sync makes of a table, key by key. -/
theorem get?_synced (leaseKey : String) :
    (sync.synced config listed table).get? leaseKey =
      match table.get? leaseKey with
      | some lease => if sync.Expires config listed lease then none else some lease
      | none => (sync.listedAt config listed leaseKey).map
          (sync.newLease config listed (sync.leasesOf config table)) := by
  rw [synced, LeaseTable.get?_eraseAll, get?_created keyed]
  simp only [mem_finished_keys keyed]
  cases found : table.get? leaseKey with
  | some lease => simp
  | none => simp

end

/-! ## On the way -/

variable (sync config listed)

/-- A table between the start and the end of a sync: first some of what is missing has been created,
and when all of it was, some of what is finished has been deleted. -/
def Partway (before now : LeaseTable) : Prop :=
  (∀ leaseKey, now.get? leaseKey = before.get? leaseKey ∨
    now.get? leaseKey = (before.createAll (sync.missing config listed before)).get? leaseKey) ∨
  ∀ leaseKey, now.get? leaseKey = (before.createAll (sync.missing config listed before)).get? leaseKey ∨
    now.get? leaseKey = (sync.synced config listed before).get? leaseKey

variable {sync config listed} {before now : LeaseTable}

theorem partway_of_created {created rest : List Lease}
    (part : sync.missing config listed before = created ++ rest) :
    sync.Partway config listed before (before.createAll created) := by
  refine .inl fun leaseKey => ?_
  rw [part, LeaseTable.get?_createAll, LeaseTable.get?_createAll, List.find?_append]
  cases found : created.find? _ with
  | some lease => exact .inr rfl
  | none => exact .inl (by rw [Option.or_none])

theorem partway_of_erased {erased rest : List Lease}
    (part : sync.finished config listed before = erased ++ rest) :
    sync.Partway config listed before
      ((before.createAll (sync.missing config listed before)).eraseAll erased) := by
  refine .inr fun leaseKey => ?_
  rw [synced, part, LeaseTable.get?_eraseAll, LeaseTable.get?_eraseAll, List.map_append]
  by_cases gone : leaseKey ∈ erased.map Lease.leaseKey
  · exact .inr (by rw [if_pos gone, if_pos (List.mem_append_left _ gone)])
  · exact .inl (if_neg gone)

section

variable (keyed : before.WellKeyed)

include keyed

/-- A lease on the way was there before, or is the lease of a shard that is listed under its key. -/
theorem Partway.cases (partway : sync.Partway config listed before now)
    (found : now.get? leaseKey = some lease) :
    before.get? leaseKey = some lease ∨ before.get? leaseKey = none ∧
      ∃ shard, sync.listedAt config listed leaseKey = some shard ∧
        sync.newLease config listed (sync.leasesOf config before) shard = lease := by
  have ofCreated (found : (before.createAll (sync.missing config listed before)).get? leaseKey = some lease) :
      before.get? leaseKey = some lease ∨ before.get? leaseKey = none ∧
        ∃ shard, sync.listedAt config listed leaseKey = some shard ∧
          sync.newLease config listed (sync.leasesOf config before) shard = lease := by
    rw [get?_created keyed] at found
    cases here : before.get? leaseKey with
    | some other => exact .inl (by simpa [here] using found)
    | none => exact .inr ⟨rfl, by simpa [here] using found⟩
  rcases partway with creating | erasing
  · rcases creating leaseKey with same | same
    · exact .inl (same ▸ found)
    · exact ofCreated (same ▸ found)
  · rcases erasing leaseKey with same | same
    · exact ofCreated (same ▸ found)
    · rw [same, synced, LeaseTable.get?_eraseAll] at found
      split at found
      · cases found
      · exact ofCreated found

theorem Partway.wellKeyed (partway : sync.Partway config listed before now) : now.WellKeyed := by
  intro leaseKey lease found
  rcases partway.cases keyed found with found | ⟨_, shard, here, rfl⟩
  · exact keyed found
  · obtain ⟨_, sameKey, _⟩ := of_listedAt here
    exact ⟨sameKey, (ownKey_of_covers newLease_covers).trans sameKey⟩

/-- A lease that does not expire stays as it is on the way. -/
theorem Partway.stays (partway : sync.Partway config listed before now)
    (found : before.get? leaseKey = some lease) (lasts : ¬sync.Expires config listed lease) :
    now.get? leaseKey = some lease := by
  have created : (before.createAll (sync.missing config listed before)).get? leaseKey = some lease := by
    rw [LeaseTable.get?_createAll, found, Option.some_or]
  have last : (sync.synced config listed before).get? leaseKey = some lease := by
    rw [get?_synced keyed, found]
    exact if_neg lasts
  rcases partway with creating | erasing
  · rcases creating leaseKey with same | same
    · rw [same, found]
    · rw [same, created]
  · rcases erasing leaseKey with same | same
    · rw [same, created]
    · rw [same, last]

/-- Whatever is missing on the way was missing at the start. -/
theorem Partway.missing_before (partway : sync.Partway config listed before now)
    (mem : lease ∈ sync.missing config listed now) :
    ∃ earlier ∈ sync.missing config listed before, earlier.leaseKey = lease.leaseKey := by
  obtain ⟨shard, isMissing, rfl⟩ := List.mem_map.1 mem
  obtain ⟨isIn, notLeased⟩ := List.mem_filter.1 isMissing
  refine ⟨_, List.mem_map.2 ⟨shard, List.mem_filter.2 ⟨isIn, ?_⟩, rfl⟩, rfl⟩
  rw [Bool.not_eq_true', ← Bool.not_eq_true, isLeased_iff (partway.wellKeyed keyed)] at notLeased
  rw [Bool.not_eq_true', ← Bool.not_eq_true, isLeased_iff keyed]
  rintro ⟨lease, found, covers⟩
  refine notLeased ⟨lease, partway.stays keyed found ?_, covers⟩
  rintro ⟨_, _, notListed⟩
  have sameKey : sync.shardKey config lease.shardId = sync.shardKey config shard.shardId := by
    rw [← ownKey_of_covers covers, (keyed found).2]
  have listed := isListed_iff.2 ⟨shard, isIn, (leaseKeyFor_injective sameKey).symm⟩
  exact Bool.false_ne_true (notListed.symm.trans listed)

/-- While a sync creates, it sees the same parents as at the start: what was created is listed. -/
theorem newLease_of_creating
    (creating : ∀ leaseKey, now.get? leaseKey = before.get? leaseKey ∨
      now.get? leaseKey = (before.createAll (sync.missing config listed before)).get? leaseKey) :
    sync.newLease config listed (sync.leasesOf config now) =
      sync.newLease config listed (sync.leasesOf config before) := by
  have partway : sync.Partway config listed before now := .inl creating
  have nowKeyed := partway.wellKeyed keyed
  have known (parent : String) : (isLeased (sync.leasesOf config now) parent || isListed listed parent) =
      (isLeased (sync.leasesOf config before) parent || isListed listed parent) := by
    cases isIn : isListed listed parent with
    | true => simp
    | false =>
      refine congrArg (· || false) (Bool.eq_iff_iff.2 ?_)
      rw [isLeased_iff nowKeyed, isLeased_iff keyed]
      constructor
      · rintro ⟨lease, found, covers⟩
        rcases partway.cases keyed found with found | ⟨_, other, here, _⟩
        · exact ⟨lease, found, covers⟩
        · obtain ⟨mem, sameKey, _⟩ := of_listedAt here
          have listed := isListed_iff.2 ⟨other, mem, leaseKeyFor_injective sameKey⟩
          exact absurd (isIn.symm.trans listed) Bool.false_ne_true
      · rintro ⟨lease, found, covers⟩
        have stays : now.get? (sync.shardKey config parent) = some lease := by
          rcases creating (sync.shardKey config parent) with same | same
          · rw [same, found]
          · rw [same, get?_created keyed, found, Option.some_or]
        exact ⟨lease, stays, covers⟩
  funext shard
  simp only [newLease, startingCheckpoint, known]

/-- From every table on its way a sync sets out for the same table. -/
theorem Partway.synced_eq (partway : sync.Partway config listed before now) :
    sync.synced config listed now = sync.synced config listed before := by
  refine SortedMap.ext_get? fun leaseKey => ?_
  rw [get?_synced (partway.wellKeyed keyed), get?_synced keyed]
  cases found : now.get? leaseKey with
  | some lease =>
    rcases partway.cases keyed found with here | ⟨absent, shard, here, rfl⟩
    · rw [here]
    · obtain ⟨mem, _⟩ := of_listedAt here
      simp only [absent, here, Option.map_some, if_neg (not_expires_newLease mem)]
  | none =>
    rcases partway with creating | erasing
    · have absent : before.get? leaseKey = none := by
        rcases creating leaseKey with same | same
        · rw [← same, found]
        · exact (Option.or_eq_none_iff.1 ((get?_created keyed _).symm.trans (same.symm.trans found))).1
      rw [absent, newLease_of_creating keyed creating]
    · -- the key is free, or its lease has been deleted and no listed shard has the key
      have gone : (sync.synced config listed before).get? leaseKey = none := by
        rcases erasing leaseKey with same | same
        · obtain ⟨absent, unlisted⟩ :=
            Option.or_eq_none_iff.1 ((get?_created keyed _).symm.trans (same.symm.trans found))
          rw [get?_synced keyed, absent]
          exact unlisted
        · rw [← same, found]
      have unlisted : sync.listedAt config listed leaseKey = none := by
        rw [get?_synced keyed] at gone
        cases here : before.get? leaseKey with
        | none => simpa [here] using gone
        | some lease =>
          obtain ⟨covers, _, notListed⟩ : sync.Expires config listed lease := by simpa [here] using gone
          refine Option.eq_none_iff_forall_ne_some.2 fun shard listedHere => ?_
          obtain ⟨mem, sameKey, _⟩ := of_listedAt listedHere
          rw [← (keyed here).2, ownKey_of_covers covers] at sameKey
          have listed := isListed_iff.2 ⟨shard, mem, leaseKeyFor_injective sameKey⟩
          exact Bool.false_ne_true (notListed.symm.trans listed)
      rw [get?_synced keyed] at gone
      rw [gone, unlisted]
      rfl

end

end ShardSync

end LeaseFleet
