import LeaseFleet.Proofs.Sync.PassOutcomes
import LeaseFleet.Proofs.Sync.ShardSyncRuns

/-!
# Streams do not interfere

Two passes from one state differ only in what is answered for some streams, which stand apart. Whatever is
done about a stream apart touches only its own leases and notes, and what is done about another stream
depends only on that one, since the keys of different streams never meet. So beside the streams apart both
passes leave the same (`passed_beside`).
-/

namespace LeaseFleet

/-! ## Maps -/

namespace SortedMap

variable {κ ν : Type} [Ord κ] {apart : κ → Prop} {one between other : SortedMap κ ν} {key : κ}

/-- Two maps hold the same under all keys but those apart. -/
def Beside (apart : κ → Prop) (one other : SortedMap κ ν) : Prop :=
  ∀ key, ¬apart key → one.get? key = other.get? key

theorem Beside.refl (map : SortedMap κ ν) : Beside apart map map := fun _ _ => rfl

theorem Beside.symm (beside : Beside apart one other) : Beside apart other one :=
  fun key here => (beside key here).symm

theorem Beside.trans (first : Beside apart one between) (second : Beside apart between other) :
    Beside apart one other := fun key here => (first key here).trans (second key here)

theorem Beside.contains (beside : Beside apart one other) (here : ¬apart key) :
    one.contains key = other.contains key := congrArg Option.isSome (beside key here)

theorem beside_of_iff
    (same : ∀ key value, ¬apart key → (one.get? key = some value ↔ other.get? key = some value)) :
    Beside apart one other := fun key here => Option.ext fun value => same key value here

variable [Std.TransOrd κ] [Std.LawfulEqOrd κ]

theorem Beside.insert (beside : Beside apart one other) (key : κ) (value : ν) :
    Beside apart (one.insert key value) (other.insert key value) := fun place here => by
  rw [get?_insert, get?_insert, beside place here]

theorem beside_insert (isApart : apart key) (value : ν) : Beside apart one (one.insert key value) :=
  fun place here => by
    have differs : place ≠ key := fun same => here (same ▸ isApart)
    rw [get?_insert_of_ne one differs]

theorem Beside.erase (beside : Beside apart one other) (key : κ) :
    Beside apart (one.erase key) (other.erase key) := fun place here => by
  rw [get?_erase, get?_erase, beside place here]

theorem beside_erase (isApart : apart key) : Beside apart one (one.erase key) :=
  fun place here => by
    have differs : place ≠ key := fun same => here (same ▸ isApart)
    rw [get?_erase, if_neg fun same => differs (Std.LawfulEqCmp.eq_of_compare same)]

end SortedMap

/-- A set that gets the same further members beside those apart. -/
theorem SortedSet.beside_insertAll {apart : StreamIdentifier → Prop} {one other : SortedSet StreamIdentifier}
    {added addedOther : List StreamIdentifier} (beside : SortedMap.Beside apart one other)
    (same : ∀ stream, ¬apart stream → (stream ∈ added ↔ stream ∈ addedOther)) :
    SortedMap.Beside apart (SortedSet.insertAll one added) (SortedSet.insertAll other addedOther) := by
  refine SortedMap.beside_of_iff fun stream _ here => ?_
  have found (set : SortedSet StreamIdentifier) : set.get? stream = some () ↔ set.contains stream = true := by
    rw [SortedMap.contains]
    cases set.get? stream <;> simp
  rw [found, found, SortedSet.contains_insertAll, SortedSet.contains_insertAll, beside.contains here,
    same stream here]

variable {apart : StreamIdentifier → Prop} {leaseKey : String} {lease : Lease} {stream : StreamIdentifier}

/-! ## Keys -/

/-- Whether the key is one of a shard of the streams apart. -/
def KeyApart (apart : StreamIdentifier → Prop) (leaseKey : String) : Prop :=
  ∃ stream shardId, apart stream ∧ ':' ∉ shardId.toList ∧ leaseKey = leaseKeyFor (some stream) shardId

namespace LeaseTable

/-- Every lease is stored under the key of its stream and shard, and no shard has a colon. -/
structure Tidy (table : LeaseTable) : Prop where
  keyed : table.WellKeyed
  whole : ∀ leaseKey lease, table.get? leaseKey = some lease → ':' ∉ lease.shardId.toList

variable {table one other : LeaseTable}

theorem Tidy.keyApart (tidy : table.Tidy) (found : table.get? leaseKey = some lease) (isApart : apart stream)
    (carries : lease.stream = some stream.serialize) : KeyApart apart leaseKey := by
  refine ⟨stream, lease.shardId, isApart, tidy.whole _ _ found, ?_⟩
  rw [← (tidy.keyed found).2, Lease.ownKey, carries]
  rfl

/-- A lease under a key of the streams apart carries one of them. -/
theorem Tidy.stream_apart (tidy : table.Tidy) (found : table.get? leaseKey = some lease)
    (key : KeyApart apart leaseKey) : ∃ stream, apart stream ∧ lease.stream = some stream.serialize := by
  obtain ⟨stream, shardId, isApart, whole, rfl⟩ := key
  refine ⟨stream, isApart, ?_⟩
  have own := (tidy.keyed found).2
  have wholeHere := tidy.whole _ _ found
  unfold Lease.ownKey at own
  cases carried : lease.stream with
  | none =>
    rw [carried] at own
    simp only at own
    rw [own] at wholeHere
    simp [leaseKeyFor] at wholeHere
  | some text =>
    rw [carried] at own
    rw [(key_cut own wholeHere whole).1]

/-- What stays of a tidy table is tidy. -/
theorem Tidy.of_less (tidy : table.Tidy)
    (less : ∀ leaseKey lease, other.get? leaseKey = some lease → table.get? leaseKey = some lease) :
    other.Tidy :=
  ⟨fun _ _ found => tidy.keyed (less _ _ found), fun _ _ found => tidy.whole _ _ (less _ _ found)⟩

/-- What a table holds once leases of some kind were deleted. -/
theorem get?_eraseAll_filter (keyed : table.WellKeyed) {goes : Lease → Bool} :
    (table.eraseAll (table.leases.filter goes)).get? leaseKey = some lease ↔
      table.get? leaseKey = some lease ∧ goes lease = false := by
  have erased : leaseKey ∈ (table.leases.filter goes).map Lease.leaseKey ↔
      ∃ lease, table.get? leaseKey = some lease ∧ goes lease = true := by
    simp only [List.mem_map, List.mem_filter, mem_leases]
    constructor
    · rintro ⟨lease, ⟨⟨place, found⟩, gone⟩, rfl⟩
      exact ⟨lease, (keyed found).1 ▸ found, gone⟩
    · rintro ⟨lease, found, gone⟩
      exact ⟨lease, ⟨⟨leaseKey, found⟩, gone⟩, (keyed found).1⟩
  rw [get?_eraseAll]
  split
  next gone =>
    obtain ⟨stored, found, gone⟩ := erased.1 gone
    simp only [reduceCtorEq, false_iff, not_and, Bool.not_eq_false]
    intro here
    rwa [Option.some.inj (here.symm.trans found)]
  next stays =>
    refine ⟨fun found => ⟨found, ?_⟩, And.left⟩
    exact Bool.eq_false_iff.2 fun gone => stays (erased.2 ⟨lease, found, gone⟩)

end LeaseTable

/-! ## Syncs -/

namespace ShardSync

variable {sync : ShardSync} {config : StreamConfig} {listed : List ShardDescription}
  {table one other : LeaseTable}

theorem covers_iff (multi : sync.multi = true) :
    sync.covers stream lease = true ↔ lease.stream = some stream.serialize := by
  simp [covers, leaseStream, multi]

/-- Whether no listed shard has a colon. -/
def Plain (listed : List ShardDescription) : Prop := ∀ shard ∈ listed, ':' ∉ shard.shardId.toList

theorem shardKey_eq (multi : sync.multi = true) (config : StreamConfig) (shardId : String) :
    sync.shardKey config shardId = leaseKeyFor (some config.stream) shardId := by
  rw [shardKey, leaseStream, if_pos multi]

/-- The key of a listed shard is one of its stream. -/
theorem keyApart_of_listedAt (multi : sync.multi = true) (plain : Plain listed) {shard : ShardDescription}
    (here : sync.listedAt config listed leaseKey = some shard) (isApart : apart stream)
    (same : config.stream.serialize = stream.serialize) : KeyApart apart leaseKey := by
  obtain ⟨mem, key, -⟩ := of_listedAt here
  refine ⟨stream, shard.shardId, isApart, plain shard mem, ?_⟩
  rw [← key, shardKey_eq multi, leaseKeyFor, leaseKeyFor, same]

theorem synced_tidy (plain : Plain listed) (tidy : table.Tidy) :
    LeaseTable.Tidy (sync.synced config listed table) := by
  have partway : sync.Partway config listed table (sync.synced config listed table) := partway_synced
  refine ⟨partway.wellKeyed tidy.keyed, fun leaseKey lease found => ?_⟩
  obtain before | ⟨-, shard, here, rfl⟩ := partway.cases tidy.keyed found
  · exact tidy.whole _ _ before
  · exact plain shard (of_listedAt here).1

/-- The sync of a stream apart touches only keys of the streams apart. -/
theorem beside_synced (multi : sync.multi = true) (plain : Plain listed) (tidy : table.Tidy)
    (isApart : apart config.stream) :
    SortedMap.Beside (KeyApart apart) table (sync.synced config listed table) := by
  intro leaseKey key
  rw [get?_synced tidy.keyed]
  cases found : table.get? leaseKey with
  | some lease =>
    have stays : ¬sync.Expires config listed lease := fun expires =>
      key (tidy.keyApart found isApart ((covers_iff multi).1 expires.1))
    simp only [if_neg stays]
  | none =>
    have unlisted : sync.listedAt config listed leaseKey = none :=
      Option.eq_none_iff_forall_ne_some.2 fun shard here =>
        key (keyApart_of_listedAt multi plain here isApart rfl)
    simp only [unlisted, Option.map_none]

/-- The leases of a stream of which no key is apart are the same in both tables. -/
theorem mem_leasesOf_beside (multi : sync.multi = true) (tidy : one.Tidy)
    (beside : SortedMap.Beside (KeyApart apart) one other)
    (differs : ∀ stream, apart stream → config.stream.serialize ≠ stream.serialize)
    (mem : lease ∈ sync.leasesOf config one) : lease ∈ sync.leasesOf config other := by
  obtain ⟨⟨leaseKey, found⟩, covered⟩ := mem_leasesOf.1 mem
  refine mem_leasesOf.2 ⟨⟨leaseKey, ?_⟩, covered⟩
  rw [← beside leaseKey, found]
  intro key
  obtain ⟨stream, isApart, carries⟩ := tidy.stream_apart found key
  rw [(covers_iff multi).1 covered] at carries
  exact differs stream isApart (Option.some.inj carries)

theorem isLeased_beside (multi : sync.multi = true) (tidy : one.Tidy) (tidyOther : other.Tidy)
    (beside : SortedMap.Beside (KeyApart apart) one other)
    (differs : ∀ stream, apart stream → config.stream.serialize ≠ stream.serialize) (shardId : String) :
    isLeased (sync.leasesOf config one) shardId = isLeased (sync.leasesOf config other) shardId := by
  rw [Bool.eq_iff_iff]
  simp only [isLeased, List.any_eq_true]
  constructor
  · rintro ⟨lease, mem, same⟩
    exact ⟨lease, mem_leasesOf_beside multi tidy beside differs mem, same⟩
  · rintro ⟨lease, mem, same⟩
    exact ⟨lease, mem_leasesOf_beside multi tidyOther beside.symm differs mem, same⟩

/-- Syncs with one listing leave the same beside the streams apart. -/
theorem synced_beside (multi : sync.multi = true) (plain : Plain listed) (tidy : one.Tidy)
    (tidyOther : other.Tidy) (beside : SortedMap.Beside (KeyApart apart) one other) :
    SortedMap.Beside (KeyApart apart) (sync.synced config listed one) (sync.synced config listed other) := by
  intro leaseKey key
  rw [get?_synced tidy.keyed, get?_synced tidyOther.keyed, beside leaseKey key]
  cases other.get? leaseKey with
  | some lease => rfl
  | none =>
    cases here : sync.listedAt config listed leaseKey with
    | none => rfl
    | some shard =>
      have differs (stream : StreamIdentifier) (isApart : apart stream) :
          config.stream.serialize ≠ stream.serialize :=
        fun same => key (keyApart_of_listedAt multi plain here isApart same)
      simp only [Option.map_some, newLease, startingCheckpoint,
        isLeased_beside multi tidy tidyOther beside differs]

end ShardSync

/-- Whether no shard that is listed in the circumstances has a colon. -/
def Circumstances.Plain (around : Circumstances) : Prop :=
  ∀ config listed, around.shards config = .ok listed → ShardSync.Plain listed

/-! ## Notes on streams -/

/-- Two books give the same ARNs to all streams but those apart. -/
structure ArnBook.Beside (apart : StreamIdentifier → Prop) (one other : ArnBook) : Prop where
  region : one.region = other.region
  defaultAccount : one.defaultAccount = other.defaultAccount
  arns : one.arns.Beside apart other.arns

namespace ArnBook

variable {one between other : ArnBook}

theorem Beside.refl (book : ArnBook) : Beside apart book book := ⟨rfl, rfl, .refl _⟩

theorem Beside.symm (beside : Beside apart one other) : Beside apart other one :=
  ⟨beside.region.symm, beside.defaultAccount.symm, beside.arns.symm⟩

theorem Beside.trans (first : Beside apart one between) (second : Beside apart between other) :
    Beside apart one other :=
  ⟨first.region.trans second.region, first.defaultAccount.trans second.defaultAccount,
    first.arns.trans second.arns⟩

theorem Beside.arnFor (beside : Beside apart one other) (here : ¬apart stream) :
    (one.arnFor stream).1 = (other.arnFor stream).1 ∧
      Beside apart (one.arnFor stream).2 (other.arnFor stream).2 := by
  have resolved : one.resolve stream = other.resolve stream := by
    rw [resolve, resolve, beside.region, beside.defaultAccount]
  unfold ArnBook.arnFor
  rw [beside.arns stream here, resolved]
  cases other.arns.get? stream with
  | some arn => exact ⟨rfl, beside⟩
  | none => exact ⟨rfl, { beside with arns := beside.arns.insert stream _ }⟩

theorem beside_arnFor (isApart : apart stream) : Beside apart one (one.arnFor stream).2 := by
  unfold ArnBook.arnFor
  cases one.arns.get? stream with
  | some arn => exact .refl one
  | none => exact ⟨rfl, rfl, SortedMap.beside_insert isApart _⟩

end ArnBook

namespace Synchronizer

/-- Two synchronizers know the same about all streams but those apart. -/
structure Beside (apart : StreamIdentifier → Prop) (one other : Synchronizer) : Prop where
  sync : one.sync = other.sync
  interval : one.interval = other.interval
  lastSync : one.lastSync = other.lastSync
  reconciled : one.reconciled = other.reconciled
  arns : one.arns.Beside apart other.arns
  streams : one.streams.Beside apart other.streams
  stale : one.stale.Beside apart other.stale

variable {one between other : Synchronizer} {config : StreamConfig}

theorem Beside.refl (synchronizer : Synchronizer) : Beside apart synchronizer synchronizer :=
  ⟨rfl, rfl, rfl, rfl, .refl _, .refl _, .refl _⟩

theorem Beside.symm (beside : Beside apart one other) : Beside apart other one :=
  ⟨beside.sync.symm, beside.interval.symm, beside.lastSync.symm, beside.reconciled.symm, beside.arns.symm,
    beside.streams.symm, beside.stale.symm⟩

theorem Beside.trans (first : Beside apart one between) (second : Beside apart between other) :
    Beside apart one other where
  sync := first.sync.trans second.sync
  interval := first.interval.trans second.interval
  lastSync := first.lastSync.trans second.lastSync
  reconciled := first.reconciled.trans second.reconciled
  arns := first.arns.trans second.arns
  streams := first.streams.trans second.streams
  stale := first.stale.trans second.stale

theorem Beside.activate (beside : Beside apart one other) (here : ¬apart config.stream) :
    Beside apart (one.activate config) (other.activate config) := by
  unfold Synchronizer.activate
  cases config.arn with
  | some arn => exact { beside with streams := beside.streams.insert _ _ }
  | none =>
    obtain ⟨sameArn, arns⟩ := beside.arns.arnFor here
    simp only [sameArn]
    exact { beside with arns, streams := beside.streams.insert _ _ }

theorem beside_activate (isApart : apart config.stream) : Beside apart one (one.activate config) := by
  unfold Synchronizer.activate
  cases config.arn with
  | some arn => exact { Beside.refl one with streams := SortedMap.beside_insert isApart _ }
  | none =>
    exact { Beside.refl one with
      arns := ArnBook.beside_arnFor isApart, streams := SortedMap.beside_insert isApart _ }

theorem Beside.dropStream (beside : Beside apart one other) (stream : StreamIdentifier) :
    Beside apart (one.dropStream stream) (other.dropStream stream) :=
  { beside with
    arns := { beside.arns with arns := beside.arns.arns.erase stream }
    streams := beside.streams.erase stream
    stale := beside.stale.erase stream }

theorem beside_dropStream (isApart : apart stream) : Beside apart one (one.dropStream stream) where
  sync := rfl
  interval := rfl
  lastSync := rfl
  reconciled := rfl
  arns := ⟨rfl, rfl, SortedMap.beside_erase isApart⟩
  streams := SortedMap.beside_erase isApart
  stale := SortedMap.beside_erase isApart

/-! ## Strategies -/

variable {wanted : SortedMap StreamIdentifier StreamConfig} {strategy : DeletionStrategy} {now : Nat}

theorem Beside.mem_forgotten (beside : Beside apart one other) (here : ¬apart stream) :
    stream ∈ (one.applyStrategy wanted strategy now).1 ↔
      stream ∈ (other.applyStrategy wanted strategy now).1 := by
  rw [Synchronizer.mem_forgotten, Synchronizer.mem_forgotten, beside.streams.contains here]

theorem Beside.mem_marks (beside : Beside apart one other) (here : ¬apart stream) :
    stream ∈ one.marks strategy ↔ stream ∈ other.marks strategy := by
  cases strategy with
  | keep => rfl
  | afterAbsence wait =>
    show stream ∈ one.streams.keys ↔ stream ∈ other.streams.keys
    rw [SortedMap.mem_keys, SortedMap.mem_keys, beside.streams.contains here]
  | named streams wait => rfl

theorem Beside.applyStrategy (beside : Beside apart one other) :
    Beside apart (one.applyStrategy wanted strategy now).2 (other.applyStrategy wanted strategy now).2 := by
  have stale : (one.applyStrategy wanted strategy now).2.stale.Beside apart
      (other.applyStrategy wanted strategy now).2.stale :=
    SortedMap.beside_of_iff fun stream since here => by
      rw [stale_applyStrategy, stale_applyStrategy, beside.stale stream here, beside.mem_marks here]
  cases strategy with
  | keep =>
    refine { beside with stale, streams := SortedMap.beside_of_iff fun stream config here => ?_ }
    have forgotten : stream ∈ (one.applyStrategy wanted .keep now).1 ↔
        stream ∈ (other.applyStrategy wanted .keep now).1 := beside.mem_forgotten here
    change stream ∈ one.absentStreams wanted ↔ stream ∈ other.absentStreams wanted at forgotten
    show (List.foldl SortedMap.erase one.streams _).get? stream = some config ↔
      (List.foldl SortedMap.erase other.streams _).get? stream = some config
    rw [SortedMap.get?_foldl_erase, SortedMap.get?_foldl_erase, beside.streams stream here, forgotten]
  | afterAbsence wait => exact { beside with stale }
  | named streams wait => exact { beside with stale }

/-- Beside the streams apart the same ones are due, in the same order. -/
theorem Beside.filter_expiredStreams [DecidablePred apart] (beside : Beside apart one other) :
    (one.expiredStreams strategy now).filter (¬apart ·) =
      (other.expiredStreams strategy now).filter (¬apart ·) := by
  have noted : one.stale.filter (fun stream _ => ¬apart stream) =
      other.stale.filter (fun stream _ => ¬apart stream) := by
    refine SortedMap.ext_get? fun stream => ?_
    rw [SortedMap.get?_filter, SortedMap.get?_filter]
    by_cases isApart : apart stream
    · simp [isApart]
    · rw [beside.stale stream isApart]
  have entries := congrArg SortedMap.entries noted
  simp only [SortedMap.filter] at entries
  unfold expiredStreams
  cases strategy.waitPeriod? with
  | none => rfl
  | some wait =>
    have dueAmong (entries : List (StreamIdentifier × Nat)) :
        ((entries.filter fun entry => decide (wait ≤ now - entry.2)).map (·.1)).filter (¬apart ·) =
          ((entries.filter fun entry => ¬apart entry.1).filter
            fun entry => decide (wait ≤ now - entry.2)).map (·.1) := by
      simp only [List.filter_map, List.filter_filter, Function.comp_def, Bool.and_comm]
    rw [dueAmong, dueAmong, entries]

/-! ## Passes -/

namespace Stand

variable {first second : Circumstances} {one between other : Stand}

/-- Two passes stand at the same, beside the streams apart. -/
structure Beside (apart : StreamIdentifier → Prop) (one other : Stand) : Prop where
  changed : SortedMap.Beside apart one.changed other.changed
  synchronizer : one.synchronizer.Beside apart other.synchronizer
  table : SortedMap.Beside (KeyApart apart) one.table other.table

theorem Beside.refl (stand : Stand) : Beside apart stand stand := ⟨.refl _, .refl _, .refl _⟩

theorem Beside.symm (beside : Beside apart one other) : Beside apart other one :=
  ⟨beside.changed.symm, beside.synchronizer.symm, beside.table.symm⟩

theorem Beside.trans (early : Beside apart one between) (late : Beside apart between other) :
    Beside apart one other :=
  ⟨early.changed.trans late.changed, early.synchronizer.trans late.synchronizer, early.table.trans late.table⟩

theorem syncNew_tidy (plain : first.Plain) (tidy : one.table.Tidy) (config : StreamConfig) :
    (one.syncNew first config).table.Tidy := by
  unfold Stand.syncNew
  split
  next listed listing => exact ShardSync.synced_tidy (plain _ _ listing) tidy
  next => exact tidy

theorem foldl_syncNew_tidy (plain : first.Plain) (configs : List StreamConfig) (tidy : one.table.Tidy) :
    (configs.foldl (Stand.syncNew first) one).table.Tidy := by
  induction configs generalizing one with
  | nil => exact tidy
  | cons config rest ih => exact ih (syncNew_tidy plain tidy config)

theorem Beside.syncNew (beside : Beside apart one other) (multi : one.synchronizer.sync.multi = true)
    (plain : first.Plain) (tidy : one.table.Tidy) (tidyOther : other.table.Tidy) {config : StreamConfig}
    (here : ¬apart config.stream) (same : first.shards config = second.shards config) :
    Beside apart (one.syncNew first config) (other.syncNew second config) := by
  unfold Stand.syncNew
  rw [← same]
  cases listing : first.shards config with
  | error reason => exact beside
  | ok listed =>
    refine ⟨beside.changed.insert _ _, beside.synchronizer.activate here, ?_⟩
    simp only [← beside.synchronizer.sync]
    exact ShardSync.synced_beside multi (plain _ _ listing) tidy tidyOther beside.table

theorem beside_syncNew (multi : one.synchronizer.sync.multi = true) (plain : first.Plain)
    (tidy : one.table.Tidy) {config : StreamConfig} (isApart : apart config.stream) :
    Beside apart one (one.syncNew first config) := by
  unfold Stand.syncNew
  split
  next listed listing =>
    exact ⟨SortedMap.beside_insert isApart _, beside_activate isApart,
      ShardSync.beside_synced multi (plain _ _ listing) tidy isApart⟩
  next => exact .refl one

/-- New streams are synced, where only the listings of streams apart differ. -/
theorem Beside.foldl_syncNew {configs : List StreamConfig} (beside : Beside apart one other)
    (multi : one.synchronizer.sync.multi = true) (plain : first.Plain) (plainOther : second.Plain)
    (tidy : one.table.Tidy) (tidyOther : other.table.Tidy)
    (same : ∀ config ∈ configs, ¬apart config.stream → first.shards config = second.shards config) :
    Beside apart (configs.foldl (Stand.syncNew first) one) (configs.foldl (Stand.syncNew second) other) := by
  induction configs generalizing one other with
  | nil => exact beside
  | cons config rest ih =>
    obtain ⟨sameHere, sameLater⟩ := List.forall_mem_cons.1 same
    have multiOther : other.synchronizer.sync.multi = true := beside.synchronizer.sync ▸ multi
    refine ih ?_ (by rw [syncNew_sync, multi]) (syncNew_tidy plain tidy config)
      (syncNew_tidy plainOther tidyOther config) sameLater
    by_cases isApart : apart config.stream
    · exact ((beside_syncNew multi plain tidy isApart).symm.trans beside).trans
        (beside_syncNew multiOther plainOther tidyOther isApart)
    · exact beside.syncNew multi plain tidy tidyOther isApart (sameHere isApart)

theorem delete_tidy (tidy : one.table.Tidy) (stream : StreamIdentifier) : (one.delete stream).table.Tidy :=
  tidy.of_less fun _ _ found => ((LeaseTable.get?_eraseAll_filter tidy.keyed).1 found).1

theorem Beside.delete (beside : Beside apart one other) (tidy : one.table.Tidy) (tidyOther : other.table.Tidy)
    (stream : StreamIdentifier) : Beside apart (one.delete stream) (other.delete stream) where
  changed := beside.changed.insert stream ()
  synchronizer := beside.synchronizer.dropStream stream
  table := SortedMap.beside_of_iff fun leaseKey lease key => by
    simp only [Stand.delete, LeaseTable.get?_eraseAll_filter tidy.keyed,
      LeaseTable.get?_eraseAll_filter tidyOther.keyed, beside.table leaseKey key, beside.synchronizer.sync]

theorem beside_delete (multi : one.synchronizer.sync.multi = true) (tidy : one.table.Tidy)
    (isApart : apart stream) : Beside apart one (one.delete stream) where
  changed := SortedMap.beside_insert isApart ()
  synchronizer := beside_dropStream isApart
  table := SortedMap.beside_of_iff fun leaseKey lease key => by
    simp only [Stand.delete, LeaseTable.get?_eraseAll_filter tidy.keyed]
    refine ⟨fun found => ⟨found, Bool.eq_false_iff.2 fun covered => ?_⟩, And.left⟩
    exact key (tidy.keyApart found isApart ((ShardSync.covers_iff multi).1 covered))

theorem foldl_delete_tidy (streams : List StreamIdentifier) (tidy : one.table.Tidy) :
    (streams.foldl delete one).table.Tidy := by
  induction streams generalizing one with
  | nil => exact tidy
  | cons stream rest ih => exact ih (delete_tidy tidy stream)

/-- Of several streams that are deleted, those apart may be left out. -/
theorem beside_foldl_delete [DecidablePred apart] (streams : List StreamIdentifier)
    (multi : one.synchronizer.sync.multi = true) (tidy : one.table.Tidy) (tidyOther : other.table.Tidy)
    (beside : Beside apart one other) :
    Beside apart (streams.foldl delete one) ((streams.filter (¬apart ·)).foldl delete other) := by
  induction streams generalizing one other with
  | nil => exact beside
  | cons stream rest ih =>
    by_cases isApart : apart stream
    · rw [List.filter_cons_of_neg (by simpa using isApart)]
      exact ih multi (delete_tidy tidy stream) tidyOther ((beside_delete multi tidy isApart).symm.trans beside)
    · rw [List.filter_cons_of_pos (by simpa using isApart)]
      exact ih multi (delete_tidy tidy stream) (delete_tidy tidyOther stream)
        (beside.delete tidy tidyOther stream)

theorem Beside.foldl_delete [DecidablePred apart] {streams streamsOther : List StreamIdentifier}
    (beside : Beside apart one other) (multi : one.synchronizer.sync.multi = true) (tidy : one.table.Tidy)
    (tidyOther : other.table.Tidy) (same : streams.filter (¬apart ·) = streamsOther.filter (¬apart ·)) :
    Beside apart (streams.foldl Stand.delete one) (streamsOther.foldl Stand.delete other) := by
  have multiOther : other.synchronizer.sync.multi = true := beside.synchronizer.sync ▸ multi
  have mine := beside_foldl_delete streams multi tidy tidyOther beside
  have theirs : Beside apart (streamsOther.foldl Stand.delete other) _ :=
    beside_foldl_delete streamsOther multiOther tidyOther tidyOther (.refl other)
  rw [same] at mine
  exact mine.trans theirs.symm

theorem Beside.retire (beside : Beside apart one other) (multi : one.synchronizer.sync.multi = true)
    (tidy : one.table.Tidy) (tidyOther : other.table.Tidy)
    (sameStrategy : first.strategy = second.strategy) (sameInstant : first.instant = second.instant)
    (wanted : SortedMap StreamIdentifier StreamConfig) :
    Beside apart (one.retire first wanted) (other.retire second wanted) := by
  classical
  have applied : (one.synchronizer.applyStrategy wanted first.strategy first.instant).2.Beside apart
      (other.synchronizer.applyStrategy wanted first.strategy first.instant).2 :=
    beside.synchronizer.applyStrategy
  unfold Stand.retire
  rw [← sameStrategy, ← sameInstant]
  refine Beside.foldl_delete ⟨?_, applied, beside.table⟩ ?_ tidy tidyOther applied.filter_expiredStreams
  · exact SortedSet.beside_insertAll beside.changed fun stream here => beside.synchronizer.mem_forgotten here
  · exact (applyStrategy_sync ..).symm ▸ multi

end Stand

/-- Beside the streams apart a pass leaves the same, whatever shards are listed for those. -/
theorem passed_beside {first second : Circumstances} {synchronizer : Synchronizer} {table : LeaseTable}
    (multi : synchronizer.sync.multi = true) (tidy : table.Tidy) (plain : first.Plain)
    (plainOther : second.Plain)
    (same : ∀ config ∈ first.tracked, ¬apart config.stream → first.shards config = second.shards config)
    (others : second = { first with shards := second.shards }) :
    Stand.Beside apart (synchronizer.passed first table) (synchronizer.passed second table) := by
  have sameTracked : second.tracked = first.tracked := by rw [others]
  have sameStrategy : first.strategy = second.strategy := by rw [others]
  have sameInstant : first.instant = second.instant := by rw [others]
  have sameBase : synchronizer.takenIn second table = synchronizer.takenIn first table := by
    rw [others]
    rfl
  have multiBase := synchronizer.takenIn_sync first table ▸ multi
  unfold passed
  rw [sameBase, sameTracked]
  have before : Stand.Beside apart ⟨.empty, synchronizer.takenIn first table, table⟩
    ⟨.empty, synchronizer.takenIn first table, table⟩ := .refl _
  let base := synchronizer.takenIn first table
  have synced := before.foldl_syncNew multiBase plain plainOther tidy tidy
    fun config (mem : config ∈ base.newStreams (base.streamsToConsume first.tracked)) =>
      same config (mem_of_mem_newStreams mem)
  have retired := synced.retire (by rw [foldl_syncNew_sync]; exact multiBase)
    (Stand.foldl_syncNew_tidy plain _ tidy) (Stand.foldl_syncNew_tidy plainOther _ tidy) sameStrategy sameInstant
    ((synchronizer.takenIn first table).streamsToConsume first.tracked)
  refine ⟨retired.changed, { retired.synchronizer with lastSync := ?_ }, retired.table⟩
  rw [sameInstant]

theorem passed_tidy {around : Circumstances} {synchronizer : Synchronizer} {table : LeaseTable}
    (plain : around.Plain) (tidy : table.Tidy) : (synchronizer.passed around table).table.Tidy :=
  Stand.foldl_delete_tidy _ (Stand.foldl_syncNew_tidy plain _ tidy)

/-- Streams do not interfere. Two passes over several streams for which only the shards of one stream are
listed differently, or not at all, go to their end: they leave the same leases for the other streams, know
the same about these, and report the same of them. -/
theorem streams_do_not_interfere {σ Job : Type} {stopped : σ → Bool} {synchronizer : Synchronizer}
    {around : Circumstances} {shards : StreamConfig → Except String (List ShardDescription)}
    {table : LeaseTable} {stream : StreamIdentifier} (multi : synchronizer.sync.multi = true)
    (read : ∀ config ∈ around.tracked, ∃ text, StreamIdentifier.ofMulti text = .ok config.stream)
    (tidy : table.Tidy) (plain : around.Plain) (plainOther : { around with shards }.Plain)
    (same : ∀ config, config.stream ≠ stream → around.shards config = shards config) (force : Bool) :
    ∃ changed next after changedOther nextOther afterOther,
      (synchronizer.runPass stopped force : Script σ Job _).outcome around table =
          some ((.ok changed, next), after) ∧
        (synchronizer.runPass stopped force : Script σ Job _).outcome { around with shards } table =
          some ((.ok changedOther, nextOther), afterOther) ∧
        (∀ leaseKey lease, lease.stream ≠ some stream.serialize →
          (after.get? leaseKey = some lease ↔ afterOther.get? leaseKey = some lease)) ∧
        (∀ other text, other ≠ stream → StreamIdentifier.ofMulti text = .ok other →
          ∀ leaseKey lease, lease.stream = some other.serialize →
            (after.get? leaseKey = some lease ↔ afterOther.get? leaseKey = some lease)) ∧
        next.Beside (· = stream) nextOther ∧
        ∀ other, other ≠ stream → changed.contains other = changedOther.contains other := by
  rw [runPass_outcome multi, runPass_outcome multi]
  by_cases skipped : (!force && !synchronizer.isDue around.instant) = true
  · exact ⟨_, _, _, _, _, _, if_pos skipped, if_pos skipped, fun _ _ _ => .rfl, fun _ _ _ _ _ _ _ => .rfl,
      .refl synchronizer, fun _ _ => rfl⟩
  -- a stream that the tracker does not list is not synced at all
  let apart (other : StreamIdentifier) : Prop :=
    other = stream ∧ ∃ config ∈ around.tracked, config.stream = other
  have beside : Stand.Beside apart (synchronizer.passed around table)
      (synchronizer.passed { around with shards } table) :=
    passed_beside multi tidy plain plainOther
      (fun config mem here => same config fun isIt => here ⟨isIt, config, mem, rfl⟩) rfl
  have tidyOne : (synchronizer.passed around table).table.Tidy := passed_tidy plain tidy
  have tidyOther : (synchronizer.passed { around with shards } table).table.Tidy := passed_tidy plainOther tidy
  have stays {leaseKey : String} {lease : Lease}
      (differs : ∀ other, apart other → lease.stream ≠ some other.serialize) :
      (synchronizer.passed around table).table.get? leaseKey = some lease ↔
        (synchronizer.passed { around with shards } table).table.get? leaseKey = some lease := by
    by_cases key : KeyApart apart leaseKey
    · refine iff_of_false (fun found => ?_) fun found => ?_
      · obtain ⟨other, isApart, carries⟩ := tidyOne.stream_apart found key
        exact differs other isApart carries
      · obtain ⟨other, isApart, carries⟩ := tidyOther.stream_apart found key
        exact differs other isApart carries
    · rw [beside.table leaseKey key]
  have here (other : StreamIdentifier) (differs : other ≠ stream) : ¬apart other := fun isApart =>
    differs isApart.1
  refine ⟨_, _, _, _, _, _, if_neg skipped, if_neg skipped, fun leaseKey lease differs => stays ?_,
    fun other text differs readOther leaseKey lease carries => stays ?_, ?_, fun other differs => ?_⟩
  · rintro other ⟨rfl, -⟩
    exact differs
  · rintro listed ⟨rfl, config, mem, isIt⟩ carriesIt
    obtain ⟨textIt, readIt⟩ := read config mem
    rw [isIt] at readIt
    exact differs (StreamIdentifier.serialize_injective readOther readIt
      (Option.some.inj (carries.symm.trans carriesIt)))
  · have known := beside.synchronizer
    exact { known with
      arns := { known.arns with arns := fun other differs => known.arns.arns other (here other differs) }
      streams := fun other differs => known.streams other (here other differs)
      stale := fun other differs => known.stale other (here other differs) }
  · exact beside.changed.contains (here other differs)

/-- Of two new streams one is listed in only one of two passes; the other one is reported in both. -/
theorem streams_do_not_interfere_of_unlisted :
    let orders : StreamIdentifier := .ofEpoch "123456789012" "orders" "1"
    let payments : StreamIdentifier := .ofEpoch "123456789012" "payments" "1"
    let listing (config : StreamConfig) : Except String (List ShardDescription) :=
      if config.stream = payments then .error "denied" else .ok [{ shardId := "shard-0", parents := [] }]
    let around : Circumstances :=
      { shards := fun _ => .ok [{ shardId := "shard-0", parents := [] }]
        tracked := [.ofStream orders .latest, .ofStream payments .latest]
        strategy := .keep, position := .latest, instant := 0 }
    ∃ changed next after changedOther nextOther afterOther,
      (blankSynchronizer.runPass (fun _ => false) true : Script Unit Unit _).outcome around .empty =
          some ((.ok changed, next), after) ∧
        (blankSynchronizer.runPass (fun _ => false) true : Script Unit Unit _).outcome
            { around with shards := listing } .empty =
          some ((.ok changedOther, nextOther), afterOther) ∧
        next.Beside (· = payments) nextOther ∧
        changed.contains orders = changedOther.contains orders := by
  intro orders payments listing around
  have differs : orders ≠ payments := by decide
  have tidy : LeaseTable.Tidy .empty := ⟨fun _ _ found => (by cases found), fun _ _ found => (by cases found)⟩
  have plainShard : ShardSync.Plain [{ shardId := "shard-0", parents := [] }] := by
    simp [ShardSync.Plain]
  have plain : around.Plain := by
    rintro config listed ⟨⟩
    exact plainShard
  have plainOther : { around with shards := listing }.Plain := by
    intro config listed found
    dsimp only [listing] at found
    split at found
    · cases found
    · cases found
      exact plainShard
  have read : ∀ config ∈ around.tracked, ∃ text, StreamIdentifier.ofMulti text = .ok config.stream := by
    intro config mem
    obtain rfl | rfl := by simpa [around] using mem
    · have form : StreamIdentifier.EpochForm "123456789012:orders:1" "123456789012" "orders" "1" := by
        constructor <;> decide +kernel
      exact ⟨_, form.read⟩
    · have form : StreamIdentifier.EpochForm "123456789012:payments:1" "123456789012" "payments" "1" := by
        constructor <;> decide +kernel
      exact ⟨_, form.read⟩
  have same (config : StreamConfig) (other : config.stream ≠ payments) :
      around.shards config = listing config := (if_neg other).symm
  obtain ⟨changed, next, after, changedOther, nextOther, afterOther, ends, endsOther, -, -, beside, reports⟩ :=
    @streams_do_not_interfere Unit Unit (fun _ => false) blankSynchronizer around listing .empty payments rfl
      read tidy plain plainOther same true
  exact ⟨changed, next, after, changedOther, nextOther, afterOther, ends, endsOther, beside,
    reports orders differs⟩

end Synchronizer

end LeaseFleet
