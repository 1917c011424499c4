import LeaseFleet.Proofs.Sync.PassSets

/-!
# What undisturbed scripts come to

A script that has the lease table for itself, while the store carries out every call and all else that it
asks has one answer: it comes to one value and leaves one table (`Script.outcome`). A stream whose shards
are listed is synced completely, one whose listing fails is left as it is, and all leases of a stream are
deleted when it is its turn (`syncNewStreams_outcome`, `deleteStreams_outcome`).
-/

namespace LeaseFleet

/-- What a pass finds outside the store: what is answered for each stream, and the rest. -/
structure Circumstances where
  shards : StreamConfig → Except String (List ShardDescription)
  tracked : List StreamConfig
  strategy : DeletionStrategy
  position : InitialPosition
  instant : Nat

/-- The answer to a question, and the table after it. -/
def Circumstances.answer (around : Circumstances) (table : LeaseTable) :
    (query : Query) → query.Reply × LeaseTable
  | .store call => table.perform call
  | .shards config => (around.shards config, table)
  | .trackedStreams => (around.tracked, table)
  | .deletionStrategy => (around.strategy, table)
  | .orphanPosition => (around.position, table)
  | .clock => (around.instant, table)
  | query => (Interleaving.plainReply query, table)

variable {σ Job α β : Type} {around : Circumstances} {table between after : LeaseTable} {stopped : σ → Bool}

namespace Script

/-- The value that a script comes to, and the table that it leaves; nothing if it looks at the state of
its worker. -/
def outcome (around : Circumstances) : Script σ Job α → LeaseTable → Option (α × LeaseTable)
  | done value, table => some (value, table)
  | ask query next, table =>
    (next (around.answer table query).1).outcome around (around.answer table query).2
  | step _ _ _, _ => none
  | sleep _ _ next, table => (next true).outcome around table
  | spawn _ next, table | gather _ next, table => next.outcome around table

/-- Where one script has ended, the next one begins. -/
theorem outcome_bind {script : Script σ Job α} {following : α → Script σ Job β} {value : α}
    (first : script.outcome around table = some (value, between)) :
    (script.bind following).outcome around table = (following value).outcome around between := by
  induction script generalizing table with
  | done result =>
    cases first
    rfl
  | ask query next ih => exact ih _ first
  | step ready change next => cases first
  | sleep millis stopped next ih => exact ih true first
  | spawn job next ih => exact ih first
  | gather jobs next ih => exact ih first

end Script

/-- A call that the store carries out is made once. -/
theorem RetryPolicy.store_outcome (policy : RetryPolicy) {call : StoreCall} {answer : call.Answer}
    (answered : (table.perform call).1 = .ok answer) :
    (policy.store stopped call : Script σ Job _).outcome around table =
      some (.ok answer, (table.perform call).2) := by
  have attempt {next : call.Reply → Script σ Job (Except WorkerError call.Answer)} :
      (Script.ask (.store call) next).outcome around table =
        (next (.ok answer)).outcome around (table.perform call).2 := by
    rw [← answered]
    rfl
  unfold store run
  cases policy.maxAttempts - 1 with
  | zero => exact attempt
  | succ left => exact attempt

namespace ShardSync

variable {sync : ShardSync} {config : StreamConfig} {listed : List ShardDescription}

theorem streamLeases_outcome (stream : StreamIdentifier) :
    (sync.streamLeases stopped stream : Script σ Job _).outcome around table =
      some (.ok (table.leases.filter (sync.covers stream)), table) :=
  Script.outcome_bind (sync.retry.store_outcome rfl)

theorem createLeases_outcome {leases : List Lease} (named : Named leases) (count : Nat) :
    ∃ created, (sync.createLeases stopped leases count : Script σ Job _).outcome around table =
      some (.ok created, table.createAll leases) := by
  induction leases generalizing table count with
  | nil => exact ⟨count, rfl⟩
  | cons lease rest ih =>
    obtain ⟨named, restNamed⟩ := named_cons.1 named
    obtain ⟨isNew, answered⟩ : ∃ isNew, (table.perform (.create lease)).1 = .ok isNew := by
      cases outcome : (table.create lease).1 with
      | ok isNew => exact ⟨isNew, outcome⟩
      | error error => exact absurd (table.leaseKey_of_create_error outcome) named
    obtain ⟨created, others⟩ := ih restNamed (if isNew then count + 1 else count)
    exact ⟨created, (Script.outcome_bind (sync.retry.store_outcome answered)).trans others⟩

theorem deleteLeases_outcome (leases : List Lease) :
    (sync.deleteLeases stopped leases : Script σ Job _).outcome around table =
      some (.ok (), table.eraseAll leases) := by
  induction leases generalizing table with
  | nil => rfl
  | cons lease rest ih => exact (Script.outcome_bind (sync.retry.store_outcome rfl)).trans ih

/-- A stream whose shards are listed is synced completely. -/
theorem syncStream_outcome (listing : around.shards config = .ok listed)
    (named : Named (sync.missing config listed table)) :
    ∃ report, (sync.syncStream stopped config : Script σ Job _).outcome around table =
      some (.ok report, sync.synced config listed table) := by
  obtain ⟨created, creates⟩ : ∃ created,
      (sync.createLeases stopped (sync.missing config listed table) 0 : Script σ Job _).outcome around table =
        some (.ok created, table.createAll (sync.missing config listed table)) :=
    sync.createLeases_outcome named 0
  have shards : (Script.query (.shards config) : Script σ Job _).outcome around table =
      some (.ok listed, table) := by
    rw [← listing]
    rfl
  refine ⟨{ created, deleted := (sync.finished config listed table).length },
    (Script.outcome_bind shards).trans ((Script.outcome_bind (sync.streamLeases_outcome _)).trans ?_)⟩
  exact (Script.outcome_bind creates).trans ((Script.outcome_bind (sync.deleteLeases_outcome _)).trans rfl)

theorem syncStream_outcome_of_unlisted {reason : String} (listing : around.shards config = .error reason) :
    (sync.syncStream stopped config : Script σ Job _).outcome around table =
      some (.error (.shardDiscovery config.stream.serialize reason), table) := by
  have shards : (Script.query (.shards config) : Script σ Job _).outcome around table =
      some (.error reason, table) := by
    rw [← listing]
    rfl
  exact Script.outcome_bind shards

/-- All leases of a stream are deleted. -/
theorem deleteStreamLeases_outcome (stream : StreamIdentifier) :
    ∃ count, (sync.deleteStreamLeases stopped stream : Script σ Job _).outcome around table =
      some (.ok count, table.eraseAll (table.leases.filter (sync.covers stream))) :=
  ⟨_, (Script.outcome_bind (sync.streamLeases_outcome stream)).trans
    ((Script.outcome_bind (sync.deleteLeases_outcome _)).trans rfl)⟩

end ShardSync

namespace Synchronizer

/-- Where a pass stands: what it will report, what is tracked, and the table. -/
structure Stand where
  changed : Changed
  synchronizer : Synchronizer
  table : LeaseTable

namespace Stand

variable (around : Circumstances) (stand : Stand)

/-- A new stream is synced and tracked, unless its shards are not listed. -/
def syncNew (config : StreamConfig) : Stand :=
  match around.shards config with
  | .ok listed =>
    { changed := stand.changed.insert config.stream ()
      synchronizer := stand.synchronizer.activate config
      table := stand.synchronizer.sync.synced config listed stand.table }
  | .error _ => stand

/-- The leases of a stream are deleted, and nothing is known any more about it. -/
def delete (stream : StreamIdentifier) : Stand where
  changed := stand.changed.insert stream ()
  synchronizer := stand.synchronizer.dropStream stream
  table := stand.table.eraseAll (stand.table.leases.filter (stand.synchronizer.sync.covers stream))

/-- Streams that are no longer to be consumed are dealt with. -/
def retire (wanted : SortedMap StreamIdentifier StreamConfig) : Stand :=
  let applied := stand.synchronizer.applyStrategy wanted around.strategy around.instant
  (applied.2.expiredStreams around.strategy around.instant).foldl delete
    { stand with changed := SortedSet.insertAll stand.changed applied.1, synchronizer := applied.2 }

end Stand

variable {synchronizer : Synchronizer}

/-- Once the streams of the leases have been taken in. -/
def takenIn (synchronizer : Synchronizer) (around : Circumstances) (table : LeaseTable) : Synchronizer :=
  if synchronizer.reconciled then synchronizer
  else synchronizer.adoptOrphans (synchronizer.streamsToConsume around.tracked) around.position table.leases

/-- Where a pass over several streams stands at its end. -/
def passed (synchronizer : Synchronizer) (around : Circumstances) (table : LeaseTable) : Stand :=
  let base := synchronizer.takenIn around table
  let wanted := base.streamsToConsume around.tracked
  let stand := ((base.newStreams wanted).foldl (Stand.syncNew around) ⟨.empty, base, table⟩).retire around wanted
  { stand with synchronizer := { stand.synchronizer with lastSync := some around.instant } }

theorem takenIn_sync (synchronizer : Synchronizer) (around : Circumstances) (table : LeaseTable) :
    (synchronizer.takenIn around table).sync = synchronizer.sync := by
  unfold takenIn
  split
  · rfl
  · exact (adoptOrphans_sameNotes ..).sync

theorem syncNew_sync (stand : Stand) (config : StreamConfig) :
    (stand.syncNew around config).synchronizer.sync = stand.synchronizer.sync := by
  unfold Stand.syncNew
  split
  · exact (activate_sameNotes _ config).sync
  · rfl

theorem foldl_syncNew_sync (configs : List StreamConfig) (stand : Stand) :
    (configs.foldl (Stand.syncNew around) stand).synchronizer.sync = stand.synchronizer.sync := by
  induction configs generalizing stand with
  | nil => rfl
  | cons config rest ih => rw [List.foldl_cons, ih, syncNew_sync]

theorem named_missing (multi : synchronizer.sync.multi = true) (config : StreamConfig)
    (listed : List ShardDescription) (table : LeaseTable) :
    Named (synchronizer.sync.missing config listed table) := by
  intro lease mem
  obtain ⟨shard, -, rfl⟩ := List.mem_map.1 mem
  rw [ShardSync.newLease_leaseKey, ShardSync.shardKey, ShardSync.leaseStream, if_pos multi]
  intro blank
  simpa [leaseKeyFor] using congrArg String.toList blank

/-- The new streams are synced one after another. -/
theorem syncNewStreams_outcome (configs : List StreamConfig) (stand : Stand)
    (multi : stand.synchronizer.sync.multi = true) :
    (syncNewStreams stopped configs stand.synchronizer stand.changed : Script σ Job _).outcome around
        stand.table =
      let last := configs.foldl (Stand.syncNew around) stand
      some ((last.changed, last.synchronizer), last.table) := by
  induction configs generalizing stand with
  | nil => rfl
  | cons config rest ih =>
    have others := ih (stand.syncNew around config) (by rw [syncNew_sync, multi])
    rw [List.foldl_cons, ← others]
    cases listing : around.shards config with
    | ok listed =>
      obtain ⟨report, syncs⟩ : ∃ report,
          (stand.synchronizer.sync.syncStream stopped config : Script σ Job _).outcome around stand.table =
            some (.ok report, stand.synchronizer.sync.synced config listed stand.table) :=
        ShardSync.syncStream_outcome listing (named_missing multi config listed stand.table)
      simp only [Stand.syncNew, listing]
      exact Script.outcome_bind syncs
    | error reason =>
      simp only [Stand.syncNew, listing]
      exact Script.outcome_bind (ShardSync.syncStream_outcome_of_unlisted listing)

/-- The due streams are deleted one after another. -/
theorem deleteStreams_outcome (streams : List StreamIdentifier) (stand : Stand) :
    (deleteStreams stopped streams stand.synchronizer stand.changed : Script σ Job _).outcome around
        stand.table =
      let last := streams.foldl Stand.delete stand
      some ((last.changed, last.synchronizer), last.table) := by
  induction streams generalizing stand with
  | nil => rfl
  | cons stream rest ih =>
    obtain ⟨count, deletes⟩ : ∃ count,
        (stand.synchronizer.sync.deleteStreamLeases stopped stream : Script σ Job _).outcome around
            stand.table =
          some (.ok count, (stand.delete stream).table) :=
      ShardSync.deleteStreamLeases_outcome stream
    exact (Script.outcome_bind deletes).trans (ih (stand.delete stream))

theorem retireStreams_outcome (wanted : SortedMap StreamIdentifier StreamConfig) (stand : Stand) :
    (stand.synchronizer.retireStreams stopped wanted stand.changed : Script σ Job _).outcome around
        stand.table =
      some (((stand.retire around wanted).changed, (stand.retire around wanted).synchronizer),
        (stand.retire around wanted).table) :=
  let applied := stand.synchronizer.applyStrategy wanted around.strategy around.instant
  deleteStreams_outcome (applied.2.expiredStreams around.strategy around.instant)
    { stand with changed := SortedSet.insertAll stand.changed applied.1, synchronizer := applied.2 }

theorem reconcile_outcome (multi : synchronizer.sync.multi = true) :
    (synchronizer.reconcile stopped : Script σ Job _).outcome around table =
      some (.ok (synchronizer.takenIn around table), table) := by
  unfold reconcile takenIn
  cases done : synchronizer.reconciled with
  | true => simp [multi, Script.outcome, pure]
  | false =>
    rw [if_pos (by simp [multi])]
    exact Script.outcome_bind (synchronizer.sync.retry.store_outcome rfl)

/-- A pass over several streams is skipped or goes through to its end. -/
theorem runPass_outcome (multi : synchronizer.sync.multi = true) (force : Bool) :
    (synchronizer.runPass stopped force : Script σ Job _).outcome around table =
      if !force && !synchronizer.isDue around.instant then some ((.ok .empty, synchronizer), table)
      else
        let last := synchronizer.passed around table
        some ((.ok last.changed, last.synchronizer), last.table) := by
  have clock : (Script.query .clock : Script σ Job _).outcome around table = some (around.instant, table) := rfl
  refine (Script.outcome_bind clock).trans ?_
  split
  · rfl
  have base := synchronizer.takenIn_sync around table ▸ multi
  refine (Script.outcome_bind (reconcile_outcome multi)).trans ?_
  have tracked : (Script.query .trackedStreams : Script σ Job _).outcome around table =
      some (around.tracked, table) := rfl
  refine (Script.outcome_bind tracked).trans ?_
  refine (Script.outcome_bind (syncNewStreams_outcome _ ⟨.empty, _, table⟩ base)).trans ?_
  dsimp only
  rw [if_pos (by rw [foldl_syncNew_sync]; exact base)]
  exact (Script.outcome_bind (retireStreams_outcome _ _)).trans rfl

end Synchronizer

end LeaseFleet
