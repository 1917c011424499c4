import LeaseFleet.Proofs.Sync.ShardSync

/-!
# Runs of shard sync

A sync that is alone with the table is exact and takes up where an earlier one was cut off
(`syncStream_exact`).
-/

namespace LeaseFleet

namespace ShardSync

variable {sync : ShardSync} {config : StreamConfig} {listed : List ShardDescription}
  {table now : LeaseTable}

/-! ## The loops -/

section

variable {σ Job : Type} {around : Surroundings} {stopped : σ → Bool} {always : LeaseTable → Prop}

theorem streamLeases_ensures {wanted : Except WorkerError (List Lease) → LeaseTable → Prop}
    (now : always table) (answered : wanted (.ok (sync.leasesOf config table)) table)
    (failed : around.mayFail → ∀ reason, wanted (.error reason) table) :
    (sync.streamLeases stopped config.stream : Script σ Job _).Ensures around always wanted table := by
  refine Script.ensures_bind.2 (sync.retry.store_ensures stopped now now (fun leases same => ?_) ?_)
  · cases same
    exact ⟨now, answered⟩
  · rintro (may | ⟨error, refused⟩) reason
    · exact ⟨now, failed may reason⟩
    · cases refused

/-- Creating leases one after another comes to the tables that begin so, and counts what is new. -/
theorem createLeases_ensures {wanted : Except WorkerError Nat → LeaseTable → Prop} {leases : List Lease}
    {count : Nat}
    (along : ∀ created rest, leases = created ++ rest → Named created → always (table.createAll created))
    (ended : Named leases → ∀ total, total + table.size = count + (table.createAll leases).size →
      wanted (.ok total) (table.createAll leases))
    (failed : around.mayFail ∨ ¬Named leases → ∀ now, always now → ∀ reason, wanted (.error reason) now) :
    (sync.createLeases stopped leases count : Script σ Job _).Ensures around always wanted table := by
  induction leases generalizing table count with
  | nil => exact ⟨along [] [] rfl named_nil, ended named_nil count rfl⟩
  | cons lease rest ih =>
    have first := along [] (lease :: rest) rfl named_nil
    have second : always (table.create lease).2 := by
      by_cases blank : lease.leaseKey = ""
      · rwa [LeaseTable.create, if_pos blank]
      · exact along [lease] rest rfl (named_cons.2 ⟨blank, named_nil⟩)
    refine Script.ensures_bind.2 (sync.retry.store_ensures stopped first second (fun isNew same => ?_) ?_)
    · have named : lease.leaseKey ≠ "" := by
        intro blank
        simp [LeaseTable.perform, LeaseTable.create, blank] at same
      have grown := table.size_create same
      refine ih (fun created others part isNamed => ?_) (fun restNamed total sum => ?_) fun cause => ?_
      · exact along (lease :: created) others (congrArg (lease :: ·) part) (named_cons.2 ⟨named, isNamed⟩)
      · refine ended (named_cons.2 ⟨named, restNamed⟩) total ?_
        have performed : (table.perform (.create lease)).2 = (table.create lease).2 := rfl
        rw [performed, grown] at sum
        show total + table.size = count + ((table.create lease).2.createAll rest).size
        cases isNew with
        | true => rw [if_pos rfl, if_pos rfl] at sum; omega
        | false => exact sum
      · exact failed (cause.imp_right fun notNamed named => notNamed (named_cons.1 named).2)
    · rintro cause reason
      refine ⟨first, failed (cause.imp_right ?_) table first reason⟩
      rintro ⟨error, refused⟩ named
      exact (named_cons.1 named).1 (table.leaseKey_of_create_error refused)

theorem deleteLeases_ensures {wanted : Except WorkerError Unit → LeaseTable → Prop} {leases : List Lease}
    (along : ∀ erased rest, leases = erased ++ rest → always (table.eraseAll erased))
    (ended : wanted (.ok ()) (table.eraseAll leases))
    (failed : around.mayFail → ∀ now, always now → ∀ reason, wanted (.error reason) now) :
    (sync.deleteLeases stopped leases : Script σ Job _).Ensures around always wanted table := by
  induction leases generalizing table with
  | nil => exact ⟨along [] [] rfl, ended⟩
  | cons lease rest ih =>
    have first := along [] (lease :: rest) rfl
    have second : always (table.erase lease.leaseKey) := along [lease] rest rfl
    refine Script.ensures_bind.2 (sync.retry.store_ensures stopped first second (fun _ _ => ?_) ?_)
    · exact ih (fun erased others part => along (lease :: erased) others (congrArg (lease :: ·) part)) ended
    · rintro (may | ⟨error, refused⟩) reason
      · exact ⟨first, failed may table first reason⟩
      · cases refused

/-- What a sync that is alone with the table comes to, and how it ends. -/
theorem syncStream_ensures {wanted : Except WorkerError SyncReport → LeaseTable → Prop}
    (sameListing : around.listed = listed)
    (creating : ∀ created rest, sync.missing config listed table = created ++ rest → Named created →
      always (table.createAll created))
    (erasing : Named (sync.missing config listed table) →
      ∀ erased rest, sync.finished config listed table = erased ++ rest →
        always ((table.createAll (sync.missing config listed table)).eraseAll erased))
    (ended : Named (sync.missing config listed table) →
      ∀ created, created + table.size = (table.createAll (sync.missing config listed table)).size →
        wanted (.ok { created, deleted := (sync.finished config listed table).length })
          (sync.synced config listed table))
    (failed : around.mayFail ∨ ¬Named (sync.missing config listed table) →
      ∀ now, always now → ∀ reason, wanted (.error reason) now) :
    (sync.syncStream stopped config : Script σ Job _).Ensures around always wanted table := by
  have first : always table := creating [] _ rfl named_nil
  refine Script.query_ensures first fun reply after answers => ?_
  cases answers with
  | other _ notListing => exact absurd rfl (notListing config)
  | unlisted may _ reason => exact ⟨first, failed (.inl may) table first _⟩
  | listed =>
    rw [sameListing]
    refine Script.ensures_bind.2 (streamLeases_ensures first ?_ fun may reason => ?_)
    · refine Script.ensures_bind.2 (createLeases_ensures creating (fun named created sum => ?_) ?_)
      · have last : always (sync.synced config listed table) := erasing named _ [] (List.append_nil _).symm
        refine Script.ensures_bind.2 (deleteLeases_ensures (erasing named) ?_ ?_)
        · refine Script.record_ensures (Script.record_ensures ?_)
          exact ⟨last, ended named created (sum.trans (Nat.zero_add _))⟩
        · exact fun may now held reason => ⟨held, failed (.inl may) now held reason⟩
      · exact fun cause now held reason => ⟨held, failed cause now held reason⟩
    · exact ⟨first, failed (.inl may) table first reason⟩

end

/-! ## Complete syncs -/

variable (sync config listed) in
/-- A sync of the table that succeeds: it has met no shard without a name, has come to the end of its
way, and reports what it has done. -/
structure Completes (table : LeaseTable) (report : SyncReport) (now : LeaseTable) : Prop where
  named : Named (sync.missing config listed table)
  last : now = sync.synced config listed table
  created : report.created + table.size = (table.createAll (sync.missing config listed table)).size
  deleted : report.deleted = (sync.finished config listed table).length

section

variable {σ Job : Type} {around : Surroundings} {stopped : σ → Bool} {report : SyncReport}

theorem partway_synced : sync.Partway config listed table (sync.synced config listed table) :=
  partway_of_erased (List.append_nil _).symm

/-- Whatever becomes of a sync, its table is always one on the way. -/
theorem partway_of_passes (sameListing : around.listed = listed)
    (passes : (sync.syncStream stopped config : Script σ Job _).Passes around table now) :
    sync.Partway config listed table now := by
  have ensures : (sync.syncStream stopped config : Script σ Job _).Ensures around
      (sync.Partway config listed table) (fun _ _ => True) table :=
    syncStream_ensures sameListing (fun _ _ part _ => partway_of_created part)
      (fun _ _ _ => partway_of_erased) (fun _ _ _ => trivial) fun _ _ _ _ => trivial
  exact ensures.passes passes

theorem completes_of_ends (sameListing : around.listed = listed)
    (ends : (sync.syncStream stopped config : Script σ Job _).Ends around table (.ok report) now) :
    sync.Completes config listed table report now := by
  have ensures : (sync.syncStream stopped config : Script σ Job _).Ensures around (fun _ => True)
      (fun result now => ∀ report, result = .ok report → sync.Completes config listed table report now)
      table := by
    refine syncStream_ensures sameListing (fun _ _ _ _ => trivial) (fun _ _ _ _ => trivial) ?_
      fun _ _ _ _ => nofun
    intro named created sum report same
    cases same
    exact ⟨named, rfl, sum, rfl⟩
  exact ensures.ends ends report rfl

/-- Where nothing fails and every shard has a name, a sync succeeds. -/
theorem syncStream_succeeds (sameListing : around.listed = listed) (reliable : ¬around.mayFail)
    (named : Named (sync.missing config listed table)) :
    (sync.syncStream stopped config : Script σ Job _).Ensures around (fun _ => True)
      (fun result _ => ∃ report, result = .ok report) table := by
  refine syncStream_ensures sameListing (fun _ _ _ _ => trivial) (fun _ _ _ _ => trivial)
    (fun _ _ _ => ⟨_, rfl⟩) ?_
  rintro (may | notNamed)
  · exact absurd may reliable
  · exact absurd named notNamed

variable (keyed : table.WellKeyed)

include keyed

theorem finished_eq : sync.finished config listed table =
    table.leases.filter fun lease => !(sync.synced config listed table).contains lease.leaseKey := by
  unfold finished finishedLeases leasesOf
  rw [List.filter_filter]
  refine List.filter_congr fun lease mem => ?_
  obtain ⟨leaseKey, found⟩ := LeaseTable.mem_leases.1 mem
  have isExpired : (lease.isShardEnd && !isListed listed lease.shardId && sync.covers config.stream lease) =
      decide (sync.Expires config listed lease) := by
    rw [Bool.eq_iff_iff, decide_eq_true_eq]
    simp only [Bool.and_eq_true, Bool.not_eq_true', Expires]
    exact and_comm
  rw [(keyed found).1, SortedMap.contains, get?_synced keyed, found, isExpired]
  by_cases expires : sync.Expires config listed lease <;> simp [expires]

/-- The table has grown by what was created and shrunk by what was deleted. -/
theorem size_synced : (sync.synced config listed table).size + (sync.finished config listed table).length =
    (table.createAll (sync.missing config listed table)).size := by
  refine LeaseTable.size_eraseAll _ ?_ fun lease mem => ?_
  · have keys : table.leases.map Lease.leaseKey = table.keys := by
      unfold LeaseTable.leases SortedMap.values SortedMap.keys
      rw [List.map_map]
      exact List.map_congr_left fun entry mem => (keyed (SortedMap.get?_eq_some_iff.2 mem)).1
    have part : ((sync.finished config listed table).map Lease.leaseKey).Sublist table.keys := by
      rw [finished_eq keyed, ← keys]
      exact List.filter_sublist.map _
    exact part.nodup table.nodup_keys
  · obtain ⟨⟨leaseKey, found⟩, _⟩ := mem_finished.1 mem
    rw [(keyed found).1, SortedMap.contains, LeaseTable.get?_createAll, found]
    rfl

section

variable (settled : sync.synced config listed table = table)

include settled

/-- In a table that needs no sync, every key of a listed shard is taken. -/
theorem createAll_of_settled {created rest : List Lease}
    (part : sync.missing config listed table = created ++ rest) : table.createAll created = table := by
  refine SortedMap.ext_get? fun leaseKey => ?_
  rw [LeaseTable.get?_createAll]
  cases absent : table.get? leaseKey with
  | some lease => rfl
  | none =>
    have unlisted : (sync.synced config listed table).get? leaseKey = _ := get?_synced keyed leaseKey
    rw [settled, absent] at unlisted
    have nothing := (find?_missing keyed absent).trans unlisted.symm
    rw [part, List.find?_append, Option.or_eq_none_iff] at nothing
    rw [nothing.1, Option.none_or]

theorem finished_of_settled : sync.finished config listed table = [] := by
  refine List.eq_nil_iff_forall_not_mem.2 fun lease mem => ?_
  obtain ⟨⟨leaseKey, found⟩, expires⟩ := mem_finished.1 mem
  have gone : (sync.synced config listed table).get? leaseKey = _ := get?_synced keyed leaseKey
  simp [settled, found, expires] at gone

/-- A table that needs no sync stays as it is. -/
theorem syncStream_of_settled (sameListing : around.listed = listed) :
    (sync.syncStream stopped config : Script σ Job _).Ensures around (· = table)
      (fun result _ => ∀ report, result = .ok report → report = { created := 0, deleted := 0 }) table := by
  have nothing := finished_of_settled keyed settled
  have all : table.createAll (sync.missing config listed table) = table :=
    createAll_of_settled keyed settled (List.append_nil _).symm
  refine syncStream_ensures sameListing (fun _ _ part _ => createAll_of_settled keyed settled part)
    (fun _ erased rest part => ?_) (fun _ created sum report same => ?_) fun _ _ _ _ => nofun
  · rw [nothing] at part
    rw [(List.append_eq_nil_iff.1 part.symm).1, all]
    rfl
  · rw [all] at sum
    obtain rfl : created = 0 := by omega
    cases same
    rw [nothing]
    rfl

end

end

end ShardSync

/-! ## Results -/

section

variable {σ Job : Type} {sync : ShardSync} {config : StreamConfig} {listed : List ShardDescription}
  {stopped : σ → Bool} {mayFail : Prop} {before after : LeaseTable} {report : SyncReport}

open ShardSync in
/-- A sync that succeeds is exact. What was leased stays as it was, but for the leases of the stream
whose shards are consumed to their end and not listed. Every free key of a listed shard has got an
unowned lease at counter zero with the listed parents, which starts at the trim horizon if a parent is
listed or was leased and at the position of the stream otherwise; no other key is taken. The report
counts what is new and what is gone. A further sync changes nothing at any point and reports nothing.
And wherever a sync from the first table was cut off, a sync from there succeeds unless something
fails, and a sync that succeeds from there ends in the same table. -/
theorem syncStream_exact (keyed : before.WellKeyed)
    (ends : (sync.syncStream stopped config : Script σ Job _).Ends ⟨listed, mayFail⟩ before
      (.ok report) after) :
    (∀ {leaseKey lease}, before.get? leaseKey = some lease →
      after.get? leaseKey =
        if sync.covers config.stream lease = true ∧ lease.isShardEnd = true ∧
          isListed listed lease.shardId = false then none else some lease) ∧
    (∀ {shard}, listed.find? (·.shardId = shard.shardId) = some shard →
      before.get? (sync.shardKey config shard.shardId) = none →
        after.get? (sync.shardKey config shard.shardId) = some
          { leaseKey := sync.shardKey config shard.shardId
            stream := (sync.leaseStream config.stream).map StreamIdentifier.serialize
            shardId := shard.shardId, owner := none, counter := 0, parents := .ofList shard.parents
            checkpoint :=
              if shard.parents.any fun parent =>
                isLeased (sync.leasesOf config before) parent || isListed listed parent then .trimHorizon
              else config.position.checkpoint }) ∧
    (∀ {leaseKey}, before.get? leaseKey = none → after.get? leaseKey ≠ none →
      ∃ shard ∈ listed, leaseKey = sync.shardKey config shard.shardId) ∧
    after.WellKeyed ∧
    (before.size + report.created = after.size + report.deleted ∧
      report.deleted = (before.leases.filter fun lease => !after.contains lease.leaseKey).length) ∧
    (∀ {mayFail : Prop}, (∀ {now}, (sync.syncStream stopped config : Script σ Job _).Passes
        ⟨listed, mayFail⟩ after now → now = after) ∧
      ∀ {again now}, (sync.syncStream stopped config : Script σ Job _).Ends ⟨listed, mayFail⟩ after
        (.ok again) now → again = { created := 0, deleted := 0 }) ∧
    ∀ {mayFail : Prop} {cut}, (sync.syncStream stopped config : Script σ Job _).Passes
        ⟨listed, mayFail⟩ before cut →
      (∀ {mayFail : Prop} {again now}, (sync.syncStream stopped config : Script σ Job _).Ends
        ⟨listed, mayFail⟩ cut (.ok again) now → now = after) ∧
      (∃ again now, (sync.syncStream stopped config : Script σ Job _).Ends ⟨listed, False⟩ cut again now) ∧
      ∀ {result now}, (sync.syncStream stopped config : Script σ Job _).Ends ⟨listed, False⟩ cut
        result now → ∃ again, result = .ok again := by
  obtain ⟨named, rfl, created, deleted⟩ := completes_of_ends rfl ends
  have partway : sync.Partway config listed before (sync.synced config listed before) := partway_synced
  have settled := partway.synced_eq keyed
  have afterKeyed := partway.wellKeyed keyed
  refine ⟨fun {leaseKey lease} found => ?_, fun {shard} first absent => ?_, fun {leaseKey} absent taken => ?_,
    afterKeyed, ⟨?_, ?_⟩, fun {mayFail} => ⟨fun passes => ?_, fun again => ?_⟩, fun {mayFail cut} passes => ?_⟩
  · rw [get?_synced keyed, found]
    rfl
  · have isMissing : sync.newLease config listed (sync.leasesOf config before) shard ∈
        sync.missing config listed before := by
      refine List.mem_map.2 ⟨shard, List.mem_filter.2 ⟨List.mem_of_find?_eq_some first, ?_⟩, rfl⟩
      rw [Bool.not_eq_true', ← Bool.not_eq_true, isLeased_iff keyed, absent]
      rintro ⟨lease, found, _⟩
      cases found
    rw [get?_synced keyed, absent]
    dsimp only
    rw [listedAt_of_first first (named _ isMissing)]
    rfl
  · rw [get?_synced keyed, absent] at taken
    cases here : sync.listedAt config listed leaseKey with
    | none => simp [here] at taken
    | some shard =>
      obtain ⟨mem, sameKey, _⟩ := of_listedAt here
      exact ⟨shard, mem, sameKey.symm⟩
  · rw [Nat.add_comm, created, deleted, size_synced keyed]
  · rw [deleted, finished_eq keyed]
  · exact (syncStream_of_settled afterKeyed settled rfl).passes passes
  · exact (syncStream_of_settled afterKeyed settled rfl).ends again _ rfl
  · have onTheWay := partway_of_passes rfl passes
    have names : Named (sync.missing config listed cut) := by
      intro lease mem
      obtain ⟨earlier, isMissing, sameKey⟩ := onTheWay.missing_before keyed mem
      exact sameKey ▸ named earlier isMissing
    have succeeds : (sync.syncStream stopped config : Script σ Job _).Ensures ⟨listed, False⟩ _ _ cut :=
      syncStream_succeeds rfl id names
    refine ⟨fun again => ?_, succeeds.exists_end, fun again => succeeds.ends again⟩
    rw [(completes_of_ends rfl again).last, onTheWay.synced_eq keyed]

end

/-! ### After a split -/

/-- One shard is consumed to its end, the other is not. -/
def splitTable : LeaseTable := .ofLeases [
  { leaseKey := "a", shardId := "a", checkpoint := .shardEnd, counter := 4 },
  { leaseKey := "b", shardId := "b", owner := some "w1", counter := 7 }]

/-- The shard that was split from the consumed one. -/
def splitShard : ShardDescription := { shardId := "c", parents := ["a"] }

/-- The consumed shard is not listed any more, but the one that was split from it. -/
def splitListing : List ShardDescription := [splitShard, { shardId := "b" }]

def splitStream : StreamConfig where
  stream := { accountId := none, streamName := "orders", creationEpoch := none, region := none }
  position := .latest
  arn := none

def splitSync : ShardSync := { multi := false, retry := .standard }

/-- A sync after the split succeeds. It deletes the consumed lease, leaves the other one and creates
one for the new shard, at the trim horizon as its parent was leased; the next sync does nothing. -/
theorem syncStream_exact_after_split : ∃ report after,
    (splitSync.syncStream (fun _ => false) splitStream : Script Unit Unit _).Ends ⟨splitListing, False⟩
      splitTable (.ok report) after ∧
    after.get? "a" = none ∧ after.get? "b" = splitTable.get? "b" ∧
    after.get? "c" = some { leaseKey := "c", shardId := "c", parents := .ofList ["a"] } ∧
    ∀ {again now}, (splitSync.syncStream (fun _ => false) splitStream : Script Unit Unit _).Ends
      ⟨splitListing, True⟩ after (.ok again) now → again = { created := 0, deleted := 0 } := by
  have keyed : splitTable.WellKeyed := LeaseTable.wellKeyed_ofLeases (by decide)
  have named : Named (splitSync.missing splitStream splitListing splitTable) := by
    unfold Named
    decide +kernel
  have succeeds : (splitSync.syncStream (fun _ => false) splitStream : Script Unit Unit _).Ensures
      ⟨splitListing, False⟩ _ _ splitTable := ShardSync.syncStream_succeeds rfl id named
  obtain ⟨result, after, ends⟩ := succeeds.exists_end
  obtain ⟨report, rfl⟩ := succeeds.ends ends
  obtain ⟨stays, creates, _, _, _, again, _⟩ := syncStream_exact keyed ends
  refine ⟨report, after, ends, ?_, ?_, ?_, again.2⟩
  · have found : splitTable.get? "a" = some
        { leaseKey := "a", shardId := "a", checkpoint := .shardEnd, counter := 4 } := by decide +kernel
    rw [stays found]
    decide +kernel
  · have found : splitTable.get? "b" = some
        { leaseKey := "b", shardId := "b", owner := some "w1", counter := 7 } := by decide +kernel
    rw [stays found, found]
    decide +kernel
  · have listed : splitListing.find? (·.shardId = splitShard.shardId) = some splitShard := by decide
    exact (creates listed (by decide +kernel)).trans (by decide +kernel)

end LeaseFleet
