import LeaseFleet.Proofs.Interleaving.Schedules
import LeaseFleet.Proofs.Sync.StaleStreams

/-!
# Runs of stream sync

Passes one after another, whatever the surroundings answer and whatever else is done to the tracked
streams in between. A pass deletes leases only of streams that its own list lacks and that have been
missing for the waiting time of its own strategy (`deletes_missing_streams_only`). The strategy that
made a stream stale may have been another one: a strategy that names streams also deletes those that
an earlier strategy has left (`named_deletes_named_and_leftover`).
-/

namespace LeaseFleet

variable {σ Job : Type}

namespace ShardSync

/-! ## Syncing shards -/

variable (sync : ShardSync) (stopped : σ → Bool) {sees : σ → Prop}

theorem streamLeases_quiet (stream : StreamIdentifier) :
    (sync.streamLeases stopped stream : Script σ Job _).Keeps sees Act.Quiet := by
  refine (sync.retry.store_only stopped fun _ => Act.Attempts.quiet).bind fun result _ => ?_
  cases result with
  | error error => trivial
  | ok leases => trivial

theorem createLeases_quiet (leases : List Lease) (created : Nat) :
    (sync.createLeases stopped leases created : Script σ Job _).Keeps sees Act.Quiet := by
  induction leases generalizing created with
  | nil => trivial
  | cons lease rest ih =>
    refine (sync.retry.store_only stopped fun _ => Act.Attempts.quiet).bind fun result _ => ?_
    cases result with
    | error error => trivial
    | ok isNew => exact ih _

theorem deleteLeases_quiet (leases : List Lease) :
    (sync.deleteLeases stopped leases : Script σ Job _).Keeps sees Act.Quiet := by
  induction leases with
  | nil => trivial
  | cons lease rest ih =>
    refine (sync.retry.store_only stopped fun _ => Act.Attempts.quiet).bind fun result _ => ?_
    cases result with
    | error error => trivial
    | ok _ => exact ih

theorem syncStream_quiet (config : StreamConfig) :
    (sync.syncStream stopped config : Script σ Job _).Keeps sees Act.Quiet := by
  refine Script.Only.bind (Script.query_only fun _ => trivial) fun listed _ => ?_
  cases listed with
  | error reason => trivial
  | ok listed =>
    refine (sync.streamLeases_quiet stopped config.stream).bind fun existing _ => ?_
    cases existing with
    | error error => trivial
    | ok existing =>
      refine (sync.createLeases_quiet stopped _ 0).bind fun created _ => ?_
      cases created with
      | error error => trivial
      | ok created =>
        refine (sync.deleteLeases_quiet stopped _).bind fun deleted _ => ?_
        cases deleted with
        | error error => trivial
        | ok _ =>
          refine Script.Only.bind (Script.query_only fun _ => trivial) fun _ _ => ?_
          exact Script.Only.bind (Script.query_only fun _ => trivial) fun _ _ => trivial

/-! ## Deleting the leases of a stream -/

variable {passes : List (Journal σ)} {past : Journal σ} {stream : StreamIdentifier}

/-- Leases are deleted one after another, where that is open. -/
theorem deleteLeases_recorded {may : Journal σ → Act σ → Prop} {leases : List Lease}
    (isOpen : ∀ after, past.Grows Act.Erases after → ∀ lease ∈ leases, ∀ reply,
      may after (.asked (.store (.delete lease.leaseKey)) reply))
    (drawn : ∀ after low high reply, may after (.asked (.draw low high) reply)) :
    (sync.deleteLeases stopped leases : Script σ Job _).Follows (.recorded sees may)
      (fun after _ => past.Grows Act.Erases after) past := by
  induction leases generalizing past with
  | nil => exact .refl past
  | cons lease rest ih =>
    have attempted : (sync.retry.store stopped (.delete lease.leaseKey) : Script σ Job _).Keeps sees
        (Act.Attempts (.delete lease.leaseKey)) := sync.retry.store_only stopped fun act => id
    refine (Script.follows_bind ..).2 ((attempted.recorded fun after act grows attempts => ?_).imp ?_)
    · refine attempts.elim (fun reply => ?_) fun low high reply => drawn after low high reply
      exact isOpen after (grows.imp fun act => Act.Attempts.erases) lease List.mem_cons_self reply
    · rintro after result ⟨grows, _⟩
      have goesOn := grows.imp fun act => Act.Attempts.erases
      cases result with
      | error error => exact goesOn
      | ok _ =>
        refine (ih fun later grown other mem => ?_).imp fun _ _ => goesOn.trans
        exact isOpen later (goesOn.trans grown) other (List.mem_cons_of_mem _ mem)

/-- Leases of a listing are deleted one after another, as long as their stream retires. -/
theorem deleteLeases_retires {listed leases : List Lease} {earlier : Journal σ}
    (retires : Retires passes stream past)
    (since : Journal.Grows Act.Erases (.asked (.store .list) (.ok listed) :: earlier) past)
    (among : ∀ lease ∈ leases, lease ∈ listed ∧ lease.stream = some stream.serialize) :
    (sync.deleteLeases stopped leases : Script σ Job _).Follows (.recorded sees (Retirement passes))
      (fun after _ => past.Grows Act.Quiet after) past := by
  refine (sync.deleteLeases_recorded stopped (fun after grows lease mem reply => ?_)
    fun _ _ _ _ => trivial).imp fun after _ grows => grows.imp fun _ => Act.Erases.quiet
  obtain ⟨inListing, same⟩ := among lease mem
  exact fun _ => ⟨stream, retires.grows (grows.imp fun _ => Act.Erases.quiet), listed, earlier,
    since.trans grows, lease, inListing, rfl, same⟩

theorem deleteStreamLeases_retires (multi : sync.multi = true) (retires : Retires passes stream past) :
    (sync.deleteStreamLeases stopped stream : Script σ Job _).Follows
      (.recorded sees (Retirement passes)) (fun after _ => past.Grows Act.Quiet after) past := by
  have quietly {after : Journal σ} (grows : past.Grows (Act.Attempts .list) after) :
      past.Grows Act.Quiet after := grows.imp fun _ => Act.Attempts.quiet
  refine (Script.follows_bind ..).2 ((Script.follows_bind ..).2 (sync.retry.store_recorded stopped
    (fun after act _ attempts => ?_) (fun before leases grows => ?_) fun after reason grows => ?_))
  · exact attempts.elim (fun _ => trivial) fun _ _ _ => trivial
  · have listed : past.Grows Act.Quiet (.asked (.store .list) (.ok leases) :: before) :=
      (quietly grows).cons trivial
    refine (Script.follows_bind ..).2 ((sync.deleteLeases_retires stopped (retires.grows listed)
      (.refl _) fun lease mem => ?_).imp fun after result grows => ?_)
    · obtain ⟨mem, covered⟩ := List.mem_filter.1 mem
      refine ⟨mem, ?_⟩
      simpa [covers, leaseStream, multi] using covered
    · cases result with
      | error error => exact listed.trans grows
      | ok _ =>
        exact Script.query_recorded (fun _ => trivial) fun _ => (listed.trans grows).cons trivial
  · exact quietly grows

end ShardSync

namespace Synchronizer

variable {stopped : σ → Bool} {sees : σ → Prop} {passes : List (Journal σ)} {past : Journal σ}

theorem syncNewStreams_quiet (configs : List StreamConfig) (synchronizer : Synchronizer)
    (changed : Changed) :
    (syncNewStreams stopped configs synchronizer changed : Script σ Job _).Only sees Act.Quiet
      fun result => synchronizer.SameNotes result.2 := by
  induction configs generalizing synchronizer changed with
  | nil => exact .refl synchronizer
  | cons config rest ih =>
    refine (synchronizer.sync.syncStream_quiet stopped config).bind fun result _ => ?_
    cases result with
    | error error => exact ih _ _
    | ok _ =>
      exact (ih _ _).imp fun _ => (activate_sameNotes synchronizer config).trans

/-- Deleting retired streams takes notes away only. -/
theorem deleteStreams_retires (streams : List StreamIdentifier) (synchronizer : Synchronizer)
    (changed : Changed) (multi : synchronizer.sync.multi = true)
    (retire : ∀ stream ∈ streams, Retires passes stream past) :
    (deleteStreams stopped streams synchronizer changed : Script σ Job _).Follows
      (.recorded sees (Retirement passes))
      (fun after result => past.Grows Act.Quiet after ∧ result.2.sync = synchronizer.sync ∧
        ∀ ⦃stream since⦄, result.2.stale.get? stream = some since →
          synchronizer.stale.get? stream = some since) past := by
  induction streams generalizing synchronizer changed past with
  | nil => exact ⟨.refl past, rfl, fun _ _ => id⟩
  | cons stream rest ih =>
    obtain ⟨first, others⟩ := List.forall_mem_cons.1 retire
    refine (Script.follows_bind ..).2 ((synchronizer.sync.deleteStreamLeases_retires stopped multi
      first).imp fun after result grows => ?_)
    have later : ∀ stream ∈ rest, Retires passes stream after :=
      fun stream mem => (others stream mem).grows grows
    cases result with
    | error error =>
      exact (ih synchronizer changed multi later).imp fun _ _ ⟨grown, kept⟩ => ⟨grows.trans grown, kept⟩
    | ok _ =>
      refine (ih (synchronizer.dropStream stream) _ multi later).imp fun _ _ ⟨grown, same, noted⟩ => ?_
      refine ⟨grows.trans grown, same, fun _ _ found => ?_⟩
      exact (SortedMap.get?_erase_eq_some_iff.1 (noted found)).2

/-- After its list was read, a pass retires streams by the rules and goes on to account for what is
stale. -/
theorem retireStreams_accounts {synchronizer : Synchronizer} {configs : List StreamConfig}
    (accounts : synchronizer.Accounts passes) (multi : synchronizer.sync.multi = true)
    (read : lastTracked past = some configs) (early : Early past) (changed : Changed) :
    (synchronizer.retireStreams stopped (synchronizer.streamsToConsume configs) changed :
      Script σ Job _).Follows (.recorded sees (Retirement passes))
        (fun after result => result.2.Accounts (after :: passes) ∧ result.2.sync = synchronizer.sync)
        past := by
  refine Script.query_recorded (fun _ => trivial) fun now => ?_
  have notYet : Early (.asked .clock now :: past) := early.cons nofun
  refine Script.query_recorded (fun _ => notYet) fun strategy => ?_
  have marked := accounts.applyStrategy multi read strategy now
  have sync := synchronizer.applyStrategy_sync (synchronizer.streamsToConsume configs) strategy now
  refine (deleteStreams_retires _ _ _ (sync ▸ multi) fun stream due =>
    retires_of_expired accounts multi read due).imp ?_
  rintro after result ⟨grows, same, noted⟩
  exact ⟨fun _ _ found => (marked (noted found)).grows grows, same.trans sync⟩

/-- Taking in the streams of the lease table leaves the notes as they were; when it fails, the list
was not read. -/
theorem reconcile_follows (synchronizer : Synchronizer) (unread : lastTracked past = none)
    (early : Early past) :
    (synchronizer.reconcile stopped : Script σ Job _).Follows (.recorded sees (Retirement passes))
      (fun after result => Early after ∧
        match result with
        | .error _ => lastTracked after = none
        | .ok next => synchronizer.SameNotes next) past := by
  have quietly {after : Journal σ} (grows : past.Grows (Act.Attempts .list) after) :
      past.Grows Act.Quiet after := grows.imp fun _ => Act.Attempts.quiet
  unfold reconcile
  split
  · refine (Script.follows_bind ..).2 (synchronizer.sync.retry.store_recorded stopped
      (fun after act grows _ => retirement_of_early (early.grows (quietly grows)) act)
      (fun before leases grows => ?_) fun after reason grows => ?_)
    · refine Script.query_recorded (fun _ => trivial) fun configs => ?_
      refine Script.query_recorded (fun _ => trivial) fun position => ⟨?_, ?_⟩
      · simpa [Early] using early.grows (quietly grows)
      · exact synchronizer.adoptOrphans_sameNotes _ position leases
    · exact ⟨early.grows (quietly grows), (lastTracked_grows (quietly grows)).trans unread⟩
  · exact ⟨early, .refl synchronizer⟩

/-- A pass follows the rules, and at its end all that is stale is accounted for. -/
theorem runPass_accounts {synchronizer : Synchronizer} (accounts : synchronizer.Accounts passes)
    (multi : synchronizer.sync.multi = true) (force : Bool) :
    (synchronizer.runPass stopped force : Script σ Job _).Follows (.recorded sees (Retirement passes))
      (fun after result => result.2.Accounts (after :: passes) ∧ result.2.sync = synchronizer.sync)
      [] := by
  have unread {past : Journal σ} (unread : lastTracked past = none) :
      synchronizer.Accounts (past :: passes) :=
    fun _ _ found => (accounts found).cons fun configs read => by simp [unread] at read
  refine Script.query_recorded (fun _ => trivial) fun started => ?_
  split
  · exact ⟨unread rfl, rfl⟩
  · have begun : Early [(.asked .clock started : Act σ)] := by simp [Early]
    refine (Script.follows_bind ..).2 ((synchronizer.reconcile_follows rfl begun).imp ?_)
    rintro past result ⟨early, outcome⟩
    cases result with
    | error error => exact ⟨unread outcome, rfl⟩
    | ok next =>
      have nextMulti : next.sync.multi = true := outcome.sync ▸ multi
      refine Script.query_recorded (fun _ => trivial) fun configs => ?_
      have notYet : Early (.asked .trackedStreams configs :: past) := early.cons nofun
      refine (syncNewStreams_quiet _ next .empty).recorded_bind
        (fun after act grows _ => retirement_of_early (notYet.grows grows) act) ?_
      rintro read ⟨changed, synced⟩ grows notes
      have kept : next.SameNotes synced := notes
      have same : synchronizer.SameNotes synced := outcome.trans kept
      have wanted : next.streamsToConsume configs = synced.streamsToConsume configs := by
        simp [streamsToConsume, kept.sync]
      have syncedMulti : synced.sync.multi = true := same.sync ▸ multi
      have lastRead : lastTracked read = some configs := lastTracked_grows grows
      have noted : synced.Accounts passes := by
        intro stream since found
        exact accounts (same.stale ▸ found)
      dsimp only
      rw [if_pos syncedMulti, wanted]
      refine (Script.follows_bind ..).2 ((retireStreams_accounts noted syncedMulti lastRead
        (notYet.grows grows) changed).imp ?_)
      rintro after ⟨changed, last⟩ ⟨accounted, sync⟩
      refine Script.query_recorded (fun _ => trivial) fun now => ?_
      refine Script.query_recorded (fun _ => trivial) fun _ => ?_
      refine Script.query_recorded (fun _ => trivial) fun _ => ⟨?_, sync.trans same.sync⟩
      intro stream since found
      exact (accounted found).grows ((((Journal.Grows.refl after).cons trivial).cons trivial).cons
        trivial)

end Synchronizer

/-! ## The lease table under a pass -/

/-- The lease table after the acts of a journal. A call is carried out, or it fails, before or after
the table has carried it out. Up to a listing others may have done anything; beside that they create
no lease and leave every lease with its stream. -/
inductive Journal.OnTable : Journal σ → LeaseTable → Prop
  | start (table : LeaseTable) : OnTable [] table
  | listed {past : Journal σ} {table now : LeaseTable} (earlier : OnTable past table)
      (keyed : ∀ {leaseKey stored}, now.get? leaseKey = some stored → stored.leaseKey = leaseKey) :
      OnTable (.asked (.store .list) (.ok now.leases) :: past) now
  | called {past : Journal σ} {table : LeaseTable} {call : StoreCall} (earlier : OnTable past table)
      (notList : call ≠ .list) :
      OnTable (.asked (.store call) (table.perform call).1 :: past) (table.perform call).2
  | failed {past : Journal σ} {table now : LeaseTable} {call : StoreCall} (error : StoreError)
      (earlier : OnTable past table) (carriedOut : now = table ∨ now = (table.perform call).2) :
      OnTable (.asked (.store call) (call.failed error) :: past) now
  | other {past : Journal σ} {table : LeaseTable} {act : Act σ} (earlier : OnTable past table)
      (notCall : ∀ call reply, act ≠ .asked (.store call) reply) : OnTable (act :: past) table
  | others {past : Journal σ} {table now : LeaseTable} (earlier : OnTable past table)
      (keeps : ∀ {leaseKey stored}, now.get? leaseKey = some stored →
        ∃ before, table.get? leaseKey = some before ∧ before.stream = stored.stream) :
      OnTable past now

/-- An act after which no lease is stored under another stream than before: a deletion, or the creation
of a lease of the given stream. -/
def Act.Tends (stream : Option String) : Act σ → Prop
  | asked (.store (.delete _)) _ | asked (.draw _ _) _ => True
  | asked (.store (.create lease)) _ => lease.stream = stream
  | _ => False

theorem Act.Erases.tends {stream : Option String} {act : Act σ} (erases : act.Erases) :
    act.Tends stream := by
  unfold Act.Erases at erases
  split at erases
  · trivial
  · trivial
  · exact erases.elim

theorem Act.Tends.found {stream : Option String} {call : StoreCall} {reply : call.Reply}
    (tends : Act.Tends stream (.asked (.store call) reply : Act σ)) {table : LeaseTable}
    {leaseKey : String} {stored : Lease}
    (found : (table.perform call).2.get? leaseKey = some stored) :
    stored.stream = stream ∨ table.get? leaseKey = some stored := by
  cases call with
  | delete key => exact .inr (SortedMap.get?_erase_eq_some_iff.1 found).2
  | create lease =>
    obtain ⟨same, _⟩ | ⟨_, created⟩ := table.create_cases lease
    · exact .inr (same ▸ found)
    · have after : (table.perform (.create lease)).2 = table.put lease := congrArg Prod.snd created
      rw [after] at found
      obtain ⟨_, rfl⟩ | ⟨_, found⟩ := SortedMap.get?_insert_eq_some_iff.1 found
      · exact .inl tends
      · exact .inr found
  | list | update _ _ | isEmpty => exact tends.elim

/-- What is still stored, after a listing and such acts, under a key that was listed with the stream, has
that stream. -/
theorem Journal.OnTable.stream_eq {past earlier : Journal σ} {table : LeaseTable} {leases : List Lease}
    (onTable : past.OnTable table) {lease stored : Lease}
    (since : Journal.Grows (Act.Tends lease.stream) (.asked (.store .list) (.ok leases) :: earlier) past)
    (listed : lease ∈ leases) (found : table.get? lease.leaseKey = some stored) :
    stored.stream = lease.stream := by
  obtain ⟨new, rfl, tends⟩ := since
  generalize whole : new ++ _ = past at onTable
  induction onTable generalizing new stored with
  | start => exact absurd whole (by simp)
  | @listed past table now _ keyed _ =>
    cases new with
    | nil =>
      obtain ⟨same, _⟩ := List.cons.inj whole
      obtain rfl : leases = now.leases := by simpa using same
      obtain ⟨leaseKey, here⟩ := LeaseTable.mem_leases.1 listed
      obtain rfl := keyed here
      rw [Option.some.inj (found.symm.trans here)]
    | cons act new =>
      obtain ⟨rfl, _⟩ := List.cons.inj whole
      exact (tends _ List.mem_cons_self).elim
  | @called past table call _ notList ih =>
    cases new with
    | nil =>
      obtain ⟨same, _⟩ := List.cons.inj whole
      simp only [Act.asked.injEq, Query.store.injEq] at same
      exact absurd same.1.symm notList
    | cons act new =>
      obtain ⟨rfl, rest⟩ := List.cons.inj whole
      obtain ⟨first, others⟩ := List.forall_mem_cons.1 tends
      exact (first.found found).elim id fun found => ih found new others rest
  | @failed past table now call error _ carriedOut ih =>
    cases new with
    | nil =>
      obtain ⟨same, _⟩ := List.cons.inj whole
      simp only [Act.asked.injEq, Query.store.injEq] at same
      obtain ⟨rfl, same⟩ := same
      cases eq_of_heq same
    | cons act new =>
      obtain ⟨rfl, rest⟩ := List.cons.inj whole
      obtain ⟨first, others⟩ := List.forall_mem_cons.1 tends
      rcases carriedOut with rfl | rfl
      · exact ih found new others rest
      · exact (first.found found).elim id fun found => ih found new others rest
  | @other past table act _ notCall ih =>
    cases new with
    | nil =>
      obtain ⟨same, _⟩ := List.cons.inj whole
      exact absurd same.symm (notCall _ _)
    | cons newest new =>
      exact ih found new (List.forall_mem_cons.1 tends).2 (List.cons.inj whole).2
  | @others past table now _ keeps ih =>
    obtain ⟨before, here, same⟩ := keeps found
    rw [← same]
    exact ih here new tends whole

/-! ## Runs -/

/-- Passes one after another, the last one first, and the synchronizer that they leave. Between two
passes anything else may be done to the tracked streams. -/
inductive PassRun (Job : Type) (stopped : σ → Bool) (first : Synchronizer) :
    List (Journal σ) → Synchronizer → Prop
  | start : PassRun Job stopped first [] first
  | between {passes : List (Journal σ)} {last next : Synchronizer}
      (earlier : PassRun Job stopped first passes last) (same : last.SameNotes next) :
      PassRun Job stopped first passes next
  | pass {passes : List (Journal σ)} {last next : Synchronizer} {past : Journal σ} {force : Bool}
      {result : Except WorkerError Synchronizer.Changed}
      (earlier : PassRun Job stopped first passes last)
      (plays : (last.runPass stopped force : Script σ Job _).Plays past (.done (result, next))) :
      PassRun Job stopped first (past :: passes) next

section

variable {stopped : σ → Bool} {first last : Synchronizer} {passes : List (Journal σ)}

/-- Whatever a pass has done so far, it has followed the rules. -/
theorem Synchronizer.Accounts.plays (accounts : last.Accounts passes) (multi : last.sync.multi = true)
    {past : Journal σ} {force : Bool}
    {rest : Script σ Job (Except WorkerError Synchronizer.Changed × Synchronizer)}
    (plays : (last.runPass stopped force : Script σ Job _).Plays past rest) :
    rest.Follows (.recorded (fun _ => True) (Retirement passes))
      (fun after result => result.2.Accounts (after :: passes) ∧ result.2.sync = last.sync) past ∧
        ∀ ⦃act : Act σ⦄ ⦃earlier : Journal σ⦄, act :: earlier <:+ past →
          Retirement passes earlier act := by
  refine (Synchronizer.runPass_accounts accounts multi force).plays plays fun act _ => ?_
  cases act <;> trivial

/-- What is stale after a run is accounted for by its passes. -/
theorem PassRun.accounts (run : PassRun Job stopped first passes last) (fresh : first.stale = .empty)
    (multi : first.sync.multi = true) : last.Accounts passes ∧ last.sync.multi = true := by
  induction run with
  | start =>
    refine ⟨fun stream since found => ?_, multi⟩
    rw [fresh] at found
    cases found
  | between _ same ih =>
    obtain ⟨accounts, multi⟩ := ih
    refine ⟨fun stream since found => ?_, same.sync ▸ multi⟩
    exact accounts (same.stale ▸ found)
  | pass _ plays ih =>
    obtain ⟨accounts, multi⟩ := ih
    obtain ⟨accounted, sync⟩ := (accounts.plays multi plays).1
    exact ⟨accounted, sync ▸ multi⟩

/-- A deletion that a run has come to: the pass under way follows the passes before it, has come to
its strategy, and calls the store to delete a lease. -/
structure PassRun.Deletes (Job : Type) (stopped : σ → Bool) (first : Synchronizer)
    (passes : List (Journal σ)) (before earlier : Journal σ) (strategy : DeletionStrategy) (now : Nat)
    (leaseKey : String) : Prop where
  fresh : first.stale = .empty
  multi : first.sync.multi = true
  inTime : Journal.InTime (before :: passes).flatten
  stage : .asked .deletionStrategy strategy :: .asked .clock now :: earlier <:+ before
  pass : ∃ last force rest reply, PassRun Job stopped first passes last ∧
    (last.runPass stopped force : Script σ Job _).Plays
      (.asked (.store (.delete leaseKey)) reply :: before) rest

namespace PassRun.Deletes

variable {before earlier : Journal σ} {strategy : DeletionStrategy} {now : Nat} {leaseKey : String}

/-- The pass asks for its strategy once. -/
theorem once (deletes : Deletes Job stopped first passes before earlier strategy now leaseKey)
    {other : DeletionStrategy} {others : Journal σ}
    (there : .asked .deletionStrategy other :: others <:+ before) : Early others := by
  obtain ⟨last, force, rest, reply, run, plays⟩ := deletes.pass
  obtain ⟨accounts, multi⟩ := run.accounts deletes.fresh deletes.multi
  have opened := (accounts.plays multi plays).2 (there.trans (List.suffix_cons ..))
  exact opened

/-- The stream of a lease that is deleted is missing, and its waiting time is over. -/
theorem retires (deletes : Deletes Job stopped first passes before earlier strategy now leaseKey) :
    ∃ stream, (∃ configs, lastTracked earlier = some configs ∧ Lacks configs stream) ∧
      (∃ wait since, strategy.waitPeriod? = some wait ∧ wait ≤ now - since ∧
        MissingSince stream since (before :: passes)) ∧ Lists stream leaseKey before := by
  obtain ⟨last, force, rest, reply, run, plays⟩ := deletes.pass
  obtain ⟨accounts, multi⟩ := run.accounts deletes.fresh deletes.multi
  have late : ¬Early before := fun early =>
    early strategy (deletes.stage.subset List.mem_cons_self)
  obtain ⟨stream, retires, lists⟩ := (accounts.plays multi plays).2 (List.suffix_refl _) late
  obtain ⟨later, other, instant, others, configs, wait, since, same, read, lacks, waits, elapsed, missing⟩ :=
    retires
  have there : .asked .deletionStrategy other :: .asked .clock instant :: others <:+ before :=
    ⟨later, same.symm⟩
  obtain ⟨rfl, samePast⟩ := strategy_unique deletes.once deletes.stage there
  obtain ⟨rfl, rfl⟩ : now = instant ∧ earlier = others := by simpa using samePast
  exact ⟨stream, ⟨configs, read, lacks⟩, ⟨wait, since, waits, elapsed, missing⟩, lists⟩

/-- What this pass has marked, it has marked now, by its strategy. -/
theorem marking_unique (deletes : Deletes Job stopped first passes before earlier strategy now leaseKey)
    {other : DeletionStrategy} {stream : StreamIdentifier} {since : Nat}
    (marked : MarkedBy other stream since before) : other = strategy ∧ since = now := by
  obtain ⟨later, others, configs, same, _⟩ := marked
  have there : .asked .deletionStrategy other :: .asked .clock since :: others <:+ before :=
    ⟨later, same.symm⟩
  obtain ⟨sameStrategy, samePast⟩ := strategy_unique deletes.once there deletes.stage
  exact ⟨sameStrategy, by simpa using (List.cons.inj samePast).1⟩

/-- A stream was marked no later than now. -/
theorem since_le (deletes : Deletes Job stopped first passes before earlier strategy now leaseKey)
    {stream : StreamIdentifier} {since : Nat} (missing : MissingSince stream since (before :: passes)) :
    since ≤ now := by
  obtain ⟨newer, marking, older, other, same, marked, _⟩ := missing
  cases newer with
  | nil =>
    obtain ⟨rfl, _⟩ := List.cons.inj same
    exact Nat.le_of_eq (deletes.marking_unique marked).2
  | cons _ newer =>
    obtain ⟨_, rfl⟩ := List.cons.inj same
    obtain ⟨later, others, _, rfl, _⟩ := marked
    obtain ⟨new, whole⟩ := deletes.stage
    have inTime := deletes.inTime
    rw [List.flatten_cons, ← whole, List.append_assoc, List.cons_append, List.cons_append] at inTime
    refine Journal.InTime.le (new ++ [.asked .deletionStrategy strategy]) (by simpa using inTime)
      (List.mem_append_right _ ?_)
    simp

/-- Whatever is stored under the key carries the stream of the lease that was listed. -/
theorem stream_eq {stream : StreamIdentifier} (lists : Lists stream leaseKey before)
    {table : LeaseTable} (onTable : before.OnTable table) {stored : Lease}
    (found : table.get? leaseKey = some stored) : stored.stream = some stream.serialize := by
  obtain ⟨leases, past, since, lease, listed, rfl, same⟩ := lists
  rw [onTable.stream_eq (since.imp fun _ => Act.Erases.tends) listed found, same]

end PassRun.Deletes

end

/-! ### Rehearsed passes -/

/-- Runs forced passes, the last one first; each has one answer to every question. -/
def rehearse (first : Synchronizer) :
    List ((query : Query) → query.Reply) → Option (List (Journal Unit) × Synchronizer)
  | [] => some ([], first)
  | answer :: earlier => do
    let (passes, last) ← rehearse first earlier
    let (past, _, next) ← (last.runPass (fun _ => false) true : Script Unit Unit _).answered answer () []
    return (past :: passes, next)

theorem passRun_of_rehearse {first last : Synchronizer} {answers : List ((query : Query) → query.Reply)}
    {passes : List (Journal Unit)} (played : rehearse first answers = some (passes, last)) :
    PassRun Unit (fun _ => false) first passes last := by
  induction answers generalizing passes last with
  | nil =>
    cases played
    exact .start
  | cons answer earlier ih =>
    simp only [rehearse, bind, Option.bind_eq_some_iff] at played
    obtain ⟨⟨passes, between⟩, before, ⟨past, result, next⟩, ends, same⟩ := played
    cases same
    exact .pass (ih before) (Script.plays_of_answered .start ends)

/-- A synchronizer that knows no stream yet. -/
def blankSynchronizer : Synchronizer where
  sync := { multi := true, retry := .standard }
  interval := 60000
  arns := { region := "us-east-1", defaultAccount := "123456789012" }

/-- The journals of passes that begin with such a synchronizer. -/
def rehearsed (answers : List ((query : Query) → query.Reply)) : List (Journal Unit) :=
  ((rehearse blankSynchronizer answers).map (·.1)).getD []

/-- A rehearsed pass that comes to a deletion. -/
theorem PassRun.deletes_of_rehearsed {answer : (query : Query) → query.Reply}
    {answers : List ((query : Query) → query.Reply)} {past before earlier : Journal Unit}
    {strategy : DeletionStrategy} {now : Nat} {leaseKey : String} {reply : Except StoreError Unit}
    (played : (rehearse blankSynchronizer (answer :: answers)).map (·.1) =
      some (past :: rehearsed answers))
    (delete : .asked (.store (.delete leaseKey)) reply :: before <:+ past)
    (stage : .asked .deletionStrategy strategy :: .asked .clock now :: earlier <:+ before)
    (inTime : Journal.InTime (before :: rehearsed answers).flatten) :
    PassRun.Deletes Unit (fun _ => false) blankSynchronizer (rehearsed answers) before earlier strategy
      now leaseKey := by
  refine ⟨rfl, rfl, inTime, stage, ?_⟩
  simp only [rehearse, bind, Option.map_eq_some_iff, Option.bind_eq_some_iff] at played
  obtain ⟨_, ⟨⟨passes, last⟩, run, ⟨after, result, next⟩, ends, whole⟩, same⟩ := played
  cases whole
  obtain ⟨rfl, rfl⟩ := List.cons.inj same
  obtain ⟨rest, plays⟩ := (Script.plays_of_answered .start ends).upTo delete
  exact ⟨last, true, rest, reply, passRun_of_rehearse run, plays⟩

def ordersStream : StreamIdentifier :=
  { accountId := some "123456789012", streamName := "orders", creationEpoch := some 1, region := none }

def ordersLease : Lease := .ofShard (some ordersStream) "shard-0" .latest

/-- Answers at a time, where every stream has one shard and the store does what it is told. -/
def passAnswers (time : Nat) (configs : List StreamConfig) (strategy : DeletionStrategy) :
    (query : Query) → query.Reply
  | .clock => time
  | .trackedStreams => configs
  | .deletionStrategy => strategy
  | .shards _ => .ok [{ shardId := "shard-0", parents := [] }]
  | .store .list => .ok [ordersLease]
  | .store (.create _) => .ok true
  | .store (.delete _) => .ok ()
  | query => Interleaving.plainReply query

/-- A stream is tracked, and in the next pass it is missing. -/
def missingOnce (strategy : DeletionStrategy) : List ((query : Query) → query.Reply) :=
  [passAnswers 5 [] strategy, passAnswers 0 [.ofStream ordersStream .latest] strategy]

/-- What a pass without streams to consume does up to its listing of the leases. -/
def upToListing (time : Nat) (strategy : DeletionStrategy) : Journal Unit :=
  [.asked (.store .list) (.ok [ordersLease]), .asked .deletionStrategy strategy, .asked .clock time,
    .asked .trackedStreams [], .asked .clock time]

/-- After two passes under one strategy there is a third one, under some strategy, that comes to delete
the lease. -/
theorem deletes_orders {earlier strategy : DeletionStrategy}
    (played : ∃ records : Journal Unit,
      (rehearse blankSynchronizer (passAnswers 20 [] strategy :: missingOnce earlier)).map (·.1) =
        some ((records ++ .asked (.store (.delete ordersLease.leaseKey)) (.ok ()) ::
          upToListing 20 strategy) :: rehearsed (missingOnce earlier)))
    (inTime : Journal.InTime (upToListing 20 strategy :: rehearsed (missingOnce earlier)).flatten) :
    PassRun.Deletes Unit (fun _ => false) blankSynchronizer (rehearsed (missingOnce earlier))
      (upToListing 20 strategy) [.asked .trackedStreams [], .asked .clock 20] strategy 20
      ordersLease.leaseKey := by
  obtain ⟨records, played⟩ := played
  exact PassRun.deletes_of_rehearsed played (List.suffix_append ..) ⟨[_], rfl⟩ inTime

/-- Fifteen milliseconds after it was missed the stream is deleted. -/
theorem deletes_after_absence :
    PassRun.Deletes Unit (fun _ => false) blankSynchronizer (rehearsed (missingOnce (.afterAbsence 10)))
      (upToListing 20 (.afterAbsence 10)) [.asked .trackedStreams [], .asked .clock 20]
      (.afterAbsence 10) 20 ordersLease.leaseKey :=
  deletes_orders ⟨[_, _, _, _], rfl⟩ (by decide +kernel)

/-- Then the strategy changes to one that names no stream, and the stream is deleted nevertheless. -/
theorem deletes_leftover :
    PassRun.Deletes Unit (fun _ => false) blankSynchronizer
      (rehearsed (missingOnce (.afterAbsence 3600000))) (upToListing 20 (.named (some []) 0))
      [.asked .trackedStreams [], .asked .clock 20] (.named (some []) 0) 20 ordersLease.leaseKey :=
  deletes_orders ⟨[_, _, _, _], rfl⟩ (by decide +kernel)

/-! ### What passes delete -/

section

variable {stopped : σ → Bool} {first : Synchronizer} {passes : List (Journal σ)}

/-- A pass that has come to its strategy deletes only leases of a stream that lacks in the list of
this very pass and was missing from the list of some pass, at least the waiting time of the strategy
ago, and of every pass since that got to read the list. Nothing is removed that is stored under
another stream. -/
theorem deletes_missing_streams_only {before earlier : Journal σ} {strategy : DeletionStrategy}
    {now : Nat} {leaseKey : String}
    (deletes : PassRun.Deletes Job stopped first passes before earlier strategy now leaseKey) :
    ∃ stream, (∃ configs, lastTracked earlier = some configs ∧ Lacks configs stream) ∧
      (∃ wait since, strategy.waitPeriod? = some wait ∧ since + wait ≤ now ∧
        MissingSince stream since (before :: passes)) ∧
      ∀ {table : LeaseTable}, before.OnTable table → ∀ {stored : Lease},
        table.get? leaseKey = some stored → stored.stream = some stream.serialize := by
  obtain ⟨stream, lacks, ⟨wait, since, waits, elapsed, missing⟩, lists⟩ := deletes.retires
  have le := deletes.since_le missing
  exact ⟨stream, lacks, ⟨wait, since, waits, by omega, missing⟩, PassRun.Deletes.stream_eq lists⟩

/-- The table under that pass holds the lease that was listed. -/
theorem upToListing_onTable (time : Nat) (strategy : DeletionStrategy) :
    (upToListing time strategy).OnTable (.ofLeases [ordersLease]) := by
  have unlisted : Journal.OnTable (upToListing time strategy).tail .empty := by
    refine .other (.other (.other (.other (.start .empty) ?_) ?_) ?_) ?_
    · simp
    · simp
    · simp
    · simp
  have keyed {leaseKey : String} {stored : Lease}
      (found : (LeaseTable.ofLeases [ordersLease]).get? leaseKey = some stored) :
      stored.leaseKey = leaseKey := (LeaseTable.get?_ofLeases found).2
  exact .listed unlisted keyed

/-- A stream that was missing for fifteen milliseconds is deleted by a strategy that waits for ten. -/
theorem deletes_missing_streams_only_after_absence :
    ∃ stream, stream.serialize = ordersStream.serialize ∧
      ∃ wait since, (DeletionStrategy.afterAbsence 10).waitPeriod? = some wait ∧ since + wait ≤ 20 ∧
        MissingSince stream since
          (upToListing 20 (.afterAbsence 10) :: rehearsed (missingOnce (.afterAbsence 10))) := by
  obtain ⟨stream, _, missing, removed⟩ := deletes_missing_streams_only deletes_after_absence
  have stored : (LeaseTable.ofLeases [ordersLease]).get? ordersLease.leaseKey = some ordersLease := by
    decide +kernel
  have same := removed (upToListing_onTable 20 _) stored
  exact ⟨stream, (Option.some.inj same).symm, missing⟩

/-- Under a strategy that names streams, a pass deletes only leases of streams that are named, or
that an earlier pass has marked by its own strategy and that have been missing for the waiting time
since then. It sets out to delete such a leftover whether it is named or not. -/
theorem named_deletes_named_and_leftover {before earlier : Journal σ}
    {names : Option (List StreamIdentifier)} {wait now : Nat} {leaseKey : String}
    (deletes : PassRun.Deletes Job stopped first passes before earlier (.named names wait) now leaseKey) :
    (∃ stream, (∃ configs, lastTracked earlier = some configs ∧ Lacks configs stream) ∧
      (stream ∈ (DeletionStrategy.named names wait).namedStreams ∨
        ∃ since, since + wait ≤ now ∧ MissingSince stream since passes) ∧
      ∀ {table : LeaseTable}, before.OnTable table → ∀ {stored : Lease},
        table.get? leaseKey = some stored → stored.stream = some stream.serialize) ∧
    ∀ {synchronizer : Synchronizer} {wanted : SortedMap StreamIdentifier StreamConfig}
      {stream : StreamIdentifier} {since : Nat}, wanted.contains stream = false →
        synchronizer.stale.get? stream = some since → since + wait ≤ now →
          stream ∈ (synchronizer.applyStrategy wanted (.named names wait) now).2.expiredStreams
            (.named names wait) now := by
  refine ⟨?_, fun missing found elapsed => ?_⟩
  · obtain ⟨stream, lacks, ⟨waited, since, waits, elapsed, missing⟩, lists⟩ := deletes.retires
    obtain rfl := Option.some.inj waits
    have le := deletes.since_le missing
    refine ⟨stream, lacks, ?_, PassRun.Deletes.stream_eq lists⟩
    obtain ⟨newer, marking, older, strategy, same, marked, absent⟩ := missing
    cases newer with
    | nil =>
      obtain ⟨rfl, _⟩ := List.cons.inj same
      obtain ⟨rfl, _⟩ := deletes.marking_unique marked
      obtain ⟨_, _, _, _, _, _, isNamed⟩ := marked
      exact .inl isNamed
    | cons _ newer =>
      obtain ⟨_, rfl⟩ := List.cons.inj same
      refine .inr ⟨since, by omega, newer, marking, older, strategy, rfl, marked, fun pass mem => ?_⟩
      rcases List.mem_cons.1 mem with rfl | mem
      · exact absent pass List.mem_cons_self
      · exact absent pass (by simp [mem])
  · exact Synchronizer.mem_expiredStreams_named.2 ⟨missing, .inl ⟨_, found, by omega⟩⟩

/-- A strategy that names no stream deletes a stream that an earlier strategy has left. -/
theorem named_deletes_leftover_of_earlier_strategy :
    ∃ stream, stream.serialize = ordersStream.serialize ∧
      stream ∉ (DeletionStrategy.named (some []) 0).namedStreams ∧
        ∃ since, since + 0 ≤ 20 ∧
          MissingSince stream since (rehearsed (missingOnce (.afterAbsence 3600000))) := by
  obtain ⟨stream, _, isNamed | left, removed⟩ := (named_deletes_named_and_leftover deletes_leftover).1
  · exact absurd isNamed List.not_mem_nil
  · have stored : (LeaseTable.ofLeases [ordersLease]).get? ordersLease.leaseKey = some ordersLease := by
      decide +kernel
    have same := removed (upToListing_onTable 20 _) stored
    exact ⟨stream, (Option.some.inj same).symm, List.not_mem_nil, left⟩

end

end LeaseFleet
