import LeaseFleet.Proofs.Sync.PassSets

/-!
# Tracked streams

The two calls of the synchronizer start to track streams that are not tracked yet and then stop to track
others: a pass is a step that gains entries and then one that loses entries, and neither changes an entry
(`runPass_gains_loses`). So whatever the surroundings answer, every stream is tracked under its own
identifier and with an ARN, and its configuration stays as long as it is tracked. Taking in the leases of
a table tracks the streams of the leases that nobody knows, once.
-/

namespace LeaseFleet

namespace Synchronizer

variable {σ Job : Type} {stopped : σ → Bool} {past : Journal σ} {first between last : Synchronizer}
  {stream : StreamIdentifier} {config : StreamConfig}

/-! ## Entries -/

/-- The configuration is one of the stream, and it has an ARN. -/
def Sound (stream : StreamIdentifier) (config : StreamConfig) : Prop :=
  config.stream = stream ∧ config.arn.isSome = true

/-- Every tracked stream has a sound configuration. -/
def WellTracked (synchronizer : Synchronizer) : Prop :=
  ∀ stream config, synchronizer.streams.get? stream = some config → Sound stream config

/-- Entries stay, and new ones are sound. -/
structure Gains (first last : Synchronizer) : Prop where
  stays {stream : StreamIdentifier} {config : StreamConfig} :
    first.streams.get? stream = some config → last.streams.get? stream = some config
  new {stream : StreamIdentifier} {config : StreamConfig} : last.streams.get? stream = some config →
    first.streams.get? stream = some config ∨ Sound stream config

/-- Entries go, and none is new. -/
def Loses (first last : Synchronizer) : Prop :=
  ∀ stream config, last.streams.get? stream = some config → first.streams.get? stream = some config

theorem Gains.refl (synchronizer : Synchronizer) : Gains synchronizer synchronizer := ⟨id, .inl⟩

theorem Gains.trans (early : Gains first between) (late : Gains between last) : Gains first last where
  stays found := late.stays (early.stays found)
  new found := (late.new found).elim early.new .inr

theorem Loses.of_same (same : last.streams = first.streams) : Loses first last :=
  fun _ _ found => same ▸ found

theorem Loses.trans (early : Loses first between) (late : Loses between last) : Loses first last :=
  fun stream config found => early stream config (late stream config found)

/-! ## Streams that are tracked from now on -/

/-- The configuration under which a stream is tracked. -/
def entryOf (synchronizer : Synchronizer) (config : StreamConfig) : StreamConfig :=
  match config.arn with
  | some _ => config
  | none => config.withArn (synchronizer.arns.arnFor config.stream).1

theorem activate_streams (synchronizer : Synchronizer) (config : StreamConfig) :
    (synchronizer.activate config).streams =
      synchronizer.streams.insert config.stream (synchronizer.entryOf config) := by
  unfold activate entryOf
  split <;> simp_all

theorem sound_entryOf (synchronizer : Synchronizer) (config : StreamConfig) :
    Sound config.stream (synchronizer.entryOf config) ∧
      (synchronizer.entryOf config).position = config.position := by
  unfold entryOf
  split
  next found => exact ⟨⟨rfl, by rw [found]; rfl⟩, rfl⟩
  next => exact ⟨⟨rfl, rfl⟩, rfl⟩

theorem activate_gains (new : first.streams.contains config.stream = false) :
    Gains first (first.activate config) where
  stays {stream found} here := by
    have differs : stream ≠ config.stream := by
      rintro rfl
      simp [SortedMap.contains, here] at new
    rw [activate_streams, SortedMap.get?_insert_of_ne _ differs, here]
  new {stream found} here := by
    rw [activate_streams] at here
    obtain ⟨rfl, rfl⟩ | ⟨_, here⟩ := SortedMap.get?_insert_eq_some_iff.1 here
    · exact .inr (first.sound_entryOf config).1
    · exact .inl here

theorem foldl_activate_gains {configs : List StreamConfig} (distinct : (configs.map (·.stream)).Nodup)
    (new : ∀ config ∈ configs, first.streams.contains config.stream = false) :
    Gains first (configs.foldl activate first) := by
  induction configs generalizing first with
  | nil => exact .refl first
  | cons config rest ih =>
    obtain ⟨apart, distinct⟩ := List.nodup_cons.1 distinct
    refine (activate_gains (new config List.mem_cons_self)).trans (ih distinct fun other mem => ?_)
    rw [← Bool.not_eq_true, contains_activate, not_or]
    refine ⟨by simp [new other (List.mem_cons_of_mem _ mem)], fun same => ?_⟩
    exact apart (List.mem_map.2 ⟨other, mem, same⟩)

/-- Streams that are tracked from now on leave the entries of others as they are. -/
theorem get?_foldl_activate_of_not_mem {configs : List StreamConfig}
    (apart : stream ∉ configs.map (·.stream)) :
    (configs.foldl activate first).streams.get? stream = first.streams.get? stream := by
  induction configs generalizing first with
  | nil => rfl
  | cons config rest ih =>
    rw [List.map_cons, List.mem_cons, not_or] at apart
    obtain ⟨differs, apart⟩ := apart
    rw [List.foldl_cons, ih apart, activate_streams, SortedMap.get?_insert_of_ne _ differs]

theorem get?_foldl_activate (first : Synchronizer) {configs : List StreamConfig}
    (distinct : (configs.map (·.stream)).Nodup) (mem : config ∈ configs) :
    ∃ between : Synchronizer,
      (configs.foldl activate first).streams.get? config.stream = some (between.entryOf config) := by
  induction configs generalizing first with
  | nil => cases mem
  | cons head rest ih =>
    obtain ⟨apart, distinct⟩ := List.nodup_cons.1 distinct
    obtain rfl | mem := List.mem_cons.1 mem
    · refine ⟨first, ?_⟩
      rw [List.foldl_cons, get?_foldl_activate_of_not_mem apart, activate_streams,
        SortedMap.get?_insert_self]
    · exact ih _ distinct mem

/-! ## Streams that nobody knows -/

/-- Whether a stream is listed by the tracker, as far as the synchronizer looks at its list: with a single
stream only the first one counts. -/
def CountsAsListed (synchronizer : Synchronizer) (configs : List StreamConfig) (stream : StreamIdentifier) :
    Prop :=
  stream ∈ (if synchronizer.sync.multi then configs else configs.take 1).map (·.stream)

/-- Whether a lease has an identifier that is read as the stream. -/
def FoundIn (leases : List Lease) (stream : StreamIdentifier) : Prop :=
  ∃ lease ∈ leases, ∃ text, lease.stream = some text ∧ StreamIdentifier.ofMulti text = .ok stream

theorem contains_streamsToConsume_iff {synchronizer : Synchronizer} {configs : List StreamConfig} :
    (synchronizer.streamsToConsume configs).contains stream = true ↔
      synchronizer.CountsAsListed configs stream := by
  simp [streamsToConsume, SortedMap.contains_ofList, CountsAsListed, Function.comp_def]

theorem mem_streamsOfLeases {leases : List Lease} :
    stream ∈ (streamsOfLeases leases).toList ↔ FoundIn leases stream := by
  simp only [streamsOfLeases, SortedSet.mem_toList_ofList, List.mem_filterMap, FoundIn,
    Option.bind_eq_some_iff]
  have read (text : String) : (StreamIdentifier.ofMulti text).toOption = some stream ↔
      StreamIdentifier.ofMulti text = .ok stream := by
    cases StreamIdentifier.ofMulti text <;> simp [Except.toOption]
  simp only [read]

theorem mem_orphans {configs : List StreamConfig} {leases : List Lease} :
    stream ∈ first.orphans (first.streamsToConsume configs) leases ↔
      FoundIn leases stream ∧ first.streams.contains stream = false ∧ ¬first.CountsAsListed configs stream := by
  rw [orphans, List.mem_filter, mem_streamsOfLeases, ← contains_streamsToConsume_iff]
  simp

theorem nodup_orphans (wanted : SortedMap StreamIdentifier StreamConfig) (leases : List Lease) :
    (first.orphans wanted leases).Nodup :=
  (streamsOfLeases leases).nodup_keys.filter _

theorem adoptOrphans_eq (wanted : SortedMap StreamIdentifier StreamConfig) (position : InitialPosition)
    (leases : List Lease) :
    first.adoptOrphans wanted position leases =
      ((first.orphans wanted leases).map (StreamConfig.ofStream · position)).foldl activate
        { first with reconciled := true } := by
  rw [adoptOrphans, List.foldl_map]

theorem map_stream_ofStream (streams : List StreamIdentifier) (position : InitialPosition) :
    (streams.map (StreamConfig.ofStream · position)).map (·.stream) = streams := by
  rw [List.map_map]
  exact List.map_id _

theorem adoptOrphans_gains (configs : List StreamConfig) (position : InitialPosition) (leases : List Lease) :
    Gains first (first.adoptOrphans (first.streamsToConsume configs) position leases) := by
  have taken : Gains first { first with reconciled := true } := ⟨id, .inl⟩
  rw [adoptOrphans_eq]
  refine taken.trans (foldl_activate_gains ?_ fun config mem => ?_)
  · rw [map_stream_ofStream]
    exact nodup_orphans _ _
  · obtain ⟨stream, orphan, rfl⟩ := List.mem_map.1 mem
    exact (mem_orphans.1 orphan).2.1

/-- What was played when the streams of leases were taken in. -/
theorem takeInLeases_plays {leases : List Lease} {count : Nat}
    (plays : (first.takeInLeases leases : Script σ Job _).Plays past (.done (count, last))) :
    ∃ configs position, past = [.asked .orphanPosition position, .asked .trackedStreams configs] ∧
      count = (first.orphans (first.streamsToConsume configs) leases).length ∧
      last = first.adoptOrphans (first.streamsToConsume configs) position leases := by
  obtain ⟨configs, past, afterList, rfl⟩ := Script.Plays.of_query plays
  obtain ⟨position, past, atEnd, rfl⟩ := Script.Plays.of_query afterList
  obtain ⟨rfl, same⟩ := Script.Plays.of_done atEnd
  obtain ⟨rfl, rfl⟩ := Prod.mk.inj same
  exact ⟨configs, position, rfl, rfl, rfl⟩

/-- What has become of the tracked streams when those of leases were taken in: the streams that were
added, and what the same call would add again. -/
structure TakenIn (first last : Synchronizer) (leases : List Lease) (configs : List StreamConfig)
    (position : InitialPosition) (added : List StreamIdentifier) : Prop where
  known : ∀ stream, FoundIn leases stream →
    last.streams.contains stream = true ∨ first.CountsAsListed configs stream
  tracked : ∀ stream, last.streams.contains stream = true ↔
    first.streams.contains stream = true ∨ stream ∈ added
  distinct : added.Nodup
  added_iff : ∀ stream, stream ∈ added ↔
    FoundIn leases stream ∧ first.streams.contains stream = false ∧ ¬first.CountsAsListed configs stream
  stays : ∀ stream config, first.streams.get? stream = some config → last.streams.get? stream = some config
  fromPosition : ∀ stream ∈ added, ∃ config, last.streams.get? stream = some config ∧ config.position = position

theorem takenIn_adoptOrphans (configs : List StreamConfig) (position : InitialPosition) (leases : List Lease) :
    TakenIn first (first.adoptOrphans (first.streamsToConsume configs) position leases) leases configs position
      (first.orphans (first.streamsToConsume configs) leases) := by
  have distinct := first.nodup_orphans (first.streamsToConsume configs) leases
  have tracked (stream : StreamIdentifier) :
      (first.adoptOrphans (first.streamsToConsume configs) position leases).streams.contains stream = true ↔
        first.streams.contains stream = true ∨
          stream ∈ first.orphans (first.streamsToConsume configs) leases := by
    rw [adoptOrphans_eq, contains_foldl_activate, map_stream_ofStream]
  refine ⟨fun stream found => ?_, tracked, distinct, fun stream => mem_orphans,
    fun stream config here => (adoptOrphans_gains configs position leases).stays here, fun stream mem => ?_⟩
  · by_cases listed : first.CountsAsListed configs stream
    · exact .inr listed
    · rw [tracked, mem_orphans]
      by_cases here : first.streams.contains stream = true
      · exact .inl (.inl here)
      · exact .inl (.inr ⟨found, by simpa using here, listed⟩)
  · have among : StreamConfig.ofStream stream position ∈
        (first.orphans (first.streamsToConsume configs) leases).map (StreamConfig.ofStream · position) :=
      List.mem_map.2 ⟨stream, mem, rfl⟩
    obtain ⟨between, entry⟩ := get?_foldl_activate { first with reconciled := true }
      (by rwa [map_stream_ofStream]) among
    rw [adoptOrphans_eq]
    exact ⟨_, entry, (between.sound_entryOf _).2⟩

/-! ## Passes -/

theorem reconcile_gains (plays : (first.reconcile stopped : Script σ Job _).Plays past (.done (.ok last))) :
    Gains first last := by
  unfold reconcile at plays
  split at plays
  · obtain ⟨_, past, result, _, taken, rfl⟩ := Script.Plays.of_bind plays
    cases result with
    | error error => cases (Script.Plays.of_done taken).2
    | ok leases =>
      obtain ⟨_, past, ⟨count, adopted⟩, taking, atEnd, rfl⟩ := Script.Plays.of_bind taken
      obtain ⟨configs, position, _, _, rfl⟩ := takeInLeases_plays taking
      cases (Script.Plays.of_done atEnd).2
      exact adoptOrphans_gains configs position leases
  · cases (Script.Plays.of_done plays).2
    exact .refl first

theorem syncNewStreams_gains {configs : List StreamConfig} {before changed : Changed}
    (plays : (syncNewStreams stopped (first.newStreams (first.streamsToConsume configs)) first before :
      Script σ Job _).Plays past (.done (changed, last))) : Gains first last := by
  obtain ⟨synced, unsynced, each, rfl, -⟩ := syncNewStreams_plays plays
  obtain ⟨distinct, fresh⟩ := first.newStreams_fresh configs
  refine foldl_activate_gains (distinct.sublist (each.done_sublist.map _)) fun config mem => ?_
  exact ((fresh config.stream).1 (List.mem_map.2 ⟨config, each.mem_iff.2 (.inl mem), rfl⟩)).2

theorem applyStrategy_loses (wanted : SortedMap StreamIdentifier StreamConfig) (strategy : DeletionStrategy)
    (now : Nat) : Loses first (first.applyStrategy wanted strategy now).2 := by
  cases strategy with
  | keep => exact fun _ _ found => (SortedMap.get?_foldl_erase.1 found).1
  | afterAbsence wait => exact .of_same rfl
  | named streams wait => exact .of_same rfl

theorem retireStreams_loses {wanted : SortedMap StreamIdentifier StreamConfig} {before changed : Changed}
    (plays : (first.retireStreams stopped wanted before : Script σ Job _).Plays past (.done (changed, last))) :
    Loses first last := by
  obtain ⟨now, strategy, deleting, deleted, undeleted, -, rfl, -⟩ := retireStreams_plays plays
  refine (applyStrategy_loses wanted strategy now).trans fun stream config found => ?_
  rw [(streams_foldl_dropStream deleted _).1] at found
  exact (SortedMap.get?_foldl_erase.1 found).1

/-- The end of a pass changes no entry. -/
theorem ending_streams {changed : Changed} {result : Except WorkerError Changed}
    (plays : ((do
      let now ← Script.query .clock
      Script.gaugeNat .trackedStreams first.streams.size
      Script.record (.sample .streamSync)
      return (.ok changed, { first with lastSync := some now })) :
        Script σ Job (Except WorkerError Changed × Synchronizer)).Plays past (.done (result, last))) :
    last.streams = first.streams := by
  obtain ⟨_, past, afterEnd, rfl⟩ := Script.Plays.of_query plays
  obtain ⟨⟨⟩, past, afterGauge, rfl⟩ := Script.Plays.of_query afterEnd
  obtain ⟨⟨⟩, past, atEnd, rfl⟩ := Script.Plays.of_query afterGauge
  cases (Script.Plays.of_done atEnd).2
  rfl

/-- However a pass ends, it gains entries and then loses entries. -/
theorem runPass_gains_loses {force : Bool} {result : Except WorkerError Changed}
    (plays : (first.runPass stopped force : Script σ Job _).Plays past (.done (result, last))) :
    ∃ between, Gains first between ∧ Loses between last := by
  obtain ⟨_, past, afterClock, rfl⟩ := Script.Plays.of_query plays
  split at afterClock
  case isTrue =>
    cases (Script.Plays.of_done afterClock).2
    exact ⟨first, .refl first, .of_same rfl⟩
  case isFalse =>
    obtain ⟨_, past, reconciled, reconciling, afterwards, rfl⟩ := Script.Plays.of_bind afterClock
    cases reconciled with
    | error error =>
      cases (Script.Plays.of_done afterwards).2
      exact ⟨first, .refl first, .of_same rfl⟩
    | ok base =>
      obtain ⟨configs, past, afterList, rfl⟩ := Script.Plays.of_query afterwards
      obtain ⟨_, past, ⟨news, synced⟩, syncing, afterSyncing, rfl⟩ := Script.Plays.of_bind afterList
      refine ⟨synced, (reconcile_gains reconciling).trans (syncNewStreams_gains syncing), ?_⟩
      dsimp only at afterSyncing
      split at afterSyncing
      · obtain ⟨_, past, ⟨all, retired⟩, retiring, atEnd, rfl⟩ := Script.Plays.of_bind afterSyncing
        exact (retireStreams_loses retiring).trans (.of_same (ending_streams atEnd))
      · exact .of_same (ending_streams afterSyncing)

/-! ## Runs -/

/-- One of the two calls of a synchronizer, played to its end. -/
inductive Call (Job : Type) (stopped : σ → Bool) (first last : Synchronizer) : Prop
  | takeIn {leases : List Lease} {past : Journal σ} {count : Nat}
    (plays : (first.takeInLeases leases : Script σ Job _).Plays past (.done (count, last)))
  | pass {force : Bool} {past : Journal σ} {result : Except WorkerError Changed}
    (plays : (first.runPass stopped force : Script σ Job _).Plays past (.done (result, last)))

/-- Calls one after another, with the state after each one. -/
inductive Calls (Job : Type) (stopped : σ → Bool) : Synchronizer → List Synchronizer → Prop
  | nil (first : Synchronizer) : Calls Job stopped first []
  | cons {first next : Synchronizer} {states : List Synchronizer} (call : Call Job stopped first next)
    (calls : Calls Job stopped next states) : Calls Job stopped first (next :: states)

theorem Call.gains_loses (call : Call Job stopped first last) :
    ∃ between, Gains first between ∧ Loses between last := by
  cases call with
  | takeIn plays =>
    obtain ⟨configs, position, -, -, rfl⟩ := takeInLeases_plays plays
    exact ⟨_, adoptOrphans_gains configs position _, .of_same rfl⟩
  | pass plays => exact runPass_gains_loses plays

theorem Call.wellTracked (call : Call Job stopped first last) (well : first.WellTracked) :
    last.WellTracked := by
  obtain ⟨between, gains, loses⟩ := call.gains_loses
  intro stream config found
  exact (gains.new (loses stream config found)).elim (well stream config) id

/-- A stream that is tracked before and after a call has the same configuration. -/
theorem Call.config_stays (call : Call Job stopped first last)
    (found : first.streams.get? stream = some config) (still : last.streams.contains stream = true) :
    last.streams.get? stream = some config := by
  obtain ⟨between, gains, loses⟩ := call.gains_loses
  obtain ⟨other, here⟩ := Option.isSome_iff_exists.1 still
  have same := (loses stream other here).symm.trans (gains.stays found)
  rw [here, same]

theorem Calls.wellTracked {states : List Synchronizer} (calls : Calls Job stopped first states)
    (well : first.WellTracked) : ∀ state ∈ first :: states, state.WellTracked := by
  induction calls with
  | nil first => simpa using well
  | cons call calls ih => exact List.forall_mem_cons.2 ⟨well, ih (call.wellTracked well)⟩

theorem Calls.config_stays {states : List Synchronizer} (calls : Calls Job stopped first states)
    (found : first.streams.get? stream = some config)
    (still : ∀ state ∈ states, state.streams.contains stream = true) :
    ∀ state ∈ states, state.streams.get? stream = some config := by
  induction calls with
  | nil => simp
  | cons call calls ih =>
    obtain ⟨here, later⟩ := List.forall_mem_cons.1 still
    have next := call.config_stays found here
    exact List.forall_mem_cons.2 ⟨next, ih next later⟩

theorem Calls.later {early late : List Synchronizer} {state : Synchronizer}
    (calls : Calls Job stopped first (early ++ state :: late)) : Calls Job stopped state late := by
  induction early generalizing first with
  | nil => cases calls with | cons _ calls => exact calls
  | cons _ early ih => cases calls with | cons _ calls => exact ih calls

theorem Calls.upTo {early late : List Synchronizer} (calls : Calls Job stopped first (early ++ late)) :
    Calls Job stopped first early := by
  induction early generalizing first with
  | nil => exact .nil first
  | cons _ early ih => cases calls with | cons call calls => exact .cons call (ih calls)

/-! ## Taking in the same leases again -/

theorem foldl_activate_reconciled (configs : List StreamConfig) :
    (configs.foldl activate first).reconciled = first.reconciled := by
  induction configs generalizing first with
  | nil => rfl
  | cons config rest ih =>
    rw [List.foldl_cons, ih]
    unfold activate
    split <;> rfl

/-- With the same list of the tracker there is nothing left to take in. -/
theorem adoptOrphans_again (configs : List StreamConfig) (position again : InitialPosition)
    (leases : List Lease) :
    let next := first.adoptOrphans (first.streamsToConsume configs) position leases
    next.orphans (next.streamsToConsume configs) leases = [] ∧
      next.adoptOrphans (next.streamsToConsume configs) again leases = next := by
  intro next
  have taken := first.takenIn_adoptOrphans configs position leases
  have sameSync : next.sync = first.sync := (first.adoptOrphans_sameNotes _ position leases).sync
  have none_left : next.orphans (next.streamsToConsume configs) leases = [] := by
    refine List.eq_nil_iff_forall_not_mem.2 fun stream mem => ?_
    obtain ⟨found, untracked, unlisted⟩ := mem_orphans.1 mem
    obtain tracked | listed := taken.known stream found
    · exact Bool.false_ne_true (untracked.symm.trans tracked)
    · exact unlisted (by rwa [CountsAsListed, sameSync])
  have marked : next.reconciled = true := by
    show (first.adoptOrphans _ position leases).reconciled = true
    rw [adoptOrphans_eq, foldl_activate_reconciled]
  refine ⟨none_left, ?_⟩
  rw [adoptOrphans_eq, none_left, List.map_nil, List.foldl_nil, ← marked]

/-- Over every run of the two calls, whatever is answered, each tracked stream has a configuration of its
own with an ARN, and the same one as long as it is tracked. When leases are taken in, all their streams are
tracked or listed, those that were neither are added from the given position, and the same call adds no
stream again. -/
theorem tracked_configs_stay {states : List Synchronizer} (unused : first.streams = .empty)
    (calls : Calls Job stopped first states) :
    (∀ state ∈ first :: states, state.WellTracked) ∧
      (∀ early state during late, first :: states = early ++ state :: (during ++ late) →
        ∀ stream config, state.streams.get? stream = some config →
          (∀ next ∈ during, next.streams.contains stream = true) →
            ∀ next ∈ during, next.streams.get? stream = some config) ∧
      ∀ state ∈ first :: states, ∀ leases past count last,
        (state.takeInLeases leases : Script σ Job _).Plays past (.done (count, last)) →
          ∃ configs position added,
            past = [.asked .orphanPosition position, .asked .trackedStreams configs] ∧
              TakenIn state last leases configs position added ∧ count = added.length ∧
              ∀ again countAgain lastAgain,
                (last.takeInLeases leases : Script σ Job _).Plays
                    [.asked .orphanPosition again, .asked .trackedStreams configs]
                    (.done (countAgain, lastAgain)) →
                  countAgain = 0 ∧ lastAgain = last := by
  have well : first.WellTracked := fun stream config found => by simp [unused] at found
  refine ⟨calls.wellTracked well, fun early state during late parts stream config found still => ?_,
    fun state _ leases past count last plays => ?_⟩
  · cases early with
    | nil =>
      obtain ⟨rfl, rfl⟩ := List.cons.inj parts
      exact calls.upTo.config_stays found still
    | cons other early =>
      obtain ⟨rfl, rfl⟩ := List.cons.inj parts
      exact calls.later.upTo.config_stays found still
  · obtain ⟨configs, position, rfl, rfl, rfl⟩ := takeInLeases_plays plays
    refine ⟨configs, position, _, rfl, state.takenIn_adoptOrphans configs position leases, rfl,
      fun again countAgain lastAgain playsAgain => ?_⟩
    obtain ⟨nothing, same⟩ := state.adoptOrphans_again configs position again leases
    obtain ⟨_, _, journal, rfl, rfl⟩ := takeInLeases_plays playsAgain
    simp only [List.cons.injEq, Act.asked.injEq, heq_eq_eq, true_and, and_true] at journal
    obtain ⟨rfl, rfl⟩ := journal
    exact ⟨by rw [nothing]; rfl, same⟩

/-- A stream that only a lease knows is taken in, and the next pass, which keeps its leases, forgets it. -/
theorem tracked_configs_stay_of_orphan : ∃ adopted forgotten : Synchronizer,
    Calls Unit (fun _ : Unit => false) blankSynchronizer [adopted, forgotten] ∧ adopted.WellTracked ∧
      adopted.streams.contains ordersStream = true ∧ forgotten.streams.contains ordersStream = false := by
  obtain ⟨taken, count, adopted, takes, tracked⟩ : ∃ past count adopted,
      (blankSynchronizer.takeInLeases [ordersLease] : Script Unit Unit _).answered
          (passAnswers 0 [] .keep) () [] = some (past, count, adopted) ∧
        adopted.streams.contains ordersStream = true :=
    ⟨_, _, _, rfl, by decide +kernel⟩
  obtain ⟨past, result, forgotten, passes, untracked⟩ : ∃ past result forgotten,
      (adopted.runPass (fun _ => false) true : Script Unit Unit _).answered
          (passAnswers 0 [] .keep) () [] = some (past, result, forgotten) ∧
        forgotten.streams.contains ordersStream = false := by
    cases takes
    exact ⟨_, _, _, rfl, by decide +kernel⟩
  have calls : Calls Unit (fun _ : Unit => false) blankSynchronizer [adopted, forgotten] :=
    .cons (.takeIn (Script.plays_of_answered .start takes))
      (.cons (.pass (Script.plays_of_answered .start passes)) (.nil _))
  exact ⟨adopted, forgotten, calls, (tracked_configs_stay rfl calls).1 adopted (by simp), tracked, untracked⟩

/-- With a single stream only the first one of the list counts: another one that the tracker lists is added
when a lease of it is found. -/
theorem listed_stream_added_beside_single :
    let first := { blankSynchronizer with sync := { multi := false, retry := .standard } }
    let configs := [.ofStream { ordersStream with streamName := "payments" } .latest,
      .ofStream ordersStream .latest]
    ¬∀ past count last,
      (first.takeInLeases [ordersLease] : Script Unit Unit _).Plays past (.done (count, last)) →
        .asked .trackedStreams configs ∈ past →
          ∀ stream, last.streams.contains stream = true → first.streams.contains stream = false →
            Lacks configs stream := by
  intro first configs unlisted
  obtain ⟨past, count, last, takes, read, tracked⟩ : ∃ past count last,
      (first.takeInLeases [ordersLease] : Script Unit Unit _).answered
          (passAnswers 0 configs .keep) () [] = some (past, count, last) ∧
        .asked .trackedStreams configs ∈ past ∧ last.streams.contains ordersStream = true :=
    ⟨_, _, _, rfl, by simp [passAnswers], by decide +kernel⟩
  exact unlisted past count last (Script.plays_of_answered .start takes) read ordersStream tracked rfl
    (by simp [configs, StreamConfig.ofStream])

end Synchronizer

end LeaseFleet
