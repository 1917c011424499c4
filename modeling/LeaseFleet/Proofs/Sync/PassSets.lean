import LeaseFleet.Proofs.Stream.LeaseKeys
import LeaseFleet.Proofs.Sync.DeletedLeases

/-!
# What a pass does to the sets of streams

Of the streams to consume, a pass tracks all but the new ones whose sync has failed, and none of them
is stale after it. What happens to the others is up to the strategy: they are forgotten at once, and
their leases stay, or they are tracked until their leases are deleted (`runPass_sets`).
-/

namespace LeaseFleet

namespace Synchronizer

variable {synchronizer : Synchronizer} {stream : StreamIdentifier}

/-! ## Streams that are tracked -/

@[simp] theorem contains_activate {config : StreamConfig} :
    (synchronizer.activate config).streams.contains stream = true ↔
      synchronizer.streams.contains stream = true ∨ stream = config.stream := by
  have inserted (value : StreamConfig) :
      (synchronizer.streams.insert config.stream value).contains stream = true ↔
        synchronizer.streams.contains stream = true ∨ stream = config.stream := by
    by_cases same : stream = config.stream
    · simp [same, SortedMap.contains]
    · simp [same, SortedMap.contains, SortedMap.get?_insert_of_ne]
  unfold activate
  split <;> exact inserted _

theorem contains_foldl_activate {configs : List StreamConfig} :
    (configs.foldl activate synchronizer).streams.contains stream = true ↔
      synchronizer.streams.contains stream = true ∨ stream ∈ configs.map (·.stream) := by
  induction configs generalizing synchronizer with
  | nil => simp
  | cons config rest ih => simp [ih, or_assoc]

theorem streams_foldl_dropStream (streams : List StreamIdentifier) (synchronizer : Synchronizer) :
    (streams.foldl dropStream synchronizer).streams = streams.foldl SortedMap.erase synchronizer.streams ∧
      (streams.foldl dropStream synchronizer).stale = streams.foldl SortedMap.erase synchronizer.stale := by
  induction streams generalizing synchronizer with
  | nil => exact ⟨rfl, rfl⟩
  | cons head rest ih => exact ih _

/-- Only the strategy that keeps the leases makes forget streams: those that are not to be consumed. -/
theorem contains_applyStrategy {wanted : SortedMap StreamIdentifier StreamConfig}
    {strategy : DeletionStrategy} {now : Nat} :
    (synchronizer.applyStrategy wanted strategy now).2.streams.contains stream = true ↔
      synchronizer.streams.contains stream = true ∧
        (strategy = .keep → wanted.contains stream = true) := by
  cases strategy with
  | keep =>
    simp only [applyStrategy, forget, revive, SortedMap.contains_foldl_erase, absentStreams,
      List.mem_filter, SortedMap.mem_keys]
    grind
  | afterAbsence wait => simp [applyStrategy, markStale, revive]
  | named streams wait => simp [applyStrategy, markStale, revive]

theorem mem_forgotten {wanted : SortedMap StreamIdentifier StreamConfig} {strategy : DeletionStrategy}
    {now : Nat} :
    stream ∈ (synchronizer.applyStrategy wanted strategy now).1 ↔
      strategy = .keep ∧ synchronizer.streams.contains stream = true ∧ wanted.contains stream = false := by
  cases strategy with
  | keep => simp [applyStrategy, absentStreams, SortedMap.mem_keys]
  | afterAbsence wait => simp [applyStrategy]
  | named streams wait => simp [applyStrategy]

/-! ## Streams of a pass -/

/-- Of the streams to consume that are not tracked, each is a new stream once. -/
theorem newStreams_fresh (synchronizer : Synchronizer) (configs : List StreamConfig) :
    let names := (synchronizer.newStreams (synchronizer.streamsToConsume configs)).map (·.stream)
    names.Nodup ∧ ∀ stream, stream ∈ names ↔
      (synchronizer.streamsToConsume configs).contains stream = true ∧
        synchronizer.streams.contains stream = false := by
  let news := (synchronizer.streamsToConsume configs).filter fun stream _ =>
    !synchronizer.streams.contains stream
  have named : news.values.map (·.stream) = news.keys := by
    rw [SortedMap.values, SortedMap.keys, List.map_map]
    refine List.map_congr_left fun entry mem => ?_
    have found := SortedMap.get?_eq_some_iff.2 mem
    rw [SortedMap.get?_filter, Option.filter_eq_some_iff] at found
    obtain ⟨config, _, same⟩ := List.mem_map.1 (SortedMap.mem_of_get?_ofList found.1)
    obtain ⟨name, rfl⟩ := Prod.mk.inj same
    exact name
  show (news.values.map (·.stream)).Nodup ∧ ∀ stream, stream ∈ news.values.map (·.stream) ↔ _
  rw [named]
  refine ⟨news.nodup_keys, fun stream => ?_⟩
  rw [SortedMap.mem_keys]
  simp only [news, SortedMap.contains, SortedMap.get?_filter]
  cases (synchronizer.streamsToConsume configs).get? stream <;> simp [Option.filter]

/-- Of the new streams each is listed once: they are to be consumed and not tracked. -/
theorem newStreams_names (multi : synchronizer.sync.multi = true) (configs : List StreamConfig) :
    let names := (synchronizer.newStreams (synchronizer.streamsToConsume configs)).map (·.stream)
    names.Nodup ∧ ∀ stream, stream ∈ names ↔
      ¬Lacks configs stream ∧ synchronizer.streams.contains stream = false := by
  obtain ⟨distinct, fresh⟩ := synchronizer.newStreams_fresh configs
  exact ⟨distinct, fun stream => by rw [fresh, contains_streamsToConsume multi]⟩

theorem nodup_expiredStreams (synchronizer : Synchronizer) (strategy : DeletionStrategy) (now : Nat) :
    (synchronizer.expiredStreams strategy now).Nodup := by
  unfold expiredStreams
  split
  · exact List.nodup_nil
  · exact synchronizer.stale.nodup_keys.sublist (List.filter_sublist.map _)

end Synchronizer

/-! ## The sets after a pass -/

namespace PassParts

variable {σ Job : Type} {parts : PassParts σ} {stopped : σ → Bool} {first : Synchronizer}
  {stream : StreamIdentifier}

/-- What is tracked after a pass. -/
theorem contains_last : parts.last.streams.contains stream = true ↔
    (parts.base.streams.contains stream = true ∨ stream ∈ parts.synced.map (·.stream)) ∧
      (parts.strategy = .keep → parts.wanted.contains stream = true) ∧ stream ∉ parts.deleted := by
  have dropped := (Synchronizer.streams_foldl_dropStream parts.deleted parts.applied.2).1
  show (parts.deleted.foldl Synchronizer.dropStream parts.applied.2).streams.contains stream = true ↔ _
  rw [dropped, SortedMap.contains_foldl_erase, applied, Synchronizer.contains_applyStrategy,
    Synchronizer.contains_foldl_activate, and_assoc]

/-- What is stale after a pass. -/
theorem stale_last {since : Nat} : parts.last.stale.get? stream = some since ↔
    (parts.wanted.contains stream = false ∧ (parts.base.stale.get? stream = some since ∨
      parts.base.stale.get? stream = none ∧
        stream ∈ (parts.synced.foldl Synchronizer.activate parts.base).marks parts.strategy ∧
        since = parts.now)) ∧ stream ∉ parts.deleted := by
  have dropped := (Synchronizer.streams_foldl_dropStream parts.deleted parts.applied.2).2
  have notes := (Synchronizer.foldl_activate_sameNotes parts.base parts.synced).stale
  show (parts.deleted.foldl Synchronizer.dropStream parts.applied.2).stale.get? stream = some since ↔ _
  rw [dropped, SortedMap.get?_foldl_erase, applied, Synchronizer.stale_applyStrategy, notes]

theorem contains_changed : parts.changed.contains stream = true ↔
    stream ∈ parts.synced.map (·.stream) ∨ stream ∈ parts.applied.1 ∨ stream ∈ parts.deleted := by
  rw [changed, SortedSet.contains_insertAll, SortedSet.contains_insertAll, SortedSet.contains_insertAll]
  simp [SortedMap.contains, or_assoc]

/-- What a pass has done to the sets, where those before it are counted once the streams of the lease
table have been taken in. -/
structure Sets (parts : PassParts σ) (changed : Synchronizer.Changed) (next : Synchronizer) : Prop where
  /-- No stream to consume is stale. -/
  revived : ∀ stream, ¬Lacks parts.configs stream → next.stale.get? stream = none
  stays : ∀ stream, ¬Lacks parts.configs stream → parts.base.streams.contains stream = true →
    next.streams.contains stream = true
  enters : ∀ stream, ¬Lacks parts.configs stream → parts.base.streams.contains stream = false →
    stream ∉ parts.unsynced.map (·.stream) → next.streams.contains stream = true
  /-- Streams whose leases are kept are forgotten at once. -/
  forgets : parts.strategy = .keep → ∀ stream, next.streams.contains stream = true ↔
    ¬Lacks parts.configs stream ∧ stream ∉ parts.unsynced.map (·.stream)
  /-- Other streams wait for their deletion. -/
  awaits : ∀ wait, parts.strategy = .afterAbsence wait → ∀ stream,
    next.streams.contains stream = true → Lacks parts.configs stream →
      (next.stale.get? stream).isSome = true
  leaves : parts.strategy ≠ .keep → ∀ stream, parts.base.streams.contains stream = true →
    next.streams.contains stream = false → stream ∈ parts.deleted
  /-- A stream whose deletion has failed is stale since the instant that was noted before, or since
  now if it was not stale. -/
  waitsOn : ∀ stream ∈ parts.undeleted,
    next.stale.get? stream = some ((parts.base.stale.get? stream).getD parts.now)
  reports : ∀ stream, parts.base.streams.contains stream ≠ next.streams.contains stream →
    changed.contains stream = true

theorem contains_wanted (multi : parts.base.sync.multi = true) :
    parts.wanted.contains stream = true ↔ ¬Lacks parts.configs stream :=
  Synchronizer.contains_streamsToConsume multi

theorem not_contains_wanted (multi : parts.base.sync.multi = true) :
    parts.wanted.contains stream = false ↔ Lacks parts.configs stream := by
  rw [← Bool.not_eq_true, contains_wanted multi, Classical.not_not]

namespace Played

variable (played : parts.Played Job stopped first) (multi : parts.base.sync.multi = true)

include played multi

/-- A new stream was synced or was not. -/
theorem mem_new : stream ∈ parts.synced.map (·.stream) ∨ stream ∈ parts.unsynced.map (·.stream) ↔
    ¬Lacks parts.configs stream ∧ parts.base.streams.contains stream = false := by
  rw [← (Synchronizer.newStreams_names multi parts.configs).2 stream]
  simp only [List.mem_map]
  show _ ↔ ∃ config ∈ parts.base.newStreams parts.wanted, config.stream = stream
  simp only [played.syncs.mem_iff, or_and_right, exists_or]

theorem not_unsynced (synced : stream ∈ parts.synced.map (·.stream)) :
    stream ∉ parts.unsynced.map (·.stream) := by
  obtain ⟨good, goodMem, rfl⟩ := List.mem_map.1 synced
  intro unsynced
  obtain ⟨bad, badMem, same⟩ := List.mem_map.1 unsynced
  exact played.syncs.disjoint (Synchronizer.newStreams_names multi parts.configs).1 goodMem badMem same.symm

omit multi in
/-- A stream that is due is stale once the strategy was applied. -/
theorem due (mem : stream ∈ parts.deleted ∨ stream ∈ parts.undeleted) :
    (∃ wait, parts.strategy.waitPeriod? = some wait) ∧
      ∃ since, parts.applied.2.stale.get? stream = some since := by
  obtain ⟨wait, since, waits, found, _⟩ := Synchronizer.mem_expiredStreams.1 (played.deletes.mem_iff.2 mem)
  exact ⟨⟨wait, waits⟩, since, found⟩

theorem lacks_of_due (mem : stream ∈ parts.deleted ∨ stream ∈ parts.undeleted) :
    Lacks parts.configs stream := by
  obtain ⟨_, since, found⟩ := played.due mem
  exact (not_contains_wanted multi).1 (Synchronizer.stale_applyStrategy.1 found).1

omit multi in
theorem not_deleted (undeleted : stream ∈ parts.undeleted) : stream ∉ parts.deleted := by
  have distinct : ((parts.applied.2.expiredStreams parts.strategy parts.now).map id).Nodup := by
    rw [List.map_id]
    exact Synchronizer.nodup_expiredStreams ..
  exact fun deleted => played.deletes.disjoint distinct deleted undeleted rfl

/-- The sets after a pass, from what its parts have come to. -/
theorem sets : parts.Sets parts.changed parts.last := by
  have wanted {stream : StreamIdentifier} (listed : ¬Lacks parts.configs stream) :
      parts.wanted.contains stream = true := (contains_wanted multi).2 listed
  have notDue {stream : StreamIdentifier} (listed : ¬Lacks parts.configs stream) :
      stream ∉ parts.deleted := fun deleted => listed (played.lacks_of_due multi (.inl deleted))
  have isNew (stream : StreamIdentifier) : _ ↔ ¬Lacks parts.configs stream ∧ _ := played.mem_new multi
  refine ⟨?revived, ?stays, ?enters, ?forgets, ?awaits, ?leaves, ?waitsOn, ?reports⟩
  case revived =>
    intro stream listed
    refine Option.eq_none_iff_forall_ne_some.2 fun since found => ?_
    exact listed ((not_contains_wanted multi).1 (stale_last.1 found).1.1)
  case stays =>
    exact fun stream listed tracked => contains_last.2 ⟨.inl tracked, fun _ => wanted listed, notDue listed⟩
  case enters =>
    intro stream listed untracked notFailed
    have synced := ((isNew stream).2 ⟨listed, untracked⟩).resolve_right notFailed
    exact contains_last.2 ⟨.inr synced, fun _ => wanted listed, notDue listed⟩
  case forgets =>
    intro keeps stream
    rw [contains_last]
    constructor
    · rintro ⟨known, isWanted, _⟩
      refine ⟨(contains_wanted multi).1 (isWanted keeps), fun failed => ?_⟩
      obtain tracked | synced := known
      · exact absurd tracked (by simp [((isNew stream).1 (.inr failed)).2])
      · exact played.not_unsynced multi synced failed
    · rintro ⟨listed, notFailed⟩
      refine ⟨?_, fun _ => wanted listed, notDue listed⟩
      by_cases tracked : parts.base.streams.contains stream = true
      · exact .inl tracked
      · exact .inr (((isNew stream).2 ⟨listed, by simpa using tracked⟩).resolve_right notFailed)
  case awaits =>
    intro wait isAfter stream tracked lacks
    obtain ⟨known, _, notDeleted⟩ := contains_last.1 tracked
    have marked : stream ∈ (parts.synced.foldl Synchronizer.activate parts.base).marks parts.strategy := by
      rw [isAfter]
      exact SortedMap.mem_keys.2 (Synchronizer.contains_foldl_activate.2 known)
    have notWanted := (not_contains_wanted multi).2 lacks
    cases noted : parts.base.stale.get? stream with
    | some since =>
      exact Option.isSome_iff_exists.2 ⟨since, stale_last.2 ⟨⟨notWanted, .inl noted⟩, notDeleted⟩⟩
    | none =>
      exact Option.isSome_iff_exists.2
        ⟨parts.now, stale_last.2 ⟨⟨notWanted, .inr ⟨noted, marked, rfl⟩⟩, notDeleted⟩⟩
  case leaves =>
    intro deferred stream tracked left
    refine Classical.byContradiction fun notDeleted => ?_
    have still := contains_last.2 ⟨.inl tracked, fun keeps => absurd keeps deferred, notDeleted⟩
    exact Bool.false_ne_true (left.symm.trans still)
  case waitsOn =>
    intro stream undeleted
    obtain ⟨_, since, found⟩ := played.due (.inr undeleted)
    have before := Synchronizer.stale_applyStrategy.1 found
    rw [(Synchronizer.foldl_activate_sameNotes parts.base parts.synced).stale] at before
    rw [stale_last.2 ⟨before, played.not_deleted undeleted⟩]
    obtain ⟨_, noted | ⟨new, _, rfl⟩⟩ := before
    · rw [noted, Option.getD_some]
    · rw [new, Option.getD_none]
  case reports =>
    intro stream differs
    rw [contains_changed]
    cases tracked : parts.base.streams.contains stream with
    | false =>
      have entered : parts.last.streams.contains stream = true := by
        simpa [tracked] using differs.symm
      exact .inl ((contains_last.1 entered).1.resolve_left (by simp [tracked]))
    | true =>
      have left : parts.last.streams.contains stream = false := by
        simpa [tracked] using differs.symm
      refine .inr (Classical.or_iff_not_imp_right.2 fun notDeleted => ?_)
      -- what was not deleted was forgotten
      have unwanted : ¬(parts.strategy = .keep → parts.wanted.contains stream = true) := fun still =>
        Bool.false_ne_true (left.symm.trans (contains_last.2 ⟨.inl tracked, still, notDeleted⟩))
      obtain ⟨keeps, unwanted⟩ := Classical.not_imp.1 unwanted
      exact Synchronizer.mem_forgotten.2
        ⟨keeps, Synchronizer.contains_foldl_activate.2 (.inl tracked), by simpa using unwanted⟩

end Played

end PassParts

/-- Whatever a pass deletes it has listed for a stream to consume, and what is stored under the key by
then does not carry a missing stream. -/
def PassParts.SparesMissing {σ : Type} (parts : PassParts σ) : Prop :=
  ∀ ⦃leaseKey : String⦄ ⦃reply : Except StoreError Unit⦄ ⦃before : Journal σ⦄,
    .asked (.store (.delete leaseKey)) reply :: before <:+ parts.journal →
      (∃ config ∈ parts.configs, ListedFor (some config.stream.serialize) leaseKey before) ∧
        ∀ ⦃table : LeaseTable⦄, before.OnTable table → ∀ ⦃stored : Lease⦄,
          table.get? leaseKey = some stored →
            ∀ ⦃stream : StreamIdentifier⦄ ⦃text : String⦄, StreamIdentifier.ofMulti text = .ok stream →
              Lacks parts.configs stream → stored.stream ≠ some stream.serialize

theorem PassParts.Played.sparesMissing {σ Job : Type} {parts : PassParts σ} {stopped : σ → Bool}
    {first : Synchronizer} (played : parts.Played Job stopped first)
    (multi : parts.base.sync.multi = true) (keeps : parts.strategy = .keep)
    (read : ∀ config ∈ parts.configs, ∃ text, StreamIdentifier.ofMulti text = .ok config.stream) :
    parts.SparesMissing := by
  intro leaseKey reply before found
  obtain ⟨_, ⟨config, mem, rfl⟩, listed⟩ := played.trims keeps found
  rw [ShardSync.leaseStream, if_pos multi] at listed
  refine ⟨⟨config, mem, listed⟩, fun table onTable stored here stream text readText lacks carries => ?_⟩
  -- streams that were read with their account have different serializations
  have same := Option.some.inj ((listed.stream_eq onTable here).symm.trans carries)
  obtain ⟨other, readOther⟩ := read config mem
  have isListed := StreamIdentifier.serialize_injective readOther readText same
  exact lacks (isListed ▸ List.mem_map_of_mem mem)

/-- A pass that comes to an end well has done to the sets of streams what its parts have come to, unless
it was not due and is skipped. If missing streams are forgotten, none of their leases is deleted, as long
as streams were read with their account. -/
theorem runPass_sets {σ Job : Type} {stopped : σ → Bool} {synchronizer next : Synchronizer} {force : Bool}
    {changed : Synchronizer.Changed} {past : Journal σ} (multi : synchronizer.sync.multi = true)
    (plays : (synchronizer.runPass stopped force : Script σ Job _).Plays past (.done (.ok changed, next))) :
    (∃ started, force = false ∧ synchronizer.isDue started = false ∧ past = [.asked .clock started] ∧
      changed = .empty ∧ next = synchronizer) ∨
    ∃ parts : PassParts σ, parts.Played Job stopped synchronizer ∧ past = parts.journal ∧
      parts.Sets changed next ∧
      (parts.strategy = .keep →
        (∀ config ∈ parts.configs, ∃ text, StreamIdentifier.ofMulti text = .ok config.stream) →
          parts.SparesMissing) := by
  obtain skipped | ⟨parts, played, rfl, rfl, rfl⟩ := Synchronizer.runPass_parts multi plays
  · exact .inl skipped
  · have baseMulti : parts.base.sync.multi = true :=
      (Synchronizer.reconcile_sameNotes played.reconciled).sync ▸ multi
    exact .inr ⟨parts, played, rfl, played.sets baseMulti, played.sparesMissing baseMulti⟩

/-- A synchronizer that tracks one stream. -/
def ordersSynchronizer : Synchronizer := blankSynchronizer.activate (.ofStream ordersStream .latest)

/-- When the stream is missing and leases are to be kept, a pass forgets and reports it. -/
theorem runPass_sets_of_orders : ∃ past changed next,
    (ordersSynchronizer.runPass (fun _ => false) true : Script Unit Unit _).Plays past
        (.done (.ok changed, next)) ∧
      next.streams.contains ordersStream = false ∧ changed.contains ordersStream = true ∧
      ∃ parts : PassParts Unit, parts.Played Unit (fun _ => false) ordersSynchronizer ∧
        past = parts.journal ∧ parts.Sets changed next := by
  obtain ⟨past, changed, next, ends, forgotten, reported⟩ : ∃ past changed next,
      (ordersSynchronizer.runPass (fun _ => false) true : Script Unit Unit _).answered
          (passAnswers 0 [] .keep) () [] = some (past, .ok changed, next) ∧
        next.streams.contains ordersStream = false ∧ changed.contains ordersStream = true :=
    ⟨_, _, _, rfl, by decide +kernel, by decide +kernel⟩
  have plays := Script.plays_of_answered .start ends
  refine ⟨past, changed, next, plays, forgotten, reported, ?_⟩
  obtain ⟨_, notForced, _⟩ | ⟨parts, played, whole, sets, _⟩ := runPass_sets rfl plays
  · cases notForced
  · exact ⟨parts, played, whole, sets⟩

end LeaseFleet
