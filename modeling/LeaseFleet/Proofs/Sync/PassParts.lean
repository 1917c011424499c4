import LeaseFleet.Proofs.Sync.PassRuns

/-!
# The parts of a pass

A script that was played to its end was played part by part: what one part has come to is where the
next one begins (`Script.Plays.of_bind`). So a pass of stream sync falls into the taking in of the
leases, the syncing of one new stream after another, and the deletion of one due stream after another,
and the state at its end is what these parts have made of it (`Synchronizer.runPass_parts`).
-/

namespace LeaseFleet

namespace Script

variable {σ Job α β : Type} {past : Journal σ}

/-! ## Scripts one after another -/

/-- A script that is left as it was, that has gone on without showing it, or that has acted first. -/
theorem Plays.head {script rest : Script σ Job α} (plays : script.Plays past rest) :
    past = [] ∧ rest = script ∨
      (∃ between, script.Idles between ∧ between.Plays past rest) ∨
      ∃ act between later, script.Does act between ∧ between.Plays later rest ∧
        past = later ++ [act] := by
  induction plays with
  | start => exact .inl ⟨rfl, rfl⟩
  | idle _ idles ih =>
    obtain ⟨rfl, rfl⟩ | ⟨between, first, rest⟩ | ⟨act, between, later, does, rest, rfl⟩ := ih
    · exact .inr (.inl ⟨_, idles, .start⟩)
    · exact .inr (.inl ⟨between, first, rest.idle idles⟩)
    · exact .inr (.inr ⟨act, between, later, does, rest.idle idles, rfl⟩)
  | act _ acts ih =>
    obtain ⟨rfl, rfl⟩ | ⟨between, first, rest⟩ | ⟨act, between, later, does, rest, rfl⟩ := ih
    · exact .inr (.inr ⟨_, _, [], acts, .start, rfl⟩)
    · exact .inr (.inl ⟨between, first, rest.act acts⟩)
    · exact .inr (.inr ⟨act, between, _ :: later, does, rest.act acts, rfl⟩)

theorem Plays.of_done {value wanted : α} (plays : (done value : Script σ Job α).Plays past (done wanted)) :
    past = [] ∧ wanted = value := by
  obtain ⟨rfl, same⟩ | ⟨between, idles, _⟩ | ⟨act, between, later, does, _⟩ := plays.head
  · exact ⟨rfl, done.inj same⟩
  · cases idles
  · cases does

theorem Plays.after_idle {script between rest : Script σ Job α} (idles : script.Idles between)
    (plays : between.Plays past rest) : script.Plays past rest := by
  induction plays with
  | start => exact .idle .start idles
  | idle _ idles ih => exact ih.idle idles
  | act _ does ih => exact ih.act does

theorem Plays.after_act {script between rest : Script σ Job α} {act : Act σ}
    (does : script.Does act between) (plays : between.Plays past rest) :
    script.Plays (past ++ [act]) rest := by
  induction plays with
  | start => exact .act .start does
  | idle _ idles ih => exact ih.idle idles
  | act _ does ih => exact ih.act does

/-- A script that was played to its end after another one: the other one was, too, before it. -/
theorem Plays.of_bind {script : Script σ Job α} {following : α → Script σ Job β} {value : β}
    (plays : (script.bind following).Plays past (done value)) :
    ∃ earlier later between, script.Plays earlier (done between) ∧
      (following between).Plays later (done value) ∧ past = later ++ earlier := by
  induction script generalizing past with
  | done between => exact ⟨[], past, between, .start, plays, (List.append_nil past).symm⟩
  | ask query next ih =>
    obtain ⟨_, ⟨⟩⟩ | ⟨_, ⟨⟩, _⟩ | ⟨_, _, _, ⟨_, _, reply⟩, rest, rfl⟩ := plays.head
    obtain ⟨earlier, later, between, first, second, rfl⟩ := ih reply rest
    exact ⟨_, later, between, first.after_act (.ask query next reply), second, by simp⟩
  | step ready change next ih =>
    obtain ⟨_, ⟨⟩⟩ | ⟨_, ⟨⟩, _⟩ | ⟨_, _, _, does, rest, rfl⟩ := plays.head
    cases does with
    | step _ _ permitted =>
      obtain ⟨earlier, later, between, first, second, rfl⟩ := ih _ rest
      exact ⟨_, later, between, first.after_act (.step change next permitted), second, by simp⟩
  | sleep millis stopped next ih =>
    obtain ⟨_, ⟨⟩⟩ | ⟨_, ⟨_, _, _, complete⟩, rest⟩ | ⟨_, _, _, ⟨⟩, _⟩ := plays.head
    obtain ⟨earlier, later, between, first, second, rfl⟩ := ih complete rest
    exact ⟨earlier, later, between, first.after_idle (.sleep millis stopped next complete), second, rfl⟩
  | spawn job next ih =>
    obtain ⟨_, ⟨⟩⟩ | ⟨_, ⟨⟩, rest⟩ | ⟨_, _, _, ⟨⟩, _⟩ := plays.head
    obtain ⟨earlier, later, between, first, second, rfl⟩ := ih rest
    exact ⟨earlier, later, between, first.after_idle (.spawn job next), second, rfl⟩
  | gather jobs next ih =>
    obtain ⟨_, ⟨⟩⟩ | ⟨_, ⟨⟩, rest⟩ | ⟨_, _, _, ⟨⟩, _⟩ := plays.head
    obtain ⟨earlier, later, between, first, second, rfl⟩ := ih rest
    exact ⟨earlier, later, between, first.after_idle (.gather jobs next), second, rfl⟩

/-- A question that was asked before the rest of a script. -/
theorem Plays.of_query {question : Query} {next : question.Reply → Script σ Job α} {value : α}
    (plays : ((Script.query question).bind next).Plays past (done value)) :
    ∃ reply later, (next reply).Plays later (done value) ∧ past = later ++ [.asked question reply] := by
  obtain ⟨_, ⟨⟩⟩ | ⟨_, ⟨⟩, _⟩ | ⟨_, _, later, ⟨_, _, reply⟩, rest, rfl⟩ := plays.head
  exact ⟨reply, later, rest, rfl⟩

/-! ## Items one after another -/

/-- What was played for items one after another, the last one first, and for which of them it came to
a good end. -/
inductive PlaysEach {ι ε : Type} (script : ι → Script σ Job (Except ε α)) :
    List ι → Journal σ → List ι → List ι → Prop
  | nil : PlaysEach script [] [] [] []
  | ok {item : ι} {rest done failed : List ι} {earlier later : Journal σ} {value : α}
      (first : (script item).Plays earlier (.done (.ok value)))
      (others : PlaysEach script rest later done failed) :
      PlaysEach script (item :: rest) (later ++ earlier) (item :: done) failed
  | error {item : ι} {rest done failed : List ι} {earlier later : Journal σ} {error : ε}
      (first : (script item).Plays earlier (.done (.error error)))
      (others : PlaysEach script rest later done failed) :
      PlaysEach script (item :: rest) (later ++ earlier) done (item :: failed)

theorem PlaysEach.of_nil {ι ε : Type} {script : ι → Script σ Job (Except ε α)} {done failed : List ι}
    (each : PlaysEach script [] past done failed) : past = [] := by
  cases each
  rfl

/-- Every item came to a good end or failed. -/
theorem PlaysEach.mem_iff {ι ε : Type} {script : ι → Script σ Job (Except ε α)}
    {items done failed : List ι} (each : PlaysEach script items past done failed) {item : ι} :
    item ∈ items ↔ item ∈ done ∨ item ∈ failed := by
  induction each with
  | nil => simp
  | ok _ _ ih => simp [ih, or_assoc]
  | error _ _ ih => simp [ih, or_left_comm]

theorem PlaysEach.done_sublist {ι ε : Type} {script : ι → Script σ Job (Except ε α)}
    {items done failed : List ι} (each : PlaysEach script items past done failed) : done.Sublist items := by
  induction each with
  | nil => exact .slnil
  | ok _ _ ih => exact ih.cons_cons _
  | error _ _ ih => exact ih.cons _

/-- If no item was there twice, none came to a good end and failed. -/
theorem PlaysEach.disjoint {ι ε κ : Type} {script : ι → Script σ Job (Except ε α)} {name : ι → κ}
    {items done failed : List ι} (each : PlaysEach script items past done failed)
    (distinct : (items.map name).Nodup) {good bad : ι} (goodMem : good ∈ done) (badMem : bad ∈ failed) :
    name good ≠ name bad := by
  induction each with
  | nil => cases goodMem
  | ok _ others ih =>
    obtain ⟨new, distinct⟩ := List.nodup_cons.1 distinct
    obtain _ | ⟨_, goodMem⟩ := goodMem
    · exact fun same => new (List.mem_map.2 ⟨bad, others.mem_iff.2 (.inr badMem), same.symm⟩)
    · exact ih distinct goodMem badMem
  | error _ others ih =>
    obtain ⟨new, distinct⟩ := List.nodup_cons.1 distinct
    obtain _ | ⟨_, badMem⟩ := badMem
    · exact fun same => new (List.mem_map.2 ⟨good, others.mem_iff.2 (.inl goodMem), same⟩)
    · exact ih distinct goodMem badMem

end Script

namespace Synchronizer

variable {σ Job : Type} {stopped : σ → Bool} {past : Journal σ}

/-- The new streams were synced one after another; each one that was is tracked since. -/
theorem syncNewStreams_plays {configs : List StreamConfig} {synchronizer next : Synchronizer}
    {before changed : Changed}
    (plays : (syncNewStreams stopped configs synchronizer before : Script σ Job _).Plays past
      (.done (changed, next))) :
    ∃ synced unsynced, Script.PlaysEach
        (fun config => (synchronizer.sync.syncStream stopped config : Script σ Job _)) configs past synced
        unsynced ∧
      next = synced.foldl activate synchronizer ∧
      changed = SortedSet.insertAll before (synced.map (·.stream)) := by
  induction configs generalizing synchronizer before past with
  | nil =>
    obtain ⟨rfl, same⟩ := Script.Plays.of_done plays
    obtain ⟨rfl, rfl⟩ := Prod.mk.inj same
    exact ⟨[], [], .nil, rfl, rfl⟩
  | cons config rest ih =>
    obtain ⟨earlier, later, result, first, others, rfl⟩ := Script.Plays.of_bind plays
    cases result with
    | error error =>
      obtain ⟨synced, unsynced, each, same⟩ := ih others
      exact ⟨synced, config :: unsynced, .error first each, same⟩
    | ok report =>
      obtain ⟨synced, unsynced, each, same⟩ := ih others
      rw [(activate_sameNotes synchronizer config).sync] at each
      exact ⟨config :: synced, unsynced, .ok first each, same⟩

/-- The due streams were deleted one after another; nothing is known any more about each one that
was. -/
theorem deleteStreams_plays {streams : List StreamIdentifier} {synchronizer next : Synchronizer}
    {before changed : Changed}
    (plays : (deleteStreams stopped streams synchronizer before : Script σ Job _).Plays past
      (.done (changed, next))) :
    ∃ deleted undeleted, Script.PlaysEach
        (fun stream => (synchronizer.sync.deleteStreamLeases stopped stream : Script σ Job _)) streams past
        deleted undeleted ∧
      next = deleted.foldl dropStream synchronizer ∧
      changed = SortedSet.insertAll before deleted := by
  induction streams generalizing synchronizer before past with
  | nil =>
    obtain ⟨rfl, same⟩ := Script.Plays.of_done plays
    obtain ⟨rfl, rfl⟩ := Prod.mk.inj same
    exact ⟨[], [], .nil, rfl, rfl⟩
  | cons stream rest ih =>
    obtain ⟨earlier, later, result, first, others, rfl⟩ := Script.Plays.of_bind plays
    cases result with
    | error error =>
      obtain ⟨deleted, undeleted, each, same⟩ := ih others
      exact ⟨deleted, stream :: undeleted, .error first each, same⟩
    | ok count =>
      obtain ⟨deleted, undeleted, each, same⟩ := ih others
      exact ⟨stream :: deleted, undeleted, .ok first each, same⟩

/-- New streams are to be consumed. -/
theorem mem_of_mem_newStreams {synchronizer : Synchronizer} {configs : List StreamConfig}
    {config : StreamConfig}
    (mem : config ∈ synchronizer.newStreams (synchronizer.streamsToConsume configs)) :
    config ∈ configs := by
  obtain ⟨stream, found⟩ := SortedMap.mem_values.1 mem
  rw [SortedMap.get?_filter, Option.filter_eq_some_iff] at found
  obtain ⟨known, listed, same⟩ := List.mem_map.1 (SortedMap.mem_of_get?_ofList found.1)
  obtain ⟨_, rfl⟩ := Prod.mk.inj same
  split at listed
  · exact listed
  · exact List.mem_of_mem_take listed

theorem foldl_activate_sameNotes (synchronizer : Synchronizer) (configs : List StreamConfig) :
    synchronizer.SameNotes (configs.foldl activate synchronizer) := by
  induction configs generalizing synchronizer with
  | nil => exact .refl synchronizer
  | cons config rest ih => exact (activate_sameNotes synchronizer config).trans (ih _)

end Synchronizer

/-! ## A pass -/

/-- What the parts of a pass have come to, with their journals. -/
structure PassParts (σ : Type) where
  started : Nat
  reconciling : Journal σ
  /-- The synchronizer once the streams of the lease table have been taken in. -/
  base : Synchronizer
  /-- The streams to consume. -/
  configs : List StreamConfig
  syncing : Journal σ
  synced : List StreamConfig
  /-- The new streams whose sync has failed. -/
  unsynced : List StreamConfig
  now : Nat
  strategy : DeletionStrategy
  deleting : Journal σ
  deleted : List StreamIdentifier
  /-- The due streams whose deletion has failed. -/
  undeleted : List StreamIdentifier
  ended : Nat

namespace PassParts

variable {σ : Type}

def wanted (parts : PassParts σ) : SortedMap StreamIdentifier StreamConfig :=
  parts.base.streamsToConsume parts.configs

/-- The streams that the strategy has made forget, and the synchronizer to which it was applied. -/
def applied (parts : PassParts σ) : List StreamIdentifier × Synchronizer :=
  (parts.synced.foldl Synchronizer.activate parts.base).applyStrategy parts.wanted parts.strategy
    parts.now

/-- The synchronizer at the end. -/
def last (parts : PassParts σ) : Synchronizer :=
  { parts.deleted.foldl Synchronizer.dropStream parts.applied.2 with lastSync := some parts.ended }

/-- The streams that are reported. -/
def changed (parts : PassParts σ) : Synchronizer.Changed :=
  SortedSet.insertAll
    (SortedSet.insertAll (SortedSet.insertAll .empty (parts.synced.map (·.stream))) parts.applied.1)
    parts.deleted

/-- The journal of the whole pass. -/
def journal (parts : PassParts σ) : Journal σ :=
  [.asked (.record (.sample .streamSync)) (),
    .asked (.record (.level .trackedStreams (floatOfNat parts.last.streams.size))) (),
    .asked .clock parts.ended] ++ parts.deleting ++
  .asked .deletionStrategy parts.strategy :: .asked .clock parts.now :: parts.syncing ++
  .asked .trackedStreams parts.configs :: parts.reconciling ++ [.asked .clock parts.started]

/-- The parts were played from a synchronizer on, one after another. -/
structure Played (Job : Type) (parts : PassParts σ) (stopped : σ → Bool) (first : Synchronizer) :
    Prop where
  reconciled : (first.reconcile stopped : Script σ Job _).Plays parts.reconciling (.done (.ok parts.base))
  syncs : Script.PlaysEach
    (fun config => (parts.base.sync.syncStream stopped config : Script σ Job _))
    (parts.base.newStreams parts.wanted) parts.syncing parts.synced parts.unsynced
  deletes : Script.PlaysEach
    (fun stream => (parts.base.sync.deleteStreamLeases stopped stream : Script σ Job _))
    (parts.applied.2.expiredStreams parts.strategy parts.now) parts.deleting parts.deleted
    parts.undeleted

end PassParts

namespace Synchronizer

variable {σ Job : Type} {stopped : σ → Bool} {past : Journal σ}

/-- Taking in the streams of the lease table changes no notes. -/
theorem reconcile_sameNotes {synchronizer base : Synchronizer}
    (plays : (synchronizer.reconcile stopped : Script σ Job _).Plays past (.done (.ok base))) :
    synchronizer.SameNotes base := by
  have follows : (synchronizer.reconcile stopped : Script σ Job _).Follows
      (.recorded (fun _ => True) (Retirement [])) _ [] :=
    synchronizer.reconcile_follows rfl (by simp [Early])
  exact (follows.plays plays fun act _ => act.seen_of_any).1.2

/-- The due streams are deleted after the strategy was applied. -/
theorem retireStreams_plays {synchronizer next : Synchronizer}
    {wanted : SortedMap StreamIdentifier StreamConfig} {before changed : Changed}
    (plays : (synchronizer.retireStreams stopped wanted before : Script σ Job _).Plays past
      (.done (changed, next))) :
    ∃ now strategy deleting deleted undeleted,
      let applied := synchronizer.applyStrategy wanted strategy now
      Script.PlaysEach
          (fun stream => (synchronizer.sync.deleteStreamLeases stopped stream : Script σ Job _))
          (applied.2.expiredStreams strategy now) deleting deleted undeleted ∧
        next = deleted.foldl dropStream applied.2 ∧
        changed = SortedSet.insertAll (SortedSet.insertAll before applied.1) deleted ∧
        past = deleting ++ [.asked .deletionStrategy strategy, .asked .clock now] := by
  obtain ⟨now, past, plays', rfl⟩ := Script.Plays.of_query plays
  obtain ⟨strategy, deleting, deletes, rfl⟩ := Script.Plays.of_query plays'
  have sync := synchronizer.applyStrategy_sync wanted strategy now
  refine ⟨now, strategy, deleting, ?_⟩
  generalize synchronizer.applyStrategy wanted strategy now = applied at deletes sync ⊢
  obtain ⟨deleted, undeleted, each, same, sameChanged⟩ := deleteStreams_plays deletes
  rw [sync] at each
  exact ⟨deleted, undeleted, each, same, sameChanged, by simp⟩

/-- A pass over several streams that comes to an end well is skipped, or it is played part by part. -/
theorem runPass_parts {synchronizer next : Synchronizer} {force : Bool} {changed : Changed}
    (multi : synchronizer.sync.multi = true)
    (plays : (synchronizer.runPass stopped force : Script σ Job _).Plays past (.done (.ok changed, next))) :
    (∃ started, force = false ∧ synchronizer.isDue started = false ∧ past = [.asked .clock started] ∧
      changed = .empty ∧ next = synchronizer) ∨
    ∃ parts : PassParts σ, parts.Played Job stopped synchronizer ∧ past = parts.journal ∧
      changed = parts.changed ∧ next = parts.last := by
  obtain ⟨started, past, afterClock, rfl⟩ := Script.Plays.of_query plays
  split at afterClock
  case isTrue skipped =>
    obtain ⟨rfl, same⟩ := Script.Plays.of_done afterClock
    obtain ⟨sameChanged, rfl⟩ := Prod.mk.inj same
    simp only [Bool.and_eq_true, Bool.not_eq_true'] at skipped
    exact .inl ⟨started, skipped.1, skipped.2, rfl, Except.ok.inj sameChanged, rfl⟩
  case isFalse =>
    refine .inr ?_
    obtain ⟨reconciling, past, result, reconciled, afterReconciling, rfl⟩ :=
      Script.Plays.of_bind afterClock
    cases result with
    | error error =>
      obtain ⟨_, same⟩ := Script.Plays.of_done afterReconciling
      cases (Prod.mk.inj same).1
    | ok base =>
      obtain ⟨configs, past, afterList, rfl⟩ := Script.Plays.of_query afterReconciling
      obtain ⟨syncing, past, ⟨news, between⟩, syncs, afterSyncing, rfl⟩ := Script.Plays.of_bind afterList
      obtain ⟨synced, unsynced, eachSynced, rfl, rfl⟩ := syncNewStreams_plays syncs
      have baseMulti : base.sync.multi = true := (reconcile_sameNotes reconciled).sync ▸ multi
      have sameSync := (foldl_activate_sameNotes base synced).sync
      dsimp only at afterSyncing
      rw [if_pos (sameSync ▸ baseMulti)] at afterSyncing
      obtain ⟨retiring, past, ⟨all, last⟩, retires, afterRetiring, rfl⟩ :=
        Script.Plays.of_bind afterSyncing
      obtain ⟨now, strategy, deleting, deleted, undeleted, deletes, rfl, rfl, rfl⟩ :=
        retireStreams_plays retires
      rw [sameSync] at deletes
      obtain ⟨ended, past, afterEnd, rfl⟩ := Script.Plays.of_query afterRetiring
      obtain ⟨⟨⟩, past, afterGauge, rfl⟩ := Script.Plays.of_query afterEnd
      obtain ⟨⟨⟩, past, atEnd, rfl⟩ := Script.Plays.of_query afterGauge
      obtain ⟨rfl, same⟩ := Script.Plays.of_done atEnd
      obtain ⟨sameChanged, rfl⟩ := Prod.mk.inj same
      let parts : PassParts σ := ⟨started, reconciling, base, configs, syncing, synced, unsynced, now,
        strategy, deleting, deleted, undeleted, ended⟩
      refine ⟨parts, ⟨reconciled, eachSynced, deletes⟩, ?_, Except.ok.inj sameChanged, rfl⟩
      simp [parts, PassParts.journal, PassParts.last, PassParts.applied, PassParts.wanted]

end Synchronizer

end LeaseFleet
