import LeaseFleet.Proofs.Script.Protocol
import LeaseFleet.Worker.Duty

/-!
# What a worker does beside keeping leases

Looking after consumers, keeping shards and streams in sync, and sampling neither update a lease nor
touch what the coordinator knows. A protocol that leaves all that open (`Tolerant`) is kept by these
scripts, and their marks come back as they were.
-/

namespace LeaseFleet

/-- The job of the coordinator, if it is one. -/
def WorkerJob.coordinator? : WorkerJob → Option CoordinatorJob
  | coordinator job => some job
  | _ => none

namespace Worker

/-! ## Changes that leave the coordinator alone -/

@[simp] theorem enter_coordinator (worker : Worker) (phase : WorkerPhase) :
    (worker.enter phase).coordinator = worker.coordinator := by
  unfold enter
  split <;> rfl

@[simp] theorem beginBringUp_coordinator (worker : Worker) :
    worker.beginBringUp.coordinator = worker.coordinator := by
  unfold beginBringUp
  split <;> simp

theorem engage_coordinator {worker after : Worker} {shard : AssignedShard} {number : Nat}
    (engaged : worker.engage shard = .ok (number, after)) :
    after.coordinator = worker.coordinator := by
  unfold engage at engaged
  split at engaged
  · cases engaged
    rfl
  · split at engaged
    · cases engaged
    · cases engaged
      rfl

@[simp] theorem engaged_coordinator (worker : Worker) (shard : AssignedShard) :
    (worker.engaged shard).coordinator = worker.coordinator := by
  unfold engaged
  split
  · rename_i found
    exact engage_coordinator found
  · rfl

@[simp] theorem finishShard_coordinator (worker : Worker) (shard : AssignedShard) :
    (worker.finishShard shard).coordinator = worker.coordinator := by
  unfold finishShard
  split <;> rfl

@[simp] theorem serveShard_coordinator (table : LeaseTable) (worker : Worker)
    (shard : AssignedShard) :
    (worker.serveShard table shard).coordinator = worker.coordinator := by
  unfold serveShard
  split
  · simp
  · split
    · rfl
    · split
      · rename_i found
        exact engage_coordinator found
      · rfl

@[simp] theorem serve_coordinator (worker : Worker) :
    worker.serve.coordinator = worker.coordinator := by
  have along (table : LeaseTable) (shards : List AssignedShard) (served : Worker) :
      (shards.foldl (serveShard table) served).coordinator = served.coordinator := by
    induction shards generalizing served with
    | nil => rfl
    | cons shard rest ih => simp [ih]
  exact along _ _ _

@[simp] theorem finishConsumer_coordinator (number : Nat) (worker : Worker) :
    (finishConsumer number worker).coordinator = worker.coordinator := by
  unfold finishConsumer
  split
  · split <;> rfl
  · rfl

@[simp] theorem beginShutdown_coordinator (worker : Worker) :
    worker.beginShutdown.coordinator = worker.coordinator := by
  unfold beginShutdown
  split
  · rfl
  · simp

end Worker

/-- Whether a question is an update of a lease. -/
def Query.isUpdate : Query → Bool
  | store (.update _ _) => true
  | _ => false

/-- Everything is open that neither updates a lease nor concerns the coordinator. -/
structure Tolerant {Mark : Type} (rules : Protocol Worker WorkerJob Mark) : Prop where
  asks : ∀ mark {question : Query} (reply : question.Reply), question.isUpdate = false →
    rules.asks mark question reply mark
  steps : ∀ mark {before after : Worker}, after.coordinator = before.coordinator →
    rules.steps mark before after mark
  starts : ∀ mark {job : WorkerJob}, job.coordinator? = none → rules.starts mark job mark mark

namespace Tolerant

variable {Mark α β : Type} {rules : Protocol Worker WorkerJob Mark} {mark : Mark}

/-! ## Elementary scripts -/

theorem query_returns (tolerant : Tolerant rules) (question : Query)
    (other : question.isUpdate = false) :
    (Script.query question : WorkerScript _).Returns rules mark :=
  fun reply _ => ⟨mark, tolerant.asks mark reply other, rfl⟩

theorem record_returns (tolerant : Tolerant rules) (measurement : Measurement) :
    (Script.record measurement : WorkerScript Unit).Returns rules mark :=
  tolerant.query_returns (.record measurement) rfl

theorem step_follows (tolerant : Tolerant rules) {wanted : Mark → α → Prop} {ready : Worker → Bool}
    {change : Worker → Worker} {next : Worker → WorkerScript α}
    (same : ∀ worker, (change worker).coordinator = worker.coordinator)
    (rest : ∀ worker, (next worker).Follows rules wanted mark) :
    ((Script.step ready change .done).bind next).Follows rules wanted mark :=
  fun worker _ _ => ⟨mark, tolerant.steps mark (same worker), rest worker⟩

theorem look_follows (tolerant : Tolerant rules) {wanted : Mark → α → Prop}
    {next : Worker → WorkerScript α} (rest : ∀ worker, (next worker).Follows rules wanted mark) :
    (Script.look.bind next).Follows rules wanted mark :=
  tolerant.step_follows (fun _ => rfl) rest

theorem change_returns (tolerant : Tolerant rules) {change : Worker → Worker}
    (same : ∀ worker, (change worker).coordinator = worker.coordinator) :
    (Script.change change : WorkerScript Unit).Returns rules mark :=
  fun worker _ _ => ⟨mark, tolerant.steps mark (same worker), rfl⟩

theorem spawnAll_returns (tolerant : Tolerant rules) {jobs : List WorkerJob}
    (others : ∀ job ∈ jobs, job.coordinator? = none) :
    (Script.spawnAll jobs : WorkerScript Unit).Returns rules mark := by
  induction jobs with
  | nil => rfl
  | cons job rest ih =>
    obtain ⟨first, others⟩ := List.forall_mem_cons.1 others
    exact ⟨mark, mark, tolerant.starts mark first, ih others⟩

theorem sleep_returns (millis : Nat) (stopped : Worker → Bool) :
    (Script.sleep millis stopped .done : WorkerScript Bool).Returns rules mark := fun _ => rfl

theorem store_returns (tolerant : Tolerant rules) (policy : RetryPolicy) (stopped : Worker → Bool)
    (call : StoreCall) (other : (Query.store call).isUpdate = false) :
    (policy.store stopped call : WorkerScript _).Returns rules mark := by
  refine policy.store_follows stopped ?_ ?_ fun low high reply => tolerant.asks mark reply rfl
  · exact fun answer _ => ⟨mark, tolerant.asks mark _ other, rfl⟩
  · exact fun error _ => ⟨tolerant.asks mark _ other, fun _ => rfl⟩

/-! ## Shards and streams -/

theorem streamLeases_returns (tolerant : Tolerant rules) (sync : ShardSync)
    (stopped : Worker → Bool) (stream : StreamIdentifier) :
    (sync.streamLeases stopped stream : WorkerScript _).Returns rules mark :=
  (tolerant.store_returns sync.retry stopped .list rfl).bind fun result => by cases result <;> rfl

theorem createLeases_returns (tolerant : Tolerant rules) (sync : ShardSync)
    (stopped : Worker → Bool) (leases : List Lease) (created : Nat) :
    (sync.createLeases stopped leases created : WorkerScript _).Returns rules mark := by
  induction leases generalizing created with
  | nil => rfl
  | cons lease rest ih =>
    refine (tolerant.store_returns sync.retry stopped (.create lease) rfl).bind fun result => ?_
    cases result with
    | error error => rfl
    | ok isNew => exact ih _

theorem deleteLeases_returns (tolerant : Tolerant rules) (sync : ShardSync)
    (stopped : Worker → Bool) (leases : List Lease) :
    (sync.deleteLeases stopped leases : WorkerScript _).Returns rules mark := by
  induction leases with
  | nil => rfl
  | cons lease rest ih =>
    refine (tolerant.store_returns sync.retry stopped (.delete lease.leaseKey) rfl).bind
      fun result => ?_
    cases result with
    | error error => rfl
    | ok _ => exact ih

theorem syncStream_returns (tolerant : Tolerant rules) (sync : ShardSync) (stopped : Worker → Bool)
    (config : StreamConfig) :
    (sync.syncStream stopped config : WorkerScript _).Returns rules mark := by
  refine (tolerant.query_returns (.shards config) rfl).bind fun listed => ?_
  cases listed with
  | error reason => rfl
  | ok listed =>
    refine (tolerant.streamLeases_returns sync stopped config.stream).bind fun existing => ?_
    cases existing with
    | error error => rfl
    | ok existing =>
      refine (tolerant.createLeases_returns sync stopped _ 0).bind fun created => ?_
      cases created with
      | error error => rfl
      | ok created =>
        refine (tolerant.deleteLeases_returns sync stopped _).bind fun deleted => ?_
        cases deleted with
        | error error => rfl
        | ok _ =>
          refine (tolerant.record_returns _).bind fun _ => ?_
          exact (tolerant.record_returns _).bind fun _ => rfl

theorem deleteStreamLeases_returns (tolerant : Tolerant rules) (sync : ShardSync)
    (stopped : Worker → Bool) (stream : StreamIdentifier) :
    (sync.deleteStreamLeases stopped stream : WorkerScript _).Returns rules mark := by
  refine (tolerant.streamLeases_returns sync stopped stream).bind fun leases => ?_
  cases leases with
  | error error => rfl
  | ok leases =>
    refine (tolerant.deleteLeases_returns sync stopped leases).bind fun deleted => ?_
    cases deleted with
    | error error => rfl
    | ok _ => exact (tolerant.record_returns _).bind fun _ => rfl

theorem takeInLeases_returns (tolerant : Tolerant rules) (synchronizer : Synchronizer)
    (leases : List Lease) :
    (synchronizer.takeInLeases leases : WorkerScript _).Returns rules mark := by
  refine (tolerant.query_returns .trackedStreams rfl).bind fun configs => ?_
  exact (tolerant.query_returns .orphanPosition rfl).bind fun position => rfl

theorem reconcile_returns (tolerant : Tolerant rules) (synchronizer : Synchronizer)
    (stopped : Worker → Bool) :
    (synchronizer.reconcile stopped : WorkerScript _).Returns rules mark := by
  unfold Synchronizer.reconcile
  split
  · refine (tolerant.store_returns _ stopped .list rfl).bind fun result => ?_
    cases result with
    | error error => rfl
    | ok leases => exact (tolerant.takeInLeases_returns synchronizer leases).bind fun _ => rfl
  · rfl

theorem syncNewStreams_returns (tolerant : Tolerant rules) (stopped : Worker → Bool)
    (configs : List StreamConfig) (synchronizer : Synchronizer) (changed : Synchronizer.Changed) :
    (Synchronizer.syncNewStreams stopped configs synchronizer changed : WorkerScript _).Returns
      rules mark := by
  induction configs generalizing synchronizer changed with
  | nil => rfl
  | cons config rest ih =>
    refine (tolerant.syncStream_returns synchronizer.sync stopped config).bind fun result => ?_
    cases result <;> exact ih _ _

theorem deleteStreams_returns (tolerant : Tolerant rules) (stopped : Worker → Bool)
    (streams : List StreamIdentifier) (synchronizer : Synchronizer)
    (changed : Synchronizer.Changed) :
    (Synchronizer.deleteStreams stopped streams synchronizer changed : WorkerScript _).Returns
      rules mark := by
  induction streams generalizing synchronizer changed with
  | nil => rfl
  | cons stream rest ih =>
    refine (tolerant.deleteStreamLeases_returns synchronizer.sync stopped stream).bind
      fun result => ?_
    cases result <;> exact ih _ _

theorem retireStreams_returns (tolerant : Tolerant rules) (synchronizer : Synchronizer)
    (stopped : Worker → Bool) (wanted : SortedMap StreamIdentifier StreamConfig)
    (changed : Synchronizer.Changed) :
    (synchronizer.retireStreams stopped wanted changed : WorkerScript _).Returns rules mark := by
  refine (tolerant.query_returns .clock rfl).bind fun now => ?_
  refine (tolerant.query_returns .deletionStrategy rfl).bind fun strategy => ?_
  exact tolerant.deleteStreams_returns stopped _ _ _

theorem runPass_returns (tolerant : Tolerant rules) (synchronizer : Synchronizer)
    (stopped : Worker → Bool) (force : Bool) :
    (synchronizer.runPass stopped force : WorkerScript _).Returns rules mark := by
  refine (tolerant.query_returns .clock rfl).bind fun now => ?_
  split
  · rfl
  · refine (tolerant.reconcile_returns synchronizer stopped).bind fun result => ?_
    cases result with
    | error error => rfl
    | ok synchronizer =>
      refine (tolerant.query_returns .trackedStreams rfl).bind fun configs => ?_
      refine (tolerant.syncNewStreams_returns stopped _ _ _).bind fun (changed, synchronizer) => ?_
      have ended (changed : Synchronizer.Changed) (synchronizer : Synchronizer) : (do
          let now ← Script.query .clock
          Script.gaugeNat .trackedStreams synchronizer.streams.size
          Script.record (.sample .streamSync)
          return (.ok changed, { synchronizer with lastSync := some now }) :
            WorkerScript (Except WorkerError Synchronizer.Changed × Synchronizer)).Returns rules mark := by
        refine (tolerant.query_returns .clock rfl).bind fun now => ?_
        refine (tolerant.record_returns _).bind fun _ => ?_
        exact (tolerant.record_returns _).bind fun _ => rfl
      dsimp only
      split
      · refine (tolerant.retireStreams_returns synchronizer stopped _ changed).bind fun result => ?_
        exact ended _ _
      · exact ended changed synchronizer

/-! ## Consumers -/

theorem settleConsumers_returns (tolerant : Tolerant rules) (before after : Worker) :
    (Worker.settleConsumers before after).Returns rules mark := by
  refine (tolerant.record_returns _).bind fun _ => ?_
  refine (tolerant.spawnAll_returns fun job mem => ?_).bind fun _ => tolerant.record_returns _
  unfold Worker.startedJobs at mem
  split at mem
  · obtain ⟨offset, _, rfl⟩ := List.mem_map.1 mem
    rfl
  · simp at mem

theorem serveAll_returns (tolerant : Tolerant rules) : Worker.serveAll.Returns rules mark :=
  tolerant.step_follows Worker.serve_coordinator fun found =>
    tolerant.settleConsumers_returns found found.serve

theorem consumerFor_returns (tolerant : Tolerant rules) (shard : AssignedShard) :
    (Worker.consumerFor shard).Returns rules mark := by
  refine tolerant.step_follows (Worker.engaged_coordinator · shard) fun found => ?_
  split
  · rfl
  · split
    · rfl
    · exact (tolerant.settleConsumers_returns _ _).bind fun _ => rfl

theorem dismissOthers_returns (tolerant : Tolerant rules) (keep : List ShardKey) :
    (Worker.dismissOthers keep).Returns rules mark :=
  tolerant.step_follows (fun _ => rfl) fun found =>
    tolerant.settleConsumers_returns found (found.dismiss keep)

theorem consume_returns (tolerant : Tolerant rules) (number : Nat) :
    (Worker.consume number).Returns rules mark := by
  refine tolerant.step_follows (fun _ => rfl) fun _ => ?_
  refine tolerant.step_follows (Worker.finishConsumer_coordinator number) fun found => ?_
  split
  · exact tolerant.record_returns _
  · rfl

theorem reportRejection_returns (tolerant : Tolerant rules) (rejection : Rejection) :
    (Worker.reportRejection rejection).Returns rules mark :=
  tolerant.step_follows (fun _ => rfl) fun _ => (tolerant.record_returns _).bind fun _ => rfl

/-! ## The process loop -/

theorem synchronizing_follows (tolerant : Tolerant rules) {wanted : Mark → α → Prop}
    {body : Synchronizer → WorkerScript (α × Synchronizer)}
    (rest : ∀ synchronizer,
      (body synchronizer).Follows rules (fun mark result => wanted mark result.1) mark) :
    (Worker.synchronizing body).Follows rules wanted mark := by
  refine tolerant.step_follows (fun _ => rfl) fun found => ?_
  refine (Script.follows_bind ..).2 ((rest found.synchronizer).imp fun after result held => ?_)
  refine Script.Returns.bind (tolerant.change_returns fun _ => ?_) fun _ => ?_
  · rfl
  · exact held

theorem syncEach_returns (tolerant : Tolerant rules) (sync : ShardSync) (configs : List StreamConfig) :
    (Worker.syncEach sync configs).Returns rules mark := by
  induction configs with
  | nil => rfl
  | cons config rest ih =>
    exact (tolerant.syncStream_returns sync _ config).bind fun _ => ih

variable (leader : (Worker.keeping Coordinator.isLeader).Returns rules mark)

include leader

theorem syncShards_returns (tolerant : Tolerant rules) : Worker.syncShards.Returns rules mark := by
  refine (tolerant.query_returns .clock rfl).bind fun now => ?_
  refine tolerant.step_follows (fun worker => ?_) fun found => ?_
  · split <;> rfl
  · split
    · rfl
    · refine leader.bind fun leads => ?_
      split
      · refine tolerant.synchronizing_follows fun synchronizer => ?_
        exact (tolerant.syncEach_returns _ _).bind fun _ => rfl
      · rfl

theorem syncStreams_returns (tolerant : Tolerant rules) : Worker.syncStreams.Returns rules mark := by
  refine tolerant.synchronizing_follows fun synchronizer => ?_
  refine (tolerant.query_returns .clock rfl).bind fun now => ?_
  split
  · rfl
  · refine leader.bind fun leads => ?_
    split
    · exact (tolerant.runPass_returns synchronizer _ false).bind fun _ => rfl
    · rfl

theorem processOnce_returns (tolerant : Tolerant rules) : Worker.processOnce.Returns rules mark := by
  refine tolerant.serveAll_returns.bind fun _ => ?_
  refine Script.Returns.bind (tolerant.change_returns fun _ => ?_) fun _ => ?_
  · rfl
  · exact (tolerant.syncShards_returns leader).bind fun _ => tolerant.syncStreams_returns leader

omit leader

/-! ## Bringing up and shutting down -/

theorem isTableEmpty_returns (tolerant : Tolerant rules) : Worker.isTableEmpty.Returns rules mark :=
  tolerant.look_follows fun _ => tolerant.store_returns _ _ .isEmpty rfl

theorem watchTable_returns (tolerant : Tolerant rules) (started wait interval rounds : Nat) :
    (Worker.watchTable started wait interval rounds).Returns rules mark := by
  induction rounds with
  | zero => exact tolerant.isTableEmpty_returns
  | succ rounds ih =>
    refine (tolerant.query_returns .clock rfl).bind fun now => ?_
    split
    · exact tolerant.isTableEmpty_returns
    · refine tolerant.isTableEmpty_returns.bind fun result => ?_
      match result with
      | .error error => rfl
      | .ok false => rfl
      | .ok true =>
        refine (Script.Returns.bind (sleep_returns interval _)) fun complete => ?_
        cases complete with
        | false => rfl
        | true => exact ih

theorem shouldFillTable_returns (tolerant : Tolerant rules) :
    Worker.shouldFillTable.Returns rules mark := by
  refine tolerant.look_follows fun worker => ?_
  have waits : (Worker.tableWait worker.settings).Returns rules mark := by
    unfold Worker.tableWait
    split
    · exact tolerant.query_returns _ rfl
    · rfl
  refine waits.bind fun wait => (tolerant.query_returns .clock rfl).bind fun started => ?_
  exact tolerant.watchTable_returns _ _ _ _

theorem firstSync_returns (tolerant : Tolerant rules) (synchronizer : Synchronizer) :
    (Worker.firstSync synchronizer).Returns rules mark := by
  have takes : (Worker.takeInTable synchronizer).Returns rules mark := by
    unfold Worker.takeInTable
    split
    · exact tolerant.look_follows fun worker =>
        (tolerant.takeInLeases_returns synchronizer _).bind fun _ => rfl
    · rfl
  have fills (synchronizer : Synchronizer) : (Worker.fillTable synchronizer).Returns rules mark := by
    refine tolerant.shouldFillTable_returns.bind fun result => ?_
    match result with
    | .error error => rfl
    | .ok false => rfl
    | .ok true => exact (tolerant.runPass_returns synchronizer _ true).bind fun _ => rfl
  refine takes.bind fun synchronizer => tolerant.isTableEmpty_returns.bind fun result => ?_
  cases result with
  | error error => rfl
  | ok isEmpty =>
    refine tolerant.look_follows fun worker => ?_
    split
    · exact fills synchronizer
    · rfl

theorem beginRunning_returns (tolerant : Tolerant rules) : Worker.beginRunning.Returns rules mark := by
  have samples : Worker.startSampling.Returns rules mark := by
    refine tolerant.look_follows fun worker => ?_
    split
    · refine Script.Returns.bind (tolerant.change_returns fun _ => ?_) fun _ => ?_
      · rfl
      · exact tolerant.spawnAll_returns (by simp [Worker.samplingLoops, WorkerJob.coordinator?])
    · rfl
  refine tolerant.look_follows fun worker => ?_
  split
  · rfl
  · refine samples.bind fun _ => ?_
    refine tolerant.step_follows (Worker.enter_coordinator · .running) fun found => ?_
    split <;> rfl

theorem attemptsToBringUp_safe (tolerant : Tolerant rules)
    (adopt : (Worker.keeping Coordinator.adopt).Safe rules)
    (start : (Worker.keeping Coordinator.start).Safe rules) (total left : Nat) :
    (Worker.attemptsToBringUp total left).Safe rules := by
  have attempt : Worker.attemptBringUp.Safe rules := by
    refine adopt.bind fun result => ?_
    cases result with
    | error error => exact Script.safe_done _
    | ok _ =>
      intro mark
      refine Script.Returns.bind (tolerant.synchronizing_follows fun synchronizer =>
        tolerant.firstSync_returns synchronizer) fun result => ?_
      cases result with
      | error error => trivial
      | ok _ =>
        refine tolerant.look_follows fun worker => ?_
        split
        · trivial
        · exact start.bind (fun _ => Script.safe_done _) mark
  induction left with
  | zero => exact Script.safe_done _
  | succ left ih =>
    refine attempt.bind fun result => ?_
    split
    · exact Script.safe_of_returns fun _ => tolerant.beginRunning_returns
    · exact Script.safe_done _
    · intro mark
      split
      · refine Script.Returns.bind (tolerant.change_returns fun _ => ?_) fun _ => trivial
        simp
      · refine tolerant.look_follows fun worker => ?_
        refine Script.Returns.bind (sleep_returns _ _) fun complete => ?_
        cases complete with
        | false => trivial
        | true => exact ih mark

theorem bringUp_safe (tolerant : Tolerant rules)
    (adopt : (Worker.keeping Coordinator.adopt).Safe rules)
    (start : (Worker.keeping Coordinator.start).Safe rules) : Worker.bringUp.Safe rules := by
  refine fun mark => tolerant.step_follows Worker.beginBringUp_coordinator fun found => ?_
  split
  · exact tolerant.attemptsToBringUp_safe adopt start _ _ mark
  · trivial

theorem shutdown_safe (tolerant : Tolerant rules)
    (stop : (Worker.keeping Coordinator.stop).Safe rules) : Worker.shutdown.Safe rules := by
  refine fun mark => tolerant.step_follows Worker.beginShutdown_coordinator fun found => ?_
  split
  · trivial
  · refine stop.bind (fun _ mark => ?_) mark
    refine tolerant.step_follows (fun _ => rfl) fun _ => ?_
    exact (tolerant.change_returns fun _ => Worker.enter_coordinator _ _).imp fun _ _ _ => trivial

/-! ## Background jobs -/

/-- The rules for a part of the state that has nothing to do with leases and starts nothing. -/
def quiet (τ Other Mark : Type) : Protocol τ Other Mark where
  hears _ _ := True
  sees _ := True
  asks mark question _ after := question.isUpdate = false ∧ after = mark
  steps mark _ _ after := after = mark
  starts _ _ _ _ := False

theorem report_returns (tolerant : Tolerant rules) :
    (Sampler.report.embed Worker.samplerPart .coordinator : WorkerScript _).Returns rules mark := by
  have records (measurements : List Measurement) :
      (Script.recordAll measurements : Script Sampler CoordinatorJob Unit).Returns
        (quiet Sampler CoordinatorJob Mark) mark := by
    induction measurements with
    | nil => rfl
    | cons measurement rest ih => exact fun _ _ => ⟨mark, ⟨rfl, rfl⟩, ih⟩
  have reports : Sampler.report.Returns (quiet Sampler CoordinatorJob Mark) mark := by
    refine fun now _ => ⟨mark, ⟨rfl, rfl⟩, fun found _ _ => ⟨mark, rfl, ?_⟩⟩
    simp only [Script.done_bind]
    split
    · rfl
    · refine (records _).bind fun _ => ?_
      refine fun reply _ => ⟨mark, ⟨rfl, rfl⟩, ?_⟩
      cases reply <;> rfl
  refine Script.Follows.embed (quiet Sampler CoordinatorJob Mark) ?_ ?_ ?_ ?_ ?_ reports
  · exact fun _ _ _ => trivial
  · exact fun _ _ => trivial
  · exact fun mark question reply after ⟨other, same⟩ => same ▸ tolerant.asks mark reply other
  · intro mark whole now after same
    subst same
    exact tolerant.steps after rfl
  · exact fun _ _ _ _ none => none.elim

/-- The jobs that are not the coordinator's keep to a tolerant protocol, and are followed by such
jobs only. -/
theorem perform_follows (tolerant : Tolerant rules) {job : WorkerJob}
    (other : job.coordinator? = none) :
    (Worker.perform job).Follows rules
      (fun after next => after = mark ∧ ∀ job, next = some job → job.coordinator? = none) mark := by
  have ended : Worker.endSamplerLoop.Follows rules
      (fun after next => after = mark ∧ ∀ job, next = some job → job.coordinator? = none) mark := by
    refine Script.Returns.bind (tolerant.change_returns fun _ => ?_) fun _ => ?_
    · rfl
    · exact ⟨rfl, nofun⟩
  cases job with
  | coordinator job => cases other
  | consume number => exact (tolerant.consume_returns number).bind fun _ => ⟨rfl, nofun⟩
  | captureLoop =>
    refine Script.Returns.bind (tolerant.change_returns fun _ => ?_) fun _ => ?_
    · rfl
    · refine tolerant.look_follows fun worker => ?_
      refine Script.Returns.bind (sleep_returns _ _) fun complete => ?_
      cases complete with
      | false => exact ended
      | true => exact ⟨rfl, fun job same => by cases same; rfl⟩
  | reportLoop =>
    refine tolerant.look_follows fun worker => ?_
    refine Script.Returns.bind (sleep_returns _ _) fun complete => ?_
    cases complete with
    | false => exact ended
    | true => exact tolerant.report_returns.bind fun _ => ⟨rfl, fun job same => by cases same; rfl⟩

end Tolerant

end LeaseFleet
