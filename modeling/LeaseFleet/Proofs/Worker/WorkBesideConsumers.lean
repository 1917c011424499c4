import LeaseFleet.Proofs.Consumer.CrewNumbers
import LeaseFleet.Proofs.Coordinator.UnstoppedActs

/-!
# What a worker does beside its consumers

Keeping leases, keeping shards and streams in sync and coming up leave the consumers alone, and move the
worker on in its life only by entering a phase. A kind of acts to which all questions and all such changes
belong (`Routine`) is therefore the kind of all acts of these scripts. One to which also the changes of
consumers belong (`Working`) is the kind of all acts of whatever a worker does but shutting down.
-/

namespace LeaseFleet

/-- Nothing has changed that concerns leases, consumers or phases. -/
abbrev Worker.SameStanding (found now : Worker) : Prop :=
  now = { found with
    synchronizer := now.synchronizer, syncBusy := now.syncBusy
    sampler := now.sampler, samplerLoops := now.samplerLoops
    lastShardSync := now.lastShardSync, rejections := now.rejections, events := now.events }

/-- Every question belongs to the kind, and every change that leaves consumers and phases alone and does
not stop the coordinator, and every change by which a phase is entered. -/
structure Routine (each : Act Worker → Prop) : Prop where
  asked : ∀ query reply, each (.asked query reply)
  kept : ∀ {found now : Worker}, found.SameStanding now → each (.changed found now)
  coordinator : ∀ (worker : Worker) {coordinator : Coordinator},
    coordinator.stopping = worker.coordinator.stopping → each (.changed worker { worker with coordinator })
  entered : ∀ worker phase, each (.changed worker (worker.enter phase))

/-- The changes of consumers belong to the kind, too. -/
structure Working (each : Act Worker → Prop) : Prop extends Routine each where
  engaged : ∀ worker shard, each (.changed worker (worker.engaged shard))
  dismiss : ∀ worker keep, each (.changed worker (worker.dismiss keep))
  serve : ∀ worker, each (.changed worker worker.serve)
  finishConsumer : ∀ worker number, each (.changed worker (worker.finishConsumer number))

/-- Every question belongs to the kind, and every change that leaves the consumers alone. -/
structure Sparing (each : Act Worker → Prop) : Prop where
  asked : ∀ query reply, each (.asked query reply)
  changed : ∀ {found now : Worker}, now.consumers = found.consumers → now.crew = found.crew →
    each (.changed found now)

namespace Worker

namespace SameStanding

variable {found now : Worker} (same : found.SameStanding now)

include same

theorem coordinator : now.coordinator = found.coordinator := by
  rw [same]

theorem settings : now.settings = found.settings := by
  rw [same]

theorem crew : now.crew = found.crew := by
  rw [same]

theorem consumers : now.consumers = found.consumers := by
  rw [same]

theorem phase : now.phase = found.phase := by
  rw [same]

theorem announced : now.announced = found.announced := by
  rw [same]

theorem stopping : now.stopping = found.stopping := by
  rw [same]

end SameStanding

@[simp] theorem enter_consumers (worker : Worker) (phase : WorkerPhase) :
    (worker.enter phase).consumers = worker.consumers := by
  unfold enter
  split <;> rfl

@[simp] theorem enter_crew (worker : Worker) (phase : WorkerPhase) :
    (worker.enter phase).crew = worker.crew := by
  unfold enter
  split <;> rfl

end Worker

theorem Sparing.routine {each : Act Worker → Prop} (sparing : Sparing each) : Routine each where
  asked := sparing.asked
  kept same := sparing.changed same.consumers same.crew
  coordinator _ _ _ := sparing.changed rfl rfl
  entered worker phase := sparing.changed (worker.enter_consumers phase) (worker.enter_crew phase)

namespace Routine

variable {each : Act Worker → Prop} {α : Type}

theorem query (routine : Routine each) (question : Query) :
    (Script.query question : WorkerScript _).Stays each :=
  Script.query_only (routine.asked question)

theorem record (routine : Routine each) (measurement : Measurement) :
    (Script.record measurement : WorkerScript Unit).Stays each :=
  routine.query (.record measurement)

/-- A change that leaves consumers and phases alone. -/
theorem step (routine : Routine each) {ready : Worker → Bool} {change : Worker → Worker}
    {next : Worker → WorkerScript α} (same : ∀ worker : Worker, worker.SameStanding (change worker))
    (rest : ∀ worker, (next worker).Stays each) : ((Script.step ready change .done).bind next).Stays each :=
  Script.step_only (fun worker _ => routine.kept (same worker)) fun worker _ => rest worker

theorem look (routine : Routine each) {next : Worker → WorkerScript α}
    (rest : ∀ worker, (next worker).Stays each) : (Script.look.bind next).Stays each :=
  routine.step (fun _ => rfl) rest

theorem change (routine : Routine each) {change : Worker → Worker} {next : Unit → WorkerScript α}
    (same : ∀ worker : Worker, worker.SameStanding (change worker)) (rest : (next ()).Stays each) :
    ((Script.change change).bind next).Stays each :=
  routine.step same fun _ => rest

/-- A phase is entered. -/
theorem enter (routine : Routine each) {ready : Worker → Bool} (phase : WorkerPhase)
    {next : Worker → WorkerScript α} (rest : ∀ worker, (next worker).Stays each) :
    ((Script.step ready (·.enter phase) .done).bind next).Stays each :=
  Script.step_only (fun worker _ => routine.entered worker phase) fun worker _ => rest worker

theorem keeping (routine : Routine each) {script : CoordinatorScript α} (goesOn : Coordinator.GoesOn script) :
    (Worker.keeping script).Stays each :=
  Script.Stays.embed routine.asked (fun worker _ same => routine.coordinator worker same) goesOn

theorem settleConsumers (routine : Routine each) (before after : Worker) :
    (Worker.settleConsumers before after).Stays each :=
  (routine.record _).bind fun _ => Script.Stays.bind (Script.spawnAll_only _) fun _ => routine.record _

theorem synchronizing (routine : Routine each) {body : Synchronizer → WorkerScript (α × Synchronizer)}
    (inside : ∀ synchronizer, (body synchronizer).Stays each) : (Worker.synchronizing body).Stays each := by
  refine routine.step (fun _ => rfl) fun found => ?_
  exact (inside _).bind fun _ => routine.change (fun _ => rfl) trivial

theorem syncEach (routine : Routine each) (sync : ShardSync) (configs : List StreamConfig) :
    (Worker.syncEach sync configs).Stays each := by
  induction configs with
  | nil => trivial
  | cons config rest ih => exact (sync.syncStream_stays routine.asked _ config).bind fun _ => ih

theorem syncShards (routine : Routine each) : Worker.syncShards.Stays each := by
  refine (routine.query .clock).bind fun now => ?_
  refine routine.step (fun worker => ?_) fun found => ?_
  · split <;> rfl
  · split
    · trivial
    · refine (routine.keeping Coordinator.isLeader_goesOn).bind fun leads => ?_
      split
      · exact routine.synchronizing fun _ => (routine.syncEach _ _).bind fun _ => trivial
      · trivial

theorem syncStreams (routine : Routine each) : Worker.syncStreams.Stays each := by
  refine routine.synchronizing fun synchronizer => (routine.query .clock).bind fun now => ?_
  split
  · trivial
  · refine (routine.keeping Coordinator.isLeader_goesOn).bind fun leads => ?_
    split
    · exact (synchronizer.runPass_stays routine.asked _ false).bind fun _ => trivial
    · trivial

/-- What is left of a round when the consumers have been looked after. -/
theorem restOfRound (routine : Routine each) (found : Worker) : (do
    Worker.settleConsumers found found.serve
    Script.change Worker.tellEvents
    Worker.syncShards
    Worker.syncStreams : WorkerScript Unit).Stays each := by
  refine (routine.settleConsumers _ _).bind fun _ => ?_
  refine routine.change (fun _ => rfl) ?_
  exact routine.syncShards.bind fun _ => routine.syncStreams

/-! ### Coming up -/

theorem isTableEmpty (routine : Routine each) : Worker.isTableEmpty.Stays each :=
  routine.look fun _ => RetryPolicy.store_stays routine.asked _ _ .isEmpty

theorem watchTable (routine : Routine each) (started wait interval rounds : Nat) :
    (Worker.watchTable started wait interval rounds).Stays each := by
  induction rounds with
  | zero => exact routine.isTableEmpty
  | succ rounds ih =>
    refine (routine.query .clock).bind fun now => ?_
    split
    · exact routine.isTableEmpty
    · refine routine.isTableEmpty.bind fun result => ?_
      match result with
      | .error error => trivial
      | .ok false => trivial
      | .ok true =>
        refine Script.sleep_stays fun complete => ?_
        cases complete with
        | false => trivial
        | true => exact ih

theorem shouldFillTable (routine : Routine each) : Worker.shouldFillTable.Stays each := by
  refine routine.look fun worker => ?_
  have waits : (Worker.tableWait worker.settings).Stays each := by
    unfold Worker.tableWait
    split
    · exact routine.query _
    · trivial
  exact waits.bind fun _ => (routine.query .clock).bind fun _ => routine.watchTable _ _ _ _

theorem firstSync (routine : Routine each) (synchronizer : Synchronizer) :
    (Worker.firstSync synchronizer).Stays each := by
  have takes : (Worker.takeInTable synchronizer).Stays each := by
    unfold Worker.takeInTable
    split
    · exact routine.look fun worker =>
        (synchronizer.takeInLeases_stays routine.asked _).bind fun _ => trivial
    · trivial
  have fills (synchronizer : Synchronizer) : (Worker.fillTable synchronizer).Stays each := by
    refine routine.shouldFillTable.bind fun result => ?_
    match result with
    | .error error => trivial
    | .ok false => trivial
    | .ok true => exact (synchronizer.runPass_stays routine.asked _ true).bind fun _ => trivial
  refine takes.bind fun synchronizer => routine.isTableEmpty.bind fun result => ?_
  cases result with
  | error error => trivial
  | ok isEmpty =>
    refine routine.look fun worker => ?_
    split
    · exact fills synchronizer
    · trivial

theorem attemptBringUp (routine : Routine each) : Worker.attemptBringUp.Stays each := by
  refine (routine.keeping Coordinator.adopt_goesOn).bind fun result => ?_
  cases result with
  | error error => trivial
  | ok _ =>
    refine (routine.synchronizing fun synchronizer => routine.firstSync synchronizer).bind fun result => ?_
    cases result with
    | error error => trivial
    | ok _ =>
      refine routine.look fun worker => ?_
      split
      · trivial
      · exact (routine.keeping Coordinator.start_goesOn).bind fun _ => trivial

theorem beginRunning (routine : Routine each) : Worker.beginRunning.Stays each := by
  have samples : Worker.startSampling.Stays each := by
    refine routine.look fun worker => ?_
    split
    · exact routine.change (fun _ => rfl) (Script.spawnAll_only _)
    · trivial
  refine routine.look fun worker => ?_
  split
  · trivial
  · refine samples.bind fun _ => routine.enter .running fun found => ?_
    split <;> trivial

theorem attemptsToBringUp (routine : Routine each) (total left : Nat) :
    (Worker.attemptsToBringUp total left).Stays each := by
  induction left with
  | zero => trivial
  | succ left ih =>
    refine routine.attemptBringUp.bind fun result => ?_
    split
    · exact routine.beginRunning
    · trivial
    · split
      · exact routine.enter .shutDown fun _ => trivial
      · refine routine.look fun worker => Script.sleep_stays fun complete => ?_
        cases complete with
        | false => trivial
        | true => exact ih

theorem bringUp (routine : Routine each) : Worker.bringUp.Stays each := by
  have begins (worker : Worker) : each (.changed worker worker.beginBringUp) := by
    unfold Worker.beginBringUp
    split
    · exact routine.entered worker .initializing
    · exact routine.kept rfl
  refine Script.step_only (fun worker _ => begins worker) fun found _ => ?_
  split
  · exact routine.attemptsToBringUp _ _
  · trivial

/-! ### Sampling -/

theorem sampling (routine : Routine each) {job : WorkerJob} (samples : job = .captureLoop ∨ job = .reportLoop) :
    (Worker.perform job).Stays each := by
  have ended : Worker.endSamplerLoop.Stays each := routine.change (fun _ => rfl) trivial
  rcases samples with rfl | rfl
  · refine routine.change (fun _ => rfl) (routine.look fun _ => Script.sleep_stays fun complete => ?_)
    cases complete with
    | false => exact ended
    | true => trivial
  · refine routine.look fun _ => Script.sleep_stays fun complete => ?_
    cases complete with
    | false => exact ended
    | true =>
      have keeps (worker : Worker) (sampler : Sampler) : each (.changed worker { worker with sampler }) :=
        routine.kept rfl
      exact (Script.embed_stays routine.asked keeps Sampler.report).bind fun _ => trivial

end Routine

/-! ## Whatever a worker does -/

namespace Working

variable {each : Act Worker → Prop} {α : Type}

theorem consumerFor (working : Working each) (shard : AssignedShard) : (Worker.consumerFor shard).Stays each := by
  refine Script.step_only (fun worker _ => working.engaged worker shard) fun found _ => ?_
  split
  · trivial
  · split
    · trivial
    · exact (working.settleConsumers _ _).bind fun _ => trivial

theorem dismissOthers (working : Working each) (keep : List ShardKey) : (Worker.dismissOthers keep).Stays each :=
  Script.step_only (fun worker _ => working.dismiss worker keep) fun _ _ => working.settleConsumers _ _

theorem consume (working : Working each) (number : Nat) : (Worker.consume number).Stays each := by
  refine working.step (fun _ => rfl) fun _ => ?_
  refine Script.step_only (fun worker _ => working.finishConsumer worker number) fun found _ => ?_
  split
  · exact working.record _
  · trivial

theorem reportRejection (working : Working each) (rejection : Rejection) :
    (Worker.reportRejection rejection).Stays each :=
  working.step (fun _ => rfl) fun _ => (working.record _).bind fun _ => trivial

theorem processOnce (working : Working each) : Worker.processOnce.Stays each :=
  Script.step_only (fun worker _ => working.serve worker) fun found _ => working.restOfRound found

theorem perform (working : Working each) (job : WorkerJob) : (Worker.perform job).Stays each := by
  cases job with
  | coordinator job => exact (working.keeping (Coordinator.perform_goesOn job)).bind fun _ => trivial
  | consume number => exact (working.consume number).bind fun _ => trivial
  | captureLoop => exact working.sampling (.inl rfl)
  | reportLoop => exact working.sampling (.inr rfl)

/-- What can be asked of a worker, but that it or its coordinator stop. -/
theorem request (working : Working each) {request : Request} (goesOn : request ≠ .shutdown)
    (coordinatorToo : request ≠ .stopLoops) : request.perform.Stays each := by
  cases request with
  | adopt => exact (working.keeping Coordinator.adopt_goesOn).bind fun _ => trivial
  | take => exact (working.keeping Coordinator.take_goesOn).bind fun _ => trivial
  | renew => exact (working.keeping Coordinator.renew_goesOn).bind fun _ => trivial
  | rebalance => exact (working.keeping Coordinator.rebalance_goesOn).bind fun _ => trivial
  | startLoops => exact (working.keeping Coordinator.start_goesOn).bind fun _ => trivial
  | stopLoops => exact absurd rfl coordinatorToo
  | isLeader => exact (working.keeping Coordinator.isLeader_goesOn).bind fun _ => trivial
  | checkpoint leaseKey token position =>
    exact (working.keeping (Coordinator.updateCheckpoint_goesOn leaseKey token position)).bind fun _ => trivial
  | bringUp => exact working.bringUp.bind fun _ => trivial
  | shutdown => exact absurd rfl goesOn
  | processOnce => exact working.processOnce.bind fun _ => trivial
  | shouldFillTable => exact working.shouldFillTable.bind fun _ => trivial
  | engage shard => exact (working.consumerFor shard).bind fun _ => trivial
  | dismissOthers keep => exact (working.dismissOthers keep).bind fun _ => trivial
  | report rejection => exact (working.reportRejection rejection).bind fun _ => trivial
  | lookup leaseKey =>
    refine (working.query (.store .list)).bind fun reply => ?_
    cases reply <;> trivial

end Working

end LeaseFleet
