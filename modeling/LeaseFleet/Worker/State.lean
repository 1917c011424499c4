import LeaseFleet.Consumer.Crew
import LeaseFleet.Consumer.Rejection
import LeaseFleet.Coordinator.Lifecycle
import LeaseFleet.Sync.Streams
import LeaseFleet.Utilization.Sampler
import LeaseFleet.Worker.Phase

/-!
# What a worker is made of

A worker keeps leases, keeps the streams in sync, publishes its load, and has one consumer for
every shard that it holds. Everything here changes in single indivisible steps.
-/

namespace LeaseFleet

/-- The whole state of a worker. -/
structure Worker where
  coordinator : Coordinator
  settings : SchedulerSettings := {}
  synchronizer : Synchronizer
  /-- Whether somebody works with the synchronizer. -/
  syncBusy : Bool := false
  crew : Crew := { places := none }
  /-- The numbers of the consumers that the worker looks after. -/
  consumers : SortedMap ShardKey Nat := .empty
  sampler : Sampler
  /-- Whether the worker publishes its load. -/
  reportsLoad : Bool := false
  /-- How many of the sampling loops have not ended yet. -/
  samplerLoops : Nat := 0
  phase : WorkerPhase := .created
  /-- The phases that were announced, oldest first. -/
  announced : List WorkerPhase := []
  stopping : Bool := false
  lastShardSync : Option Nat := none
  rejections : RejectionQueue := {}
  /-- The diagnostic events that were told, oldest first. -/
  events : List DiagnosticEvent := []

namespace Worker

/-- The name under which consumers are refused. -/
def consumerExecutor : String := "shard-consumers"

/-! ## Phases -/

/-- Moves on to a later phase and announces it; a step back or none is ignored. -/
def enter (worker : Worker) (phase : WorkerPhase) : Worker :=
  if worker.phase.rank < phase.rank then
    { worker with phase, announced := worker.announced ++ [phase] }
  else worker

/-- Whether the worker may still be brought up. -/
def canBegin (worker : Worker) : Bool := worker.phase = .created && !worker.stopping

/-- Begins to bring the worker up, if that is possible. -/
def beginBringUp (worker : Worker) : Worker :=
  if worker.canBegin then worker.enter .initializing else worker

/-! ## Consumers -/

/-- The shards that the worker holds, by lease key. -/
def assignedShards (worker : Worker) : List AssignedShard :=
  worker.coordinator.held.values.map fun held => .ofLease held.lease held.token

/-- The number of the shard's consumer; one is put to work if there is none. -/
def engage (worker : Worker) (shard : AssignedShard) : Except WorkerError (Nat × Worker) :=
  match worker.consumers.get? shard.key with
  | some number => .ok (number, worker)
  | none =>
    match worker.crew.start shard with
    | .error reason =>
      .error (.taskRejected consumerExecutor (shard.leaseKey ++ ": " ++ reason))
    | .ok (number, crew) =>
      .ok (number, { worker with crew, consumers := worker.consumers.insert shard.key number })

def reject (worker : Worker) (rejection : Rejection) : Worker :=
  { worker with rejections := (worker.rejections.report rejection).2 }

/-- Asks the consumer of a shard that is consumed to its end to stop. -/
def finishShard (worker : Worker) (shard : AssignedShard) : Worker :=
  match worker.consumers.get? shard.key with
  | some number => { worker with crew := worker.crew.askOnce number .shardEnd }
  | none => worker

/-- Looks after one assigned shard: it gets a consumer unless it is consumed to its end or waits
for a parent. A refusal is reported. -/
def serveShard (table : LeaseTable) (worker : Worker) (shard : AssignedShard) : Worker :=
  if shard.checkpoint.isShardEnd then worker.finishShard shard
  else if (shard.unfinishedParent table).isSome then worker
  else match worker.engage shard with
    | .ok (_, worker) => worker
    | .error error => worker.reject { executor := consumerExecutor, reason := error.message }

/-- Asks the consumers of all shards but the given ones to stop. -/
def askOthers (worker : Worker) (keep : List ShardKey) : Crew :=
  worker.consumers.entries.foldl
    (fun crew entry =>
      if keep.contains entry.1 then crew else crew.askOnce entry.2 .leaseLost)
    worker.crew

/-- Asks the consumers of all shards but the given ones to stop, and looks no longer after those
that have stopped. -/
def dismiss (worker : Worker) (keep : List ShardKey) : Worker :=
  let crew := worker.askOthers keep
  { worker with
    crew
    consumers := worker.consumers.filter fun _ number => !crew.isStopped number }

/-- Looks after all assigned shards and dismisses the consumers of all others. -/
def serve (worker : Worker) : Worker :=
  let shards := worker.assignedShards
  let table := LeaseTable.ofLeases worker.coordinator.allLeases
  (shards.foldl (serveShard table) worker).dismiss (shards.map AssignedShard.key)

def askAll (worker : Worker) (reason : ShutdownReason) : Crew :=
  worker.consumers.values.foldl (fun crew number => crew.askOnce number reason) worker.crew

/-- Turns the pending rejections into events. -/
def tellEvents (worker : Worker) : Worker :=
  let (rejections, queue) := worker.rejections.drain
  { worker with
    rejections := queue
    events := worker.events ++ RejectionQueue.events rejections worker.consumers.size }

/-! ## Shutdown -/

/-- Begins to shut down: nothing new is started, and every consumer is asked to stop. -/
def beginShutdown (worker : Worker) : Worker :=
  if worker.stopping then worker
  else
    let worker := { worker with stopping := true }.enter .shuttingDown
    { worker with crew := worker.askAll .requested }

end Worker

end LeaseFleet
