import LeaseFleet.Worker.State

/-!
# The process loop

One round of the process loop looks after the consumers, tells what the execution layer has
refused, and keeps shards and streams in sync while the worker leads.
-/

namespace LeaseFleet

/-- What a worker does beside its callers. -/
inductive WorkerJob where
  | coordinator (job : CoordinatorJob)
  /-- A consumer works until it has a cause to stop. -/
  | consume (number : Nat)
  | captureLoop
  | reportLoop

abbrev WorkerScript := Script Worker WorkerJob

namespace Worker

variable {α : Type}

def coordinatorPart : Script.Part Worker Coordinator where
  get := coordinator
  put coordinator worker := { worker with coordinator }

def samplerPart : Script.Part Worker Sampler where
  get := sampler
  put sampler worker := { worker with sampler }

def keeping (script : CoordinatorScript α) : WorkerScript α :=
  script.embed coordinatorPart .coordinator

/-- Works with the synchronizer while nobody else does. -/
def synchronizing (body : Synchronizer → WorkerScript (α × Synchronizer)) : WorkerScript α := do
  let found ← .step (fun worker => !worker.syncBusy)
    (fun worker => { worker with syncBusy := true }) .done
  let (result, synchronizer) ← body found.synchronizer
  Script.change fun worker => { worker with synchronizer, syncBusy := false }
  return result

/-! ## Consumers -/

/-- The jobs of the consumers that were started in between, where the worker hosts them. -/
def startedJobs (before after : Crew) : List WorkerJob :=
  if after.places.isSome then
    (List.range (after.members.length - before.members.length)).map fun offset =>
      .consume (before.members.length + offset)
  else []

/-- Shows what has become of the consumers, and starts the new ones. -/
def settleConsumers (before after : Worker) : WorkerScript Unit := do
  Script.count .rejectedTasks (after.rejections.pending.length - before.rejections.pending.length)
  Script.spawnAll (startedJobs before.crew after.crew)
  Script.gaugeNat .activeConsumers after.consumers.size

def serveAll : WorkerScript Unit := do
  let found ← .step (fun _ => true) serve .done
  settleConsumers found found.serve

/-- The worker after a consumer was asked for, whatever came of it. -/
def engaged (worker : Worker) (shard : AssignedShard) : Worker :=
  match worker.engage shard with
  | .ok (_, after) => after
  | .error _ => worker

/-- The number of the shard's consumer; one is put to work if there is none. -/
def consumerFor (shard : AssignedShard) : WorkerScript (Except WorkerError Nat) := do
  let found ← .step (fun _ => true) (·.engaged shard) .done
  match found.engage shard with
  | .error error => return .error error
  | .ok (number, after) =>
    if found.consumers.contains shard.key then return .ok number
    settleConsumers found after
    return .ok number

/-- Dismisses the consumers of all shards but the given ones. -/
def dismissOthers (keep : List ShardKey) : WorkerScript Unit := do
  let found ← .step (fun _ => true) (·.dismiss keep) .done
  settleConsumers found (found.dismiss keep)

/-- What a consumer reports that can no longer be asked to stop. -/
def abandonedReason : String := "channel closed"

/-- The end of a consumer; one that nobody asked to stop reports that. -/
def finishConsumer (number : Nat) (worker : Worker) : Worker :=
  let after := { worker with crew := worker.crew.finish number }
  match worker.crew.member? number with
  | some consumer =>
    if consumer.isAsked then after
    else after.reject { executor := consumer.leaseKey, reason := abandonedReason }
  | none => after

/-- A consumer works until it has a cause to stop. -/
def consume (number : Nat) : WorkerScript Unit := do
  let _ ← .step (fun worker => worker.crew.mustStop number) id .done
  let found ← .step (fun _ => true) (finishConsumer number) .done
  if !found.crew.isAsked number then Script.count .rejectedTasks 1

/-- Reports a rejection from outside; `false` when it is lost. -/
def reportRejection (rejection : Rejection) : WorkerScript Bool := do
  let found ← .step (fun _ => true) (·.reject rejection) .done
  Script.count .rejectedTasks 1
  return (found.rejections.report rejection).1

/-! ## Keeping in sync -/

/-- Whether the periodic shard sync is due. -/
def isShardSyncDue (worker : Worker) (now : Nat) : Bool :=
  match worker.lastShardSync with
  | none => true
  | some last => worker.coordinator.settings.shardSyncInterval ≤ now - last

/-- Syncs streams one after another, whatever becomes of each. -/
def syncEach (sync : ShardSync) : List StreamConfig → WorkerScript Unit
  | [] => return ()
  | config :: rest => do
    let _ ← sync.syncStream stopping config
    syncEach sync rest

/-- Syncs the shards of all tracked streams when that is due and the worker leads. -/
def syncShards : WorkerScript Unit := do
  let now ← Script.query .clock
  let found ← .step (fun _ => true)
    (fun worker =>
      if worker.isShardSyncDue now then { worker with lastShardSync := some now } else worker)
    .done
  if !found.isShardSyncDue now then return ()
  if ← keeping Coordinator.isLeader then
    synchronizing fun synchronizer => do
      syncEach synchronizer.sync synchronizer.streams.values
      return ((), synchronizer)

/-- Reconciles the tracked streams when that is due and the worker leads. -/
def syncStreams : WorkerScript Unit :=
  synchronizing fun synchronizer => do
    let now ← Script.query .clock
    if !synchronizer.isDue now then return ((), synchronizer)
    if ← keeping Coordinator.isLeader then
      let (_, synchronizer) ← synchronizer.runPass stopping false
      return ((), synchronizer)
    else return ((), synchronizer)

def processOnce : WorkerScript Unit := do
  serveAll
  Script.change tellEvents
  syncShards
  syncStreams

end Worker

end LeaseFleet
