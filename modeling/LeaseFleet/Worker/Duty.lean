import LeaseFleet.Script.Lookup
import LeaseFleet.Worker.Lifecycle

/-!
# Duties

What can be asked of a worker from outside, what it answers, and the endless duty of a worker that
is to run until it is shut down.
-/

namespace LeaseFleet

/-- What can be asked of a worker. -/
inductive Request where
  | adopt
  | take
  | renew
  | rebalance
  | startLoops
  | stopLoops
  | isLeader
  | checkpoint (leaseKey : String) (token : Token) (checkpoint : Checkpoint)
  | bringUp
  | shutdown
  | processOnce
  | shouldFillTable
  | engage (shard : AssignedShard)
  | dismissOthers (keep : List ShardKey)
  | report (rejection : Rejection)
  /-- One lease of the table, taken from a listing. -/
  | lookup (leaseKey : String)

/-- What a worker answers. -/
inductive Outcome where
  | nothing
  | completed
  | number (value : Nat)
  | truth (value : Bool)
  | failed (error : WorkerError)
  | lease (found : Except StoreError (Option Lease))

namespace Outcome

/-- The answer of an operation that may fail. -/
def ofResult {α : Type} (answer : α → Outcome) : Except WorkerError α → Outcome
  | .ok value => answer value
  | .error error => .failed error

end Outcome

namespace Request

def perform : Request → WorkerScript Outcome
  | adopt => do
    return .ofResult (fun _ => .completed) (← Worker.keeping Coordinator.adopt)
  | take => do return .ofResult (fun _ => .completed) (← Worker.keeping Coordinator.take)
  | renew => do
    Worker.keeping Coordinator.renew
    return .nothing
  | rebalance => do return .ofResult .number (← Worker.keeping Coordinator.rebalance)
  | startLoops => do
    Worker.keeping Coordinator.start
    return .nothing
  | stopLoops => do
    Worker.keeping Coordinator.stop
    return .nothing
  | isLeader => do return .truth (← Worker.keeping Coordinator.isLeader)
  | checkpoint leaseKey token position => do
    return .ofResult .truth
      (← Worker.keeping (Coordinator.updateCheckpoint leaseKey token position))
  | bringUp => do return .ofResult (fun _ => .completed) (← Worker.bringUp)
  | shutdown => do
    Worker.shutdown
    return .nothing
  | processOnce => do
    Worker.processOnce
    return .nothing
  | shouldFillTable => do return .ofResult .truth (← Worker.shouldFillTable)
  | engage shard => do return .ofResult .number (← Worker.consumerFor shard)
  | dismissOthers keep => do
    Worker.dismissOthers keep
    return .nothing
  | report rejection => do return .truth (← Worker.reportRejection rejection)
  | lookup leaseKey => do return .lease (← Script.findLease leaseKey)

end Request

/-- What a worker is busy with. -/
inductive Duty where
  | request (request : Request)
  | background (job : WorkerJob)
  /-- Comes up and then processes until it is shut down. -/
  | run
  /-- Processes until it is shut down. -/
  | process

namespace Duty

def script {α : Type} (script : WorkerScript α) : Script Worker Duty α :=
  script.embed { get := id, put := fun worker _ => worker } background

/-- What a duty does, and the duty or the answer that follows. -/
def behaviour : Duty → Script Worker Duty (Duty ⊕ Outcome)
  | request asked => do return .inr (← script asked.perform)
  | background job => do
    match ← script (Worker.perform job) with
    | some next => return .inl (background next)
    | none => return .inr .nothing
  | run => do
    match ← script Worker.bringUp with
    | .ok () => return .inl process
    | .error error => return .inr (.failed error)
  | process => do
    script Worker.processOnce
    let interval := (← Script.look).settings.pollInterval
    if ← .sleep interval Worker.stopping .done then return .inl process
    else return .inr .completed

end Duty

end LeaseFleet
