import LeaseFleet.Coordinator.State

/-!
# Acquiring, renewing and releasing

Every write of a lease is conditional on the counter that the worker knows. A lost write of a held
lease means that another worker has taken the lease, so the lease is dropped at once. What comes
back from a write counts only for the acquisition under which the write was issued.
-/

namespace LeaseFleet

/-- What a coordinator does beside its callers. -/
inductive CoordinatorJob where
  /-- Renews one held lease. -/
  | renewal (held : HeldLease)
  /-- Releases one lease that was held. -/
  | release (held : HeldLease)
  | renewalLoop
  | takingLoop
  | rebalanceLoop

abbrev CoordinatorScript := Script Coordinator CoordinatorJob

namespace Coordinator

/-- Issues a store call and repeats it as the settings say. -/
def store (call : StoreCall) : CoordinatorScript (Except WorkerError call.Answer) := do
  let state ← Script.look
  state.retry.store stopping call

def showHeld : CoordinatorScript Unit := do
  Script.gaugeNat .leasesHeld (← Script.look).held.size

/-- Starts to hold a lease whose acquisition was stored. -/
def holdStored (stored : Lease) : CoordinatorScript Unit := do
  let token ← Script.query .token
  let now ← Script.query .clock
  let found ← .step (fun _ => true) (fun state => state.hold stored token now) .done
  Script.count .leasesTaken 1
  Script.gaugeNat .leasesHeld (found.hold stored token now).held.size

/-- Writes a lease in the name of this worker and holds it under a fresh token. A lost race is no
error. -/
def acquire (lease : Lease) : CoordinatorScript (Except WorkerError Bool) := do
  let worker := (← Script.look).workerId
  match ← Script.call (.update (lease.transferredTo (some worker)) lease.counter) with
  | .error error => return .error (.store error)
  | .ok (.updated stored) =>
    holdStored stored
    return .ok true
  | .ok _ => return .ok false

/-- Acquires leases one after another; an error ends it. -/
def acquireAll : List Lease → CoordinatorScript (Except WorkerError Unit)
  | [] => return .ok ()
  | lease :: rest => do
    match ← acquire lease with
    | .ok _ => acquireAll rest
    | .error error => return .error error

/-- Drops a lease that is held under a token. -/
def dropHeld (leaseKey : String) (token : Token) : CoordinatorScript Unit := do
  let found ← .step (fun _ => true) (fun state => state.drop leaseKey token) .done
  Script.gaugeNat .leasesHeld (found.drop leaseKey token).held.size

/-- Applies the outcome of a write that was issued under a token, and returns whether the lease is
still held under it. -/
def applyWrite (leaseKey : String) (token : Token) :
    UpdateOutcome → CoordinatorScript Bool
  | .updated stored => do
    let now ← Script.query .clock
    let found ← .step (fun _ => true)
      (fun state => state.confirm leaseKey token stored now) .done
    return found.holds leaseKey token
  | _ => do
    Script.count .leasesLost 1
    dropHeld leaseKey token
    return false

/-- Renews one lease. After a failure the lease is dropped only if it could not be renewed for the
failover time. -/
def renewOne (held : HeldLease) : CoordinatorScript Unit := do
  match ← store (.update held.lease held.lease.counter) with
  | .ok outcome =>
    let _ ← applyWrite held.lease.leaseKey held.token outcome
  | .error _ =>
    Script.count .renewalFailures 1
    let now ← Script.query .clock
    let state ← Script.look
    if state.settings.failoverTime ≤ now - held.lastRenewal then
      dropHeld held.lease.leaseKey held.token

def renew : CoordinatorScript Unit := do
  let state ← Script.look
  .gather (state.held.values.map .renewal) (.done ())
  showHeld

def released (lease : Lease) : Lease := { lease with owner := none }

/-- Gives one lease back; a lost race or a failure is left alone. -/
def releaseOne (held : HeldLease) : CoordinatorScript Unit := do
  let _ ← Script.call (.update (released held.lease) held.lease.counter)

def releaseAll : CoordinatorScript Unit := do
  let found ← .step (fun _ => true) dropAll .done
  .gather (found.held.values.map .release) (.done ())
  Script.gaugeNat .leasesHeld 0

/-- The lease with a new checkpoint, as its holder writes it. -/
def checkpointed (lease : Lease) (checkpoint : Checkpoint) : Lease :=
  { lease with checkpoint, ownerSwitches := 0 }

/-- Stores the checkpoint of a lease that is held under a token, and returns whether the lease is
still held under it. -/
def updateCheckpoint (leaseKey : String) (token : Token) (checkpoint : Checkpoint) :
    CoordinatorScript (Except WorkerError Bool) := do
  match (← Script.look).held.get? leaseKey with
  | none => return .ok false
  | some held =>
    if held.token = token then
      match ← store (.update (checkpointed held.lease checkpoint) held.lease.counter) with
      | .error error => return .error error
      | .ok outcome => return .ok (← applyWrite leaseKey token outcome)
    else return .ok false

end Coordinator

end LeaseFleet
