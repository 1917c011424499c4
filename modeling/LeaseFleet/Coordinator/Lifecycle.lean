import LeaseFleet.Coordinator.Balancing

/-!
# The life of a coordinator

A coordinator first adopts the leases that name its worker, then keeps renewing, taking and
rebalancing in the background, and in the end stops these loops and gives its leases back. Once
stopped it does not start again.
-/

namespace LeaseFleet.Coordinator

/-- Scans the table and adopts every lease that names this worker. A coordinator that was stopped
meanwhile gives back what it has adopted. -/
def adopt : CoordinatorScript (Except WorkerError Unit) := do
  match ← store .list with
  | .error error => return .error error
  | .ok leases =>
    scan leases
    let worker := (← Script.look).workerId
    match ← acquireAll (leases.filter (·.isOwnedBy worker)) with
    | .error error => return .error error
    | .ok () =>
      if (← Script.look).stopping then
        releaseAll
        return .error .shuttingDown
      else return .ok ()

/-- Whether the background loops may be started. -/
def canStart (state : Coordinator) : Bool := !state.started && !state.stopping

def loops : List CoordinatorJob := [.renewalLoop, .takingLoop, .rebalanceLoop]

def markStarted (state : Coordinator) : Coordinator :=
  if state.canStart then { state with started := true, running := loops.length } else state

/-- Starts the background loops, unless they were started or the coordinator was stopped. -/
def start : CoordinatorScript Unit := do
  let found ← .step (fun _ => true) markStarted .done
  if found.canStart then Script.spawnAll loops

/-- Ends the background loops, waits for them, and gives all leases back. -/
def stop : CoordinatorScript Unit := do
  let found ← .step (fun _ => true) (fun state => { state with stopping := true }) .done
  if found.stopping then return ()
  let _ ← .step (fun state => state.running = 0) id .done
  releaseAll

/-- Notes that a background loop has ended. -/
def endLoop : CoordinatorScript (Option CoordinatorJob) := do
  Script.change fun state => { state with running := state.running - 1 }
  return none

/-- Waits until the next cycle of a loop; `false` means that the coordinator was stopped. -/
def nextCycle (interval : Coordinator → Nat) : CoordinatorScript Bool := do
  .sleep (interval (← Script.look)) stopping .done

/-- What a job does, and the job that follows it. -/
def perform : CoordinatorJob → CoordinatorScript (Option CoordinatorJob)
  | .renewal held => do
    renewOne held
    return none
  | .release held => do
    releaseOne held
    return none
  | .renewalLoop => do
    if ← nextCycle (·.settings.renewalInterval) then
      renew
      return some .renewalLoop
    else endLoop
  | .takingLoop => do
    let _ ← take
    if ← nextCycle (·.settings.takingInterval) then return some .takingLoop else endLoop
  | .rebalanceLoop => do
    if ← nextCycle (·.assignment.rebalanceInterval) then
      let _ ← rebalance
      return some .rebalanceLoop
    else endLoop

end LeaseFleet.Coordinator
