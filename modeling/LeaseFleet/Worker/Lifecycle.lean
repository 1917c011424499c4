import LeaseFleet.Worker.Processing

/-!
# The life of a worker

A worker is brought up in several attempts: it adopts its leases, sees to it that the lease table
is filled, and starts its background loops. It then runs the process loop until it is shut down.
Shutting down asks every consumer to stop, ends the loops and gives all leases back.
-/

namespace LeaseFleet.Worker

/-! ## The wait for a filled table -/

def isTableEmpty : WorkerScript (Except WorkerError Bool) := do
  let worker ← Script.look
  worker.coordinator.retry.store stopping .isEmpty

/-- Looks at the table every interval for as long as the wait lasts, and once more after it;
`true` when it was always empty. -/
def watchTable (started wait interval : Nat) : (rounds : Nat) →
    WorkerScript (Except WorkerError Bool)
  | 0 => isTableEmpty
  | rounds + 1 => do
    if wait < (← Script.query .clock) - started then isTableEmpty
    else
      match ← isTableEmpty with
      | .error error => return .error error
      | .ok false => return .ok false
      | .ok true =>
        if ← .sleep interval stopping .done then watchTable started wait interval rounds
        else return .error .shuttingDown

/-- How long to wait for another worker to fill the table. -/
def tableWait (settings : SchedulerSettings) : WorkerScript Nat :=
  if settings.minTableWait < settings.maxTableWait then
    Script.query (.draw settings.minTableWait (settings.maxTableWait - 1))
  else return settings.minTableWait

/-- Waits a random time and returns whether the table stayed empty, so that of the workers that
start together usually one fills the table. -/
def shouldFillTable : WorkerScript (Except WorkerError Bool) := do
  let settings := (← Script.look).settings
  let wait ← tableWait settings
  let started ← Script.query .clock
  watchTable started wait settings.tableCheckInterval (wait / settings.tableCheckInterval + 1)

/-! ## Bringing up -/

/-- Takes in the streams of the leases that were seen. -/
def takeInTable (synchronizer : Synchronizer) : WorkerScript Synchronizer := do
  if synchronizer.sync.multi then
    let (_, synchronizer) ← synchronizer.takeInLeases (← Script.look).coordinator.allLeases
    return synchronizer
  else return synchronizer

/-- Fills the table, if after the wait that falls to this worker. -/
def fillTable (synchronizer : Synchronizer) :
    WorkerScript (Except WorkerError Unit × Synchronizer) := do
  match ← shouldFillTable with
  | .error error => return (.error error, synchronizer)
  | .ok false => return (.ok (), synchronizer)
  | .ok true =>
    let (result, synchronizer) ← synchronizer.runPass stopping true
    return (result.map fun _ => (), synchronizer)

/-- The first sync of a worker. -/
def firstSync (synchronizer : Synchronizer) :
    WorkerScript (Except WorkerError Unit × Synchronizer) := do
  let synchronizer ← takeInTable synchronizer
  match ← isTableEmpty with
  | .error error => return (.error error, synchronizer)
  | .ok isEmpty =>
    if !(← Script.look).settings.skipSyncIfLeasesExist || isEmpty then fillTable synchronizer
    else return (.ok (), synchronizer)

def attemptBringUp : WorkerScript (Except WorkerError Unit) := do
  match ← keeping Coordinator.adopt with
  | .error error => return .error error
  | .ok () =>
    match ← synchronizing firstSync with
    | .error error => return .error error
    | .ok () =>
      if (← Script.look).stopping then return .error .shuttingDown
      keeping Coordinator.start
      return .ok ()

/-- The loops that sample and report the load of the worker. -/
def samplingLoops : List WorkerJob := [.captureLoop, .reportLoop]

/-- Starts to sample and report, where the worker does that. -/
def startSampling : WorkerScript Unit := do
  if (← Script.look).reportsLoad then
    Script.change fun worker => { worker with samplerLoops := samplingLoops.length }
    Script.spawnAll samplingLoops

/-- Lets a worker that has come up run, unless it was shut down meanwhile. -/
def beginRunning : WorkerScript (Except WorkerError Unit) := do
  if (← Script.look).stopping then return .error .shuttingDown
  startSampling
  let found ← .step (fun _ => true) (·.enter .running) .done
  if found.phase.rank < WorkerPhase.running.rank then return .ok ()
  else return .error .shuttingDown

/-- Makes attempts to bring the worker up; the last failure is the reason when all fail. -/
def attemptsToBringUp (total : Nat) : (left : Nat) → WorkerScript (Except WorkerError Unit)
  | 0 => return .error (.initialization total "unknown")
  | left + 1 => do
    match ← attemptBringUp with
    | .ok () => beginRunning
    | .error .shuttingDown => return .error .shuttingDown
    | .error error =>
      if left = 0 then
        Script.change (·.enter .shutDown)
        return .error (.initialization total error.message)
      else
        let backoff := (← Script.look).settings.initializationBackoff
        if ← .sleep backoff stopping .done then attemptsToBringUp total left
        else return .error .shuttingDown

/-- Brings the worker up. Only a new worker can be brought up. -/
def bringUp : WorkerScript (Except WorkerError Unit) := do
  let found ← .step (fun _ => true) beginBringUp .done
  if found.canBegin then
    let attempts := max found.settings.maxInitializationAttempts 1
    attemptsToBringUp attempts attempts
  else return .error (.invalidState "initialize" found.phase.name)

/-! ## Shutting down -/

/-- Shuts the worker down; a second time has no effect. -/
def shutdown : WorkerScript Unit := do
  let found ← .step (fun _ => true) beginShutdown .done
  if found.stopping then return ()
  keeping Coordinator.stop
  let _ ← .step (fun worker => worker.samplerLoops = 0) id .done
  Script.change (·.enter .shutDown)

/-! ## Background jobs -/

/-- Notes that a sampling loop has ended. -/
def endSamplerLoop : WorkerScript (Option WorkerJob) := do
  Script.change fun worker => { worker with samplerLoops := worker.samplerLoops - 1 }
  return none

/-- What a job does, and the job that follows it. -/
def perform : WorkerJob → WorkerScript (Option WorkerJob)
  | .coordinator job => do
    return (← keeping (Coordinator.perform job)).map .coordinator
  | .consume number => do
    consume number
    return none
  | .captureLoop => do
    Script.change fun worker => { worker with sampler := worker.sampler.capture }
    let config := (← Script.look).sampler.config
    if ← .sleep config.captureInterval stopping .done then return some .captureLoop
    else endSamplerLoop
  | .reportLoop => do
    let config := (← Script.look).sampler.config
    if ← .sleep config.reportInterval stopping .done then
      let _ ← Sampler.report.embed samplerPart .coordinator
      return some .reportLoop
    else endSamplerLoop

end LeaseFleet.Worker
