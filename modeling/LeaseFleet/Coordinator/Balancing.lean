import LeaseFleet.Coordinator.Taking

/-!
# Rebalancing by the leader

Only the worker that leads in its own eyes runs a pass of the assignment engine; the others issue
no store call. Two passes of one worker never overlap.
-/

namespace LeaseFleet.Coordinator

def noteLeading (live : SortedSet String) (state : Coordinator) : Coordinator :=
  { state with leading := isLeaderAmong state.workerId live }

/-- Whether the worker leads among the living; a change of this is shown. -/
def leads {Job : Type} (live : SortedSet String) : Script Coordinator Job Bool := do
  let found ← .step (fun _ => true) (noteLeading live) .done
  let leading := isLeaderAmong found.workerId live
  if found.leading != leading then
    Script.gauge .leaderState (if leading then 1.0 else 0.0)
  return leading

/-- Whether the worker leads among those that were considered alive last. -/
def isLeader : CoordinatorScript Bool := do leads (← Script.look).live

/-- The published summaries, where the settings want them. -/
def summariesToUse : CoordinatorScript (Except WorkerError (List WorkerSummary)) := do
  let state ← Script.look
  if state.assignment.disableMetrics then return .ok []
  else state.retry.run stopping do
    return (← Script.query .summaries).mapError WorkerError.store

/-- Runs one pass of the engine; returns the number of moves that were applied. -/
def runEngine (leases : List Lease) (summaries : List WorkerSummary) (live : List String) :
    CoordinatorScript Nat := do
  let found ← .step (fun state => !state.engineBusy)
    (fun state => { state with engineBusy := true }) .done
  let now ← Script.query .epoch
  let (moved, engine) ← found.engine.runPass { leases, summaries, live, now }
  Script.change fun state => { state with engine, engineBusy := false }
  return moved

/-- Runs one rebalancing pass if the worker leads. -/
def rebalance : CoordinatorScript (Except WorkerError Nat) := do
  let live ← findLiving (← Script.look).allLeases
  if !(← leads live) then return .ok 0
  match ← store .list with
  | .error error => return .error error
  | .ok leases =>
    match ← summariesToUse with
    | .error error => return .error error
    | .ok summaries => return .ok (← runEngine leases summaries live.toList)

end LeaseFleet.Coordinator
