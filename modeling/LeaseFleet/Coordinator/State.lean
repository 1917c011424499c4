import LeaseFleet.Assignment.Engine
import LeaseFleet.Coordinator.Leader
import LeaseFleet.Worker.Settings

/-!
# What a coordinator knows

The leases that a worker holds, each under the token of its acquisition, and what the worker has
seen of the others. A lease is expired when its counter was the same in all scans of the table
for the failover time.
-/

namespace LeaseFleet

/-- A lease that the worker believes it owns. -/
structure HeldLease where
  lease : Lease
  token : Token
  /-- When the last write of the lease was confirmed. -/
  lastRenewal : Nat
  deriving DecidableEq

/-- The counter of a lease and since when it has been seen. -/
structure Observation where
  counter : Nat
  since : Nat
  deriving DecidableEq, Repr

/-- The lease-keeping part of a worker. Times are in milliseconds. -/
structure Coordinator where
  workerId : String
  settings : LeaseSettings := {}
  assignment : AssignmentConfig := {}
  held : SortedMap String HeldLease := .empty
  /-- The leases of the last scan. -/
  allLeases : List Lease := []
  observed : SortedMap String Observation := .empty
  /-- The workers that were considered alive last. -/
  live : SortedSet String := .empty
  /-- Whether the worker led when it last asked. -/
  leading : Bool := false
  engine : AssignmentEngine
  /-- Whether a pass of the engine is under way. -/
  engineBusy : Bool := false
  stopping : Bool := false
  started : Bool := false
  /-- How many background loops have not ended yet. -/
  running : Nat := 0

namespace Coordinator

/-- A coordinator that holds nothing and has seen nothing. -/
def ofSettings (workerId : String) (settings : LeaseSettings) (assignment : AssignmentConfig) :
    Coordinator :=
  { workerId, settings, assignment, engine := { config := assignment } }

def retry (state : Coordinator) : RetryPolicy := state.settings.retryPolicy

/-! ## Scans -/

/-- What is known of a lease after it has been seen with the given counter. -/
def observation (observed : SortedMap String Observation) (lease : Lease) (now : Nat) :
    Observation :=
  match observed.get? lease.leaseKey with
  | some earlier =>
    if earlier.counter = lease.counter then earlier else { counter := lease.counter, since := now }
  | none => { counter := lease.counter, since := now }

/-- Takes in a scan of the table: the observations are those of its leases, and the clock of a
lease whose counter has moved starts again. -/
def observe (state : Coordinator) (leases : List Lease) (now : Nat) : Coordinator :=
  { state with
    observed := .ofList (leases.map fun lease =>
      (lease.leaseKey, observation state.observed lease now))
    allLeases := leases }

/-- Whether the counter of a lease has not moved for the failover time. -/
def isExpired (state : Coordinator) (lease : Lease) (now : Nat) : Bool :=
  match state.observed.get? lease.leaseKey with
  | some observation => state.settings.failoverTime ≤ now - observation.since
  | none => false

/-- The workers that are considered alive: this one, the owners of leases that are not expired,
and those that have published a fresh summary. -/
def livingWorkers (state : Coordinator) (leases : List Lease) (now : Nat)
    (summaries : List WorkerSummary) (epoch : Nat) : SortedSet String :=
  let owners := (leases.filter fun lease => !state.isExpired lease now).filterMap Lease.owner
  let reporters := (summaries.filter fun summary =>
    !summary.isStale epoch state.assignment.staleThreshold).map WorkerSummary.workerId
  SortedSet.ofList (state.workerId :: (owners ++ reporters))

/-! ## Held leases -/

def holds (state : Coordinator) (leaseKey : String) (token : Token) : Bool :=
  (state.held.get? leaseKey).any (·.token = token)

def hold (state : Coordinator) (lease : Lease) (token : Token) (now : Nat) : Coordinator :=
  { state with
    held := state.held.insert lease.leaseKey { lease, token, lastRenewal := now } }

/-- Notes that a write of a lease was applied, if the lease is still held under the token. -/
def confirm (state : Coordinator) (leaseKey : String) (token : Token) (stored : Lease)
    (now : Nat) : Coordinator :=
  if state.holds leaseKey token then
    { state with
      held := state.held.insert leaseKey { lease := stored, token, lastRenewal := now } }
  else state

/-- Stops holding a lease, if it is still held under the token. -/
def drop (state : Coordinator) (leaseKey : String) (token : Token) : Coordinator :=
  if state.holds leaseKey token then { state with held := state.held.erase leaseKey } else state

/-- Holds nothing any more. -/
def dropAll (state : Coordinator) : Coordinator := { state with held := .empty }

end Coordinator

end LeaseFleet
