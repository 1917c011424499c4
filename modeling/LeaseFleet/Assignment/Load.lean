import LeaseFleet.Assignment.Config
import LeaseFleet.Assignment.Scalar
import LeaseFleet.Lease.Basic
import LeaseFleet.Utilization.Summary

/-!
# Worker loads

How much each worker carries, as a rebalancing pass sees it. The workers are the live ones and
the owners of leases, and every owned lease counts for exactly one of them.
-/

namespace LeaseFleet

/-- The load of one worker. -/
structure WorkerLoad (S : Type) where
  workerId : String
  /-- The keys of the leases that the worker owns, in order. -/
  leaseKeys : List String
  /-- The throughput of those leases; a lease without one counts nothing. -/
  throughput : Float
  /-- In percent. -/
  utilization : S
  /-- Whether the worker may receive leases. -/
  eligible : Bool
  deriving DecidableEq

namespace WorkerLoad

variable {S : Type}

def leaseCount (load : WorkerLoad S) : Nat := load.leaseKeys.length

end WorkerLoad

/-- What a rebalancing pass looks at. -/
structure Observed where
  leases : List Lease
  summaries : List WorkerSummary
  /-- The workers that are considered alive. -/
  live : List String
  /-- Milliseconds since the epoch. -/
  now : Nat

namespace Observed

/-- The workers of a pass, by id: the live ones and the owners. -/
def workers (seen : Observed) : List String :=
  (SortedSet.ofList (seen.live ++ seen.leases.filterMap Lease.owner)).toList

/-- The leases that have an owner, in key order. -/
def ownedLeases (seen : Observed) : List Lease :=
  (seen.leases.filter fun lease => !lease.isUnowned).mergeSort
    fun left right => (compare left.leaseKey right.leaseKey).isLE

/-- The leases of one worker, in key order. -/
def leasesOf (seen : Observed) (worker : String) : List Lease :=
  seen.ownedLeases.filter (·.isOwnedBy worker)

/-- The number of leases that every worker would own if all owned the same number, rounded up and
at least one. -/
def fairShare (seen : Observed) : Nat :=
  let workers := max seen.workers.length 1
  max ((seen.ownedLeases.length + workers - 1) / workers) 1

/-- The load of a worker by its number of leases, as a percentage of the fair share. Throughput
and summaries are not read. -/
def countLoad (S : Type) [Scalar S] (seen : Observed) (worker : String) : WorkerLoad S :=
  let keys := (seen.leasesOf worker).map Lease.leaseKey
  { workerId := worker
    leaseKeys := keys
    throughput := 0.0
    utilization :=
      Scalar.ofNat keys.length / Scalar.ofNat seen.fairShare * Scalar.ofNat (S := S) 100
    eligible := true }

/-- The loads of all workers in count mode, by worker. -/
def countLoads (S : Type) [Scalar S] (seen : Observed) : List (WorkerLoad S) :=
  seen.workers.map (seen.countLoad S)

/-- The utilization that a worker has published, unless it is too old. -/
def freshUtilization (seen : Observed) (window : Nat) (worker : String) : Option Float :=
  ((seen.summaries.find? (·.workerId = worker)).filter
    fun summary => !summary.isStale seen.now window).bind WorkerSummary.utilization

/-- The load of a worker by its published utilization. A worker without a fresh one is presumed
saturated: it may shed leases and receives none. -/
def metricLoad (config : AssignmentConfig) (seen : Observed) (worker : String) :
    WorkerLoad Float :=
  let leases := seen.leasesOf worker
  let fresh := seen.freshUtilization config.staleThreshold worker
  { workerId := worker
    leaseKeys := leases.map Lease.leaseKey
    throughput := leases.foldl (fun sum lease => sum + lease.throughputKbps.getD 0.0) 0.0
    utilization := fresh.getD fullUtilization
    eligible := fresh.isSome }

/-- The loads of all workers in metrics mode, by worker. -/
def metricLoads (config : AssignmentConfig) (seen : Observed) : List (WorkerLoad Float) :=
  seen.workers.map (seen.metricLoad config)

/-- The loads in the mode that the settings choose. -/
def loads (config : AssignmentConfig) (seen : Observed) : List (WorkerLoad Float) :=
  if config.disableMetrics then seen.countLoads Float else seen.metricLoads config

end Observed

end LeaseFleet
