import LeaseFleet.SortedMap
import LeaseFleet.Utilization.Stats

/-!
# Telemetry

The counters, gauges and histograms that a worker process keeps about itself, their published
names and descriptions, and the record of what has been measured.
-/

namespace LeaseFleet

/-- Numbers that only grow. -/
inductive Counter where
  | leasesTaken
  | leasesLost
  | renewalFailures
  | leasesCreated
  | leasesDeleted
  | rejectedTasks
  | movesApplied
  | moveConflicts
  deriving DecidableEq, Repr

/-- Numbers of which the last one counts. -/
inductive Gauge where
  | leasesHeld
  | activeConsumers
  | leaderState
  | trackedStreams
  /-- Smoothed utilization; with a resource, the one of that resource. -/
  | utilization (resource : Option MetricType)
  | utilizationGap
  deriving DecidableEq, Repr

/-- Durations of which the number of samples counts. -/
inductive Histogram where
  | streamSync
  | rebalancePass
  deriving DecidableEq, Repr

def Counter.name : Counter → String
  | leasesTaken => "shardlease_leases_taken_total"
  | leasesLost => "shardlease_leases_lost_total"
  | renewalFailures => "shardlease_lease_renewal_failures_total"
  | leasesCreated => "shardlease_leases_created_total"
  | leasesDeleted => "shardlease_leases_deleted_total"
  | rejectedTasks => "shardlease_rejected_tasks_total"
  | movesApplied => "shardlease_rebalance_moves_total"
  | moveConflicts => "shardlease_rebalance_move_conflicts_total"

def Counter.description : Counter → String
  | leasesTaken => "Total number of leases acquired by this worker"
  | leasesLost => "Total number of held leases lost to another worker"
  | renewalFailures => "Total number of renewals that failed after exhausting retries"
  | leasesCreated => "Total number of leases created by shard discovery"
  | leasesDeleted => "Total number of leases deleted for finished shards or untracked streams"
  | rejectedTasks => "Total number of tasks rejected by the execution layer"
  | movesApplied => "Total number of lease ownership moves applied by the assignment engine"
  | moveConflicts => "Total number of proposed moves that lost a conditional-write race"

/-- The published name of a gauge, its resource in braces. -/
def Gauge.name : Gauge → String
  | leasesHeld => "shardlease_leases_held"
  | activeConsumers => "shardlease_active_shard_consumers"
  | leaderState => "shardlease_leader_state"
  | trackedStreams => "shardlease_tracked_streams"
  | utilization none => "shardlease_worker_utilization"
  | utilization (some resource) =>
    "shardlease_worker_utilization\x7bmetric=" ++ resource.name ++ "\x7d"
  | utilizationGap => "shardlease_utilization_gap"

def Gauge.description : Gauge → String
  | leasesHeld => "Number of leases currently held by this worker"
  | activeConsumers => "Number of shard consumers owned by the scheduler"
  | leaderState => "Leader state of this worker (0=follower,1=leader)"
  | trackedStreams => "Number of streams currently tracked"
  | utilization _ => "Smoothed utilization of this worker per metric type (percent)"
  | utilizationGap =>
    "Utilization gap between the most and least loaded workers at the last pass"

def Histogram.name : Histogram → String
  | streamSync => "shardlease_stream_sync_duration_seconds"
  | rebalancePass => "shardlease_rebalance_pass_duration_seconds"

def Histogram.description : Histogram → String
  | streamSync => "Duration of a multi-stream synchronization pass"
  | rebalancePass => "Duration of a rebalancing pass including move execution"

def Counter.all : List Counter :=
  [.leasesTaken, .leasesLost, .renewalFailures, .leasesCreated, .leasesDeleted, .rejectedTasks,
    .movesApplied, .moveConflicts]

/-- All gauges that are announced when a worker starts. -/
def Gauge.all : List Gauge :=
  [.leasesHeld, .activeConsumers, .leaderState, .trackedStreams, .utilization none,
    .utilizationGap]

def Histogram.all : List Histogram := [.streamSync, .rebalancePass]

/-- One measurement. -/
inductive Measurement where
  | count (counter : Counter) (amount : Nat)
  | level (gauge : Gauge) (value : Float)
  | sample (histogram : Histogram)
  deriving DecidableEq

/-- What has been measured so far, by published name. -/
structure Telemetry where
  counters : SortedMap String Nat := .empty
  gauges : SortedMap String Float := .empty
  histograms : SortedMap String Nat := .empty
  deriving DecidableEq

namespace Telemetry

/-- Adds to the number stored under a name. -/
def addTo (numbers : SortedMap String Nat) (name : String) (amount : Nat) : SortedMap String Nat :=
  numbers.insert name ((numbers.get? name).getD 0 + amount)

def record (telemetry : Telemetry) : Measurement → Telemetry
  | .count counter amount =>
    { telemetry with counters := addTo telemetry.counters counter.name amount }
  | .level gauge value =>
    { telemetry with gauges := telemetry.gauges.insert gauge.name value }
  | .sample histogram =>
    { telemetry with histograms := addTo telemetry.histograms histogram.name 1 }

def recordAll (telemetry : Telemetry) (list : List Measurement) : Telemetry :=
  list.foldl record telemetry

end Telemetry

end LeaseFleet
