import LeaseFleet.Assignment.Engine
import LeaseFleet.Json.View

/-!
# Views of load and of assignment
-/

namespace LeaseFleet

def MetricStats.view (stats : MetricStats) : Json :=
  .object
    [("smoothed", .orNull .ofBits stats.smoothed), ("recent", .ofList .ofBits stats.recent),
     ("max_utilization", .ofBits stats.range.maxUtilization)]

/-- A summary; `time` shows when it was published. -/
def WorkerSummary.viewWith (time : Nat → Json) (summary : WorkerSummary) : Json :=
  .object
    [("worker_id", .string summary.workerId),
     ("metrics", .object (summary.metrics.entries.map fun e => (e.1.name, e.2.view))),
     ("last_update_ms", time summary.lastUpdate),
     ("utilization", .orNull .ofBits summary.utilization)]

def WorkerSummary.view : WorkerSummary → Json := viewWith .natural

/-- A summary of which only is shown whether it has been published. -/
def WorkerSummary.stampedView : WorkerSummary → Json := viewWith fun time => .bool (0 < time)

/-- Everything that was measured; a counter that was not raised is left out. -/
def Telemetry.view (telemetry : Telemetry) : Json :=
  .object
    ((telemetry.counters.entries.filter (0 < ·.2)).map (fun e => (e.1, .natural e.2)) ++
      telemetry.gauges.entries.map (fun e => (e.1, .ofBits e.2)) ++
      telemetry.histograms.entries.map (fun e => (e.1, .natural e.2)))

/-- The names of everything that can be measured, by kind and in order, and what each means. -/
def Telemetry.catalogue : Json :=
  let names (list : List String) : Json := .ofTexts (SortedSet.ofList list).toList
  .object
    [("counters", names (Counter.all.map Counter.name)),
     ("gauges", names (Gauge.all.map Gauge.name)),
     ("histograms", names (Histogram.all.map Histogram.name)),
     ("described", .object
       (Counter.all.map (fun counter => (counter.name, .string counter.description)) ++
         Gauge.all.map (fun gauge => (gauge.name, .string gauge.description)) ++
         Histogram.all.map (fun histogram => (histogram.name, .string histogram.description))))]

def AssignmentConfig.view (config : AssignmentConfig) : Json :=
  .object
    [("max_throughput_per_host_kbps", .ofBits config.maxThroughputPerHost),
     ("dampening_percentage", .natural config.dampening),
     ("rebalance_threshold_percentage", .ofBits config.rebalanceThreshold),
     ("allow_throughput_overshoot", .bool config.allowOvershoot),
     ("variance_balancing_frequency", .natural config.varianceFrequency),
     ("worker_metrics_ema_alpha", .ofBits config.emaAlpha),
     ("no_of_persisted_metrics_per_worker_metrics", .natural config.history),
     ("disable_worker_metrics", .bool config.disableMetrics),
     ("stale_worker_metrics_threshold_millis", .natural config.staleThreshold),
     ("in_memory_worker_metrics_capture_frequency_millis", .natural config.captureInterval),
     ("worker_metrics_reporter_freq_millis", .natural config.reportInterval),
     ("rebalance_interval_millis", .natural config.rebalanceInterval)]

def WorkerLoad.view (load : WorkerLoad Float) : Json :=
  .array
    [.string load.workerId, .natural load.leaseCount, .ofTexts load.leaseKeys,
     .ofBits load.throughput, .ofBits load.utilization, .bool load.eligible]

def RebalancePlan.view (plan : RebalancePlan Float) : Json :=
  .object
    [("source", .ofText? plan.source), ("target", .ofText? plan.target),
     ("gap", .ofBits plan.gap), ("forced", .bool plan.forced),
     ("is_empty", .bool plan.moves.isEmpty),
     ("moves", .ofList
       (fun move => .ofTexts [move.lease.leaseKey, move.source, move.target]) plan.moves)]

def MoveRecord.view (move : MoveRecord) : Json :=
  .array
    [.string move.leaseKey, .string move.source, .string move.target,
     .orNull .ofBits move.throughputKbps, .natural move.pass]

end LeaseFleet
