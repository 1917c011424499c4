import LeaseFleet.Assignment.Load
import LeaseFleet.Assignment.Plan
import LeaseFleet.Sketch.Lease
import LeaseFleet.Utilization.Sampler

/-!
# Sketches of load

Summaries, the sources of metrics, the settings of assignment, and what a pass looks at.
-/

namespace LeaseFleet

def OperatingRange.ofSketch? (sketch : Json) : Option OperatingRange := do
  return {
    maxUtilization := ← sketch.orElse "max_utilization" fullUtilization Json.asAnyFloat? }

def MetricStats.ofNamedSketch? (named : String × Json) : Option (MetricType × MetricStats) := do
  let metric ← MetricType.ofName? named.1
  let smoothed ← named.2.maybe "smoothed" Json.asAnyFloat?
  let recent ← named.2.list "recent" Json.asAnyFloat?
  return (metric, { smoothed, recent, range := ← OperatingRange.ofSketch? named.2 })

def WorkerSummary.ofSketch? (sketch : Json) : Option WorkerSummary := do
  let metrics ← sketch.orElse "metrics" [] Json.asObject?
  return {
    workerId := ← sketch.text "worker_id"
    metrics := .ofList (← metrics.mapM MetricStats.ofNamedSketch?)
    lastUpdate := ← sketch.nat "last_update_ms" }

def MetricSource.ofSketch? (sketch : Json) : Option MetricSource := do
  return {
    metric := ← MetricType.ofName? (← sketch.text "type")
    value := ← sketch.maybe "value" Json.asAnyFloat?
    range := ← OperatingRange.ofSketch? sketch }

/-- The settings of assignment that may be any double. -/
def AssignmentConfig.doubles : List String :=
  ["max_throughput_per_host_kbps", "rebalance_threshold_percentage", "worker_metrics_ema_alpha"]

/-- A setting; where it may be any double, a word for one stands for it. -/
def AssignmentConfig.settingOfSketch (entry : String × Json) : String × Json :=
  match entry.2 with
  | .string _ =>
    if doubles.contains entry.1 then (entry.1, (entry.2.asAnyFloat?.map Json.real).getD entry.2)
    else entry
  | _ => entry

/-- The settings of assignment; null stands for the default ones. -/
def AssignmentConfig.ofSketch? : Json → Option AssignmentConfig
  | .null => some {}
  | .object fields => ofJson? (.object (fields.map settingOfSketch))
  | sketch => ofJson? sketch

/-- What a pass looks at, besides the leases. -/
def Observed.ofSketch? (leases : List Lease) (sketch : Json) : Option Observed := do
  return {
    leases
    summaries := ← sketch.list "summaries" WorkerSummary.ofSketch?
    live := ← sketch.list "live" Json.asText?
    now := ← sketch.nat "now_ms" }

def LeaseMove.ofSketch? (sketch : Json) : Option LeaseMove := do
  return {
    lease := ← Lease.ofSketch? (sketch.field "lease")
    source := ← sketch.text "from"
    target := ← sketch.text "to" }

end LeaseFleet
