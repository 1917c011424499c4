import LeaseFleet.SortedMap
import LeaseFleet.Store.Error
import LeaseFleet.Utilization.Stats

/-!
# Worker summaries

What a worker publishes about its own load, when such a summary is too old to count, and the
board on which the summaries of all workers stand.
-/

namespace LeaseFleet

/-- The load of one worker, as it last published it. -/
structure WorkerSummary where
  workerId : String
  metrics : SortedMap MetricType MetricStats := .empty
  /-- Milliseconds since the epoch. -/
  lastUpdate : Nat := 0
  deriving DecidableEq

/-- The greater of two numbers; a NaN loses against a number. -/
def largerOf (left right : Float) : Float :=
  if left.isNaN then right else if left < right then right else left

namespace WorkerSummary

/-- The utilization of the most pressed resource, each read against its operating range. -/
def utilization (summary : WorkerSummary) : Option Float :=
  (summary.metrics.values.filterMap fun stats => stats.smoothed.map stats.range.normalize).foldl
    (fun most value => some (most.elim value (largerOf · value))) none

/-- Whether the summary is older than the window. -/
def isStale (summary : WorkerSummary) (now window : Nat) : Bool := window < now - summary.lastUpdate

def ofJson? (json : Json) : Option WorkerSummary := do
  let fields ← json.asObject?
  let workerId ← Json.required fields "worker_id" Json.asText?
  let metrics ← Json.required fields "metrics" fun value => do
    let entries ← value.asObject?
    entries.mapM fun (name, stats) => do
      some ((← MetricType.ofName? name), (← MetricStats.ofJson? stats))
  let lastUpdate ← Json.required fields "last_update_ms" Json.asWord?
  some { workerId, metrics := .ofList metrics, lastUpdate }

end WorkerSummary

/-- The published summaries by worker. -/
abbrev SummaryBoard := SortedMap String WorkerSummary

namespace SummaryBoard

/-- Publishes a summary in place of the worker's previous one. -/
def publish (board : SummaryBoard) (summary : WorkerSummary) : SummaryBoard :=
  board.insert summary.workerId summary

/-- The summaries, by worker. -/
def summaries (board : SummaryBoard) : List WorkerSummary := board.values

end SummaryBoard

end LeaseFleet
