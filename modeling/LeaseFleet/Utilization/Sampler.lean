import LeaseFleet.Assignment.Config
import LeaseFleet.Script.Basic

/-!
# Sampling and reporting

A worker captures the raw values of its metrics into bounded buffers. A report takes the mean of
each buffer into the moving average and the history of its metric, and publishes the summary. A
worker without any metric reports only that it is there.
-/

namespace LeaseFleet

/-- Where the raw values of a metric come from. -/
structure MetricSource where
  metric : MetricType
  /-- The value that the next capture reads, if there is one. -/
  value : Option Float
  range : OperatingRange := {}

namespace MetricSource

def capture (source : MetricSource) : Except String Float :=
  match source.value with
  | some value => .ok value
  | none => .error ("no value set for " ++ source.metric.name)

end MetricSource

/-- The metrics that a worker watches unless told otherwise. -/
def standardSources : List MetricSource :=
  [{ metric := .cpu, value := none }, { metric := .memory, value := none }]

/-- The most raw values of one metric that wait for a report. -/
def bufferLimit : Nat := 1000

/-- A worker's own metrics. -/
structure Sampler where
  workerId : String
  config : AssignmentConfig := {}
  sources : List MetricSource := []
  /-- The raw values captured since the last report, oldest first. -/
  samples : SortedMap MetricType (List Float) := .empty
  summary : WorkerSummary

namespace Sampler

/-- A sampler that has captured nothing yet. -/
def ofSources (workerId : String) (config : AssignmentConfig) (sources : List MetricSource) :
    Sampler :=
  { workerId, config, sources, summary := { workerId } }

/-- Adds the value that a source has now, if any, to the buffer of its metric. -/
def buffer (samples : SortedMap MetricType (List Float)) (source : MetricSource) :
    SortedMap MetricType (List Float) :=
  match source.capture with
  | .ok value =>
    samples.insert source.metric
      (keepLast bufferLimit ((samples.get? source.metric).getD []) value)
  | .error _ => samples

/-- Captures one raw value of every metric. -/
def capture (sampler : Sampler) : Sampler :=
  { sampler with samples := sampler.sources.foldl buffer sampler.samples }

def setSource (sampler : Sampler) (index : Nat) (value : Option Float) : Sampler :=
  { sampler with sources := sampler.sources.modify index fun source => { source with value } }

/-- Whether a report would have nothing to say. -/
def isIdle (sampler : Sampler) : Bool := !sampler.sources.isEmpty && sampler.samples.isEmpty

/-- The mean of values, summed in their order. -/
def mean (values : List Float) : Float := values.foldl (· + ·) (-0.0) / floatOfNat values.length

/-- The operating range of the first source of a metric. -/
def rangeOf (sampler : Sampler) (metric : MetricType) : OperatingRange :=
  ((sampler.sources.find? (·.metric = metric)).map MetricSource.range).getD {}

/-- The new state of a metric whose buffer holds the given values. -/
def foldStats (sampler : Sampler) (metric : MetricType) (values : List Float) : MetricStats :=
  let stats := (sampler.summary.metrics.get? metric).getD {}
  ({ stats with range := sampler.rangeOf metric }.record (mean values) sampler.config.emaAlpha
    sampler.config.history).2

/-- The summary after every buffer has been folded in. -/
def foldSamples (sampler : Sampler) (now : Nat) : WorkerSummary :=
  { sampler.summary with
    metrics := sampler.samples.entries.foldl
      (fun metrics entry => metrics.insert entry.1 (sampler.foldStats entry.1 entry.2))
      sampler.summary.metrics
    lastUpdate := now }

/-- Empties the buffers into the summary; an idle sampler stays as it is. -/
def fold (sampler : Sampler) (now : Nat) : Sampler :=
  if sampler.isIdle then sampler
  else { sampler with samples := .empty, summary := sampler.foldSamples now }

/-- The smoothed values that a report announces. -/
def announcements (sampler : Sampler) : List Measurement :=
  sampler.samples.entries.filterMap fun entry =>
    (sampler.foldStats entry.1 entry.2).smoothed.map (.level (.utilization (some entry.1)))

end Sampler

namespace Script

variable {σ Job : Type}

/-- Takes down several measurements. -/
def recordAll : List Measurement → Script σ Job Unit
  | [] => done ()
  | measurement :: rest => do
    record measurement
    recordAll rest

end Script

namespace Sampler

variable {Job : Type}

/-- Folds the buffers into the summary and publishes it; `none` when there was nothing to
report. -/
def report : Script Sampler Job (Except StoreError (Option WorkerSummary)) := do
  let now ← Script.query .epoch
  let found ← .step (fun _ => true) (Sampler.fold · now) .done
  if found.isIdle then return .ok none
  Script.recordAll found.announcements
  let summary := (found.fold now).summary
  match ← Script.query (.publish summary) with
  | .ok () => return .ok (some summary)
  | .error error => return .error error

end Sampler

end LeaseFleet
