import LeaseFleet.Decimal.Text
import LeaseFleet.Json.Fields

/-!
# Assignment settings

The settings of utilization-aware assignment, which of them are refused, and which passes are
forced.
-/

namespace LeaseFleet

/-- The settings of lease assignment. Durations are in milliseconds. -/
structure AssignmentConfig where
  /-- The most throughput that a worker may be assigned; zero means no cap. -/
  maxThroughputPerHost : Float := 0.0
  /-- The share, in percent, of the ideal shift that one pass applies. -/
  dampening : Nat := 60
  /-- The least utilization gap that makes a pass move anything. -/
  rebalanceThreshold : Float := 10.0
  /-- Whether a move may lift the target above the fleet mean when it narrows the gap. -/
  allowOvershoot : Bool := true
  /-- Every pass whose number this divides ignores the threshold; zero forces none. -/
  varianceFrequency : Nat := 3
  emaAlpha : Float := 0.5
  /-- How many raw values of each metric are kept. -/
  history : Nat := 10
  /-- Balance the numbers of leases only. -/
  disableMetrics : Bool := false
  staleThreshold : Nat := 60000
  captureInterval : Nat := 1000
  reportInterval : Nat := 30000
  rebalanceInterval : Nat := 30000
  deriving DecidableEq

namespace AssignmentConfig

def isForcedPass (config : AssignmentConfig) (pass : Nat) : Bool :=
  0 < config.varianceFrequency && pass % config.varianceFrequency = 0

/-- The first setting that is out of range, in words; `none` when all are in range. -/
def problem? (config : AssignmentConfig) : Option String :=
  if !(0.0 ≤ config.maxThroughputPerHost) then
    some "max_throughput_per_host_kbps must not be negative"
  else if 100 < config.dampening then
    some ("dampening_percentage must be within 0..=100, got " ++ toString config.dampening)
  else if !(0.0 ≤ config.rebalanceThreshold && config.rebalanceThreshold ≤ 100.0) then
    some ("rebalance_threshold_percentage must be within 0..=100, got " ++
      Decimal.plain.text config.rebalanceThreshold)
  else if !(0.0 < config.emaAlpha && config.emaAlpha ≤ 1.0) then
    some ("worker_metrics_ema_alpha must be within (0, 1], got " ++
      Decimal.plain.text config.emaAlpha)
  else if config.history = 0 then
    some "no_of_persisted_metrics_per_worker_metrics must be positive"
  else if config.captureInterval = 0 || config.reportInterval = 0 ||
      config.rebalanceInterval = 0 then
    some "metric and rebalance intervals must be positive"
  else if config.reportInterval < config.captureInterval then
    some "capture frequency must not exceed the reporter frequency"
  else none

/-- One more than the largest 32-bit number. -/
def halfWordLimit : Nat := 0x100000000

/-- Reads the record form; every setting may be missing. -/
def ofJson? (json : Json) : Option AssignmentConfig := do
  let fields ← json.asObject?
  let standard : AssignmentConfig := {}
  let maxThroughputPerHost ← Json.defaulted fields "max_throughput_per_host_kbps"
    standard.maxThroughputPerHost Json.asFloat?
  let dampening ← Json.defaulted fields "dampening_percentage" standard.dampening
    (Json.asBelow? halfWordLimit)
  let rebalanceThreshold ← Json.defaulted fields "rebalance_threshold_percentage"
    standard.rebalanceThreshold Json.asFloat?
  let allowOvershoot ← Json.defaulted fields "allow_throughput_overshoot"
    standard.allowOvershoot Json.asBool?
  let varianceFrequency ← Json.defaulted fields "variance_balancing_frequency"
    standard.varianceFrequency (Json.asBelow? halfWordLimit)
  let emaAlpha ← Json.defaulted fields "worker_metrics_ema_alpha" standard.emaAlpha Json.asFloat?
  let history ← Json.defaulted fields "no_of_persisted_metrics_per_worker_metrics"
    standard.history Json.asWord?
  let disableMetrics ← Json.defaulted fields "disable_worker_metrics" standard.disableMetrics
    Json.asBool?
  let staleThreshold ← Json.defaulted fields "stale_worker_metrics_threshold_millis"
    standard.staleThreshold Json.asWord?
  let captureInterval ← Json.defaulted fields
    "in_memory_worker_metrics_capture_frequency_millis" standard.captureInterval Json.asWord?
  let reportInterval ← Json.defaulted fields "worker_metrics_reporter_freq_millis"
    standard.reportInterval Json.asWord?
  let rebalanceInterval ← Json.defaulted fields "rebalance_interval_millis"
    standard.rebalanceInterval Json.asWord?
  some
    { maxThroughputPerHost, dampening, rebalanceThreshold, allowOvershoot, varianceFrequency
      emaAlpha, history, disableMetrics, staleThreshold, captureInterval, reportInterval
      rebalanceInterval }

end AssignmentConfig

end LeaseFleet
