import LeaseFleet.Json.Fields
import LeaseFleet.Script.Retry

/-!
# Worker settings

The settings of lease keeping and of the scheduler, which of them are refused, and the intervals
that follow from them. Durations are in milliseconds.
-/

namespace LeaseFleet

/-- How store calls are repeated. -/
structure RetrySettings where
  maxAttempts : Nat := 3
  baseBackoff : Nat := 100
  maxBackoff : Nat := 1000
  deriving DecidableEq, Repr

/-- The settings of lease keeping. -/
structure LeaseSettings where
  /-- A lease whose counter does not move for this long is expired. -/
  failoverTime : Nat := 10000
  /-- A safety margin. -/
  epsilon : Nat := 25
  /-- The most expired leases that are taken at once. -/
  maxSteals : Nat := 1
  /-- The most leases that the worker holds, if there is a limit. -/
  maxLeases : Option Nat := none
  shardSyncInterval : Nat := 60000
  retry : RetrySettings := {}
  deriving DecidableEq, Repr

namespace LeaseSettings

/-- The time between two renewals: a third of the failover time less the margin, at least one. -/
def renewalInterval (settings : LeaseSettings) : Nat :=
  max (settings.failoverTime / 3 - settings.epsilon) 1

/-- The time between two taking cycles: twice the failover time with the margin. -/
def takingInterval (settings : LeaseSettings) : Nat :=
  (settings.failoverTime + settings.epsilon) * 2

def retryPolicy (settings : LeaseSettings) : RetryPolicy :=
  .ofLimits settings.retry.maxAttempts settings.retry.baseBackoff settings.retry.maxBackoff

/-- The first setting that is out of range, in words. -/
def problem? (settings : LeaseSettings) : Option String :=
  if settings.failoverTime = 0 then some "failover_time_millis must be positive"
  else if settings.maxSteals = 0 then some "max_leases_to_steal_at_once must be at least 1"
  else if settings.maxLeases = some 0 then
    some "max_leases_for_worker must be at least 1 when set"
  else if settings.retry.maxAttempts = 0 then
    some "store_retry.max_attempts must be at least 1"
  else none

end LeaseSettings

/-- Reads the record form; every setting may be missing. -/
def RetrySettings.ofJson? (json : Json) : Option RetrySettings := do
  let fields ← json.asObject?
  let standard : RetrySettings := {}
  let maxAttempts ← Json.defaulted fields "max_attempts" standard.maxAttempts Json.asWord?
  let baseBackoff ← Json.defaulted fields "base_backoff_ms" standard.baseBackoff Json.asWord?
  let maxBackoff ← Json.defaulted fields "max_backoff_ms" standard.maxBackoff Json.asWord?
  some { maxAttempts, baseBackoff, maxBackoff }

/-- Reads the record form; every setting may be missing. -/
def LeaseSettings.ofJson? (json : Json) : Option LeaseSettings := do
  let fields ← json.asObject?
  let standard : LeaseSettings := {}
  let failoverTime ← Json.defaulted fields "failover_time_millis" standard.failoverTime
    Json.asWord?
  let epsilon ← Json.defaulted fields "epsilon_millis" standard.epsilon Json.asWord?
  let maxSteals ← Json.defaulted fields "max_leases_to_steal_at_once" standard.maxSteals
    Json.asWord?
  let maxLeases ← Json.optional fields "max_leases_for_worker" Json.asWord?
  let shardSyncInterval ← Json.defaulted fields "shard_sync_interval_millis"
    standard.shardSyncInterval Json.asWord?
  let retry ← Json.defaulted fields "store_retry" standard.retry RetrySettings.ofJson?
  some { failoverTime, epsilon, maxSteals, maxLeases, shardSyncInterval, retry }

/-- The settings of the scheduler. -/
structure SchedulerSettings where
  maxInitializationAttempts : Nat := 20
  initializationBackoff : Nat := 1000
  /-- Whether the first shard sync is left out when the table already has leases. -/
  skipSyncIfLeasesExist : Bool := false
  /-- The bounds of the random wait while the lease table is empty. -/
  minTableWait : Nat := 1000
  maxTableWait : Nat := 30000
  /-- How often the table is looked at during that wait. -/
  tableCheckInterval : Nat := 3000
  /-- The time between two rounds of the process loop. -/
  pollInterval : Nat := 1000
  streamSyncInterval : Nat := 60000
  deriving DecidableEq, Repr

namespace SchedulerSettings

/-- The first setting that is out of range, in words. -/
def problem? (settings : SchedulerSettings) : Option String :=
  if settings.maxInitializationAttempts = 0 then
    some "max_initialization_attempts must be at least 1"
  else if settings.maxTableWait < settings.minTableWait then
    some ("min_lease_table_wait_millis (" ++ toString settings.minTableWait ++
      ") exceeds max_lease_table_wait_millis (" ++ toString settings.maxTableWait ++ ")")
  else if settings.tableCheckInterval = 0 then
    some "lease_table_check_frequency_millis must be positive"
  else none

/-- Reads the record form; every setting may be missing. -/
def ofJson? (json : Json) : Option SchedulerSettings := do
  let fields ← json.asObject?
  let standard : SchedulerSettings := {}
  let maxInitializationAttempts ← Json.defaulted fields "max_initialization_attempts"
    standard.maxInitializationAttempts Json.asWord?
  let initializationBackoff ← Json.defaulted fields "initialization_backoff_millis"
    standard.initializationBackoff Json.asWord?
  let skipSyncIfLeasesExist ← Json.defaulted fields
    "skip_shard_sync_at_worker_initialization_if_leases_exist"
    standard.skipSyncIfLeasesExist Json.asBool?
  let minTableWait ← Json.defaulted fields "min_lease_table_wait_millis"
    standard.minTableWait Json.asWord?
  let maxTableWait ← Json.defaulted fields "max_lease_table_wait_millis"
    standard.maxTableWait Json.asWord?
  let tableCheckInterval ← Json.defaulted fields "lease_table_check_frequency_millis"
    standard.tableCheckInterval Json.asWord?
  let pollInterval ← Json.defaulted fields "shard_consumer_dispatch_poll_interval_millis"
    standard.pollInterval Json.asWord?
  let streamSyncInterval ← Json.defaulted fields "stream_sync_interval_millis"
    standard.streamSyncInterval Json.asWord?
  some
    { maxInitializationAttempts, initializationBackoff, skipSyncIfLeasesExist, minTableWait
      maxTableWait, tableCheckInterval, pollInterval, streamSyncInterval }

end SchedulerSettings

end LeaseFleet
