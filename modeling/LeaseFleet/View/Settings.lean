import LeaseFleet.Configuration.Setup
import LeaseFleet.View.Lease
import LeaseFleet.View.Utilization

/-!
# Views of settings

The settings of a worker together with the intervals that follow from them.
-/

namespace LeaseFleet

def RetrySettings.view (settings : RetrySettings) : Json :=
  .object
    [("max_attempts", .natural settings.maxAttempts),
     ("base_backoff_ms", .natural settings.baseBackoff),
     ("max_backoff_ms", .natural settings.maxBackoff)]

def LeaseSettings.view (settings : LeaseSettings) : Json :=
  .object
    [("config", .object
      [("failover_time_millis", .natural settings.failoverTime),
       ("epsilon_millis", .natural settings.epsilon),
       ("max_leases_to_steal_at_once", .natural settings.maxSteals),
       ("max_leases_for_worker", .ofNat? settings.maxLeases),
       ("shard_sync_interval_millis", .natural settings.shardSyncInterval),
       ("store_retry", settings.retry.view)]),
     ("failover", .natural settings.failoverTime),
     ("renewal", .natural settings.renewalInterval),
     ("taking", .natural settings.takingInterval),
     ("shard_sync", .natural settings.shardSyncInterval),
     ("max_attempts", .natural settings.retryPolicy.maxAttempts)]

def SchedulerSettings.view (settings : SchedulerSettings) : Json :=
  .object
    [("config", .object
      [("max_initialization_attempts", .natural settings.maxInitializationAttempts),
       ("initialization_backoff_millis", .natural settings.initializationBackoff),
       ("skip_shard_sync_at_worker_initialization_if_leases_exist",
         .bool settings.skipSyncIfLeasesExist),
       ("min_lease_table_wait_millis", .natural settings.minTableWait),
       ("max_lease_table_wait_millis", .natural settings.maxTableWait),
       ("lease_table_check_frequency_millis", .natural settings.tableCheckInterval),
       ("shard_consumer_dispatch_poll_interval_millis", .natural settings.pollInterval),
       ("stream_sync_interval_millis", .natural settings.streamSyncInterval)]),
     ("backoff", .natural settings.initializationBackoff),
     ("check", .natural settings.tableCheckInterval),
     ("poll", .natural settings.pollInterval),
     ("stream_sync", .natural settings.streamSyncInterval)]

namespace Setup

def streamFacts (setup : Setup) : List (String × Json) :=
  [("streams", .ofList StreamConfig.view setup.streams),
   ("strategy", setup.deletion.view),
   ("orphan", setup.orphanPosition.toJson),
   ("multi", .bool setup.multi)]

/-- The settings of a worker; `randomId` stands for an id that is still to be drawn. -/
def view (randomId : String) (setup : Setup) : Json :=
  .object
    [("application_name", .string setup.application),
     ("worker_id", .string (setup.workerId.getD randomId)),
     ("region", .string setup.region),
     ("account_id", .string setup.account),
     ("lease_table_name", .string setup.leaseTable),
     ("worker_metrics_table_name", .string setup.summaryTable),
     ("lease_management", setup.lease.view),
     ("scheduler", setup.scheduler.view),
     ("assignment", setup.assignment.view),
     ("multi_stream", .bool setup.multi),
     ("streams", .ofList StreamConfig.view setup.streams),
     ("shard_counts", .object
       (setup.shardCounts.entries.map fun e => (e.1.serialize, .natural e.2))),
     ("orphaned_stream_initial_position", setup.orphanPosition.toJson),
     ("deletion_strategy", setup.deletion.view),
     ("prom_exporter", .ofText? (setup.exporter.map SocketAddress.text))]

/-- A refused configuration in words, or what is to be shown of an accepted one. -/
def viewChecked (shown : Setup → Json) : Except SetupError Setup → Json :=
  Json.ofExcept (fun error => .invalid error.message) shown

end Setup

end LeaseFleet
