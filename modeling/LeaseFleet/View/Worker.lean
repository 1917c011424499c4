import LeaseFleet.View.Lease
import LeaseFleet.Worker.Duty

/-!
# Views of workers
-/

namespace LeaseFleet

def WorkerError.kind : WorkerError → String
  | store _ => "Store"
  | initialization _ _ => "Initialization"
  | configuration _ => "Configuration"
  | shardDiscovery _ _ => "ShardDiscovery"
  | taskRejected _ _ => "TaskRejected"
  | shuttingDown => "ShuttingDown"
  | invalidState _ _ => "InvalidState"

def WorkerError.view (error : WorkerError) : Json :=
  .failure error.kind error.message error.isRetryable

def StoreError.viewResult {α : Type} : (α → Json) → Except StoreError α → Json :=
  Json.ofExcept view

def WorkerError.viewResult {α : Type} : (α → Json) → Except WorkerError α → Json :=
  Json.ofExcept view

def SyncReport.view (report : SyncReport) : Json :=
  .object [("created", .natural report.created), ("deleted", .natural report.deleted)]

def Outcome.view : Outcome → Json
  | nothing => .null
  | completed => .string "ok"
  | number value => .natural value
  | truth value => .bool value
  | failed error => error.view
  | lease found => StoreError.viewResult (Json.orNull Lease.view) found

def DiagnosticEvent.view : DiagnosticEvent → Json
  | rejected rejection => .ofTexts ["rejected", rejection.executor, rejection.reason]
  | executorState active pending =>
    .array [.string "executor_state", .natural active, .natural pending]

/-- A consumer, its token shown by the given name. -/
def Consumer.view (consumer : Consumer) (token : String) : Json :=
  .array
    [.string consumer.leaseKey, .string token,
     .ofText? (consumer.reason.map ShutdownReason.name), .natural consumer.requests,
     .bool consumer.stopped]

/-- An assigned shard, its token shown by the given name. -/
def AssignedShard.view (shard : AssignedShard) (token : String) : Json :=
  .array
    [.string shard.leaseKey, .string token, shard.checkpoint.toJson, .string shard.shardId,
     .ofText? shard.stream, .ofTexts shard.parentLeaseKeys]

end LeaseFleet
