import LeaseFleet.Assignment.Config
import LeaseFleet.Stream.Position
import LeaseFleet.Worker.Settings

/-!
# The configuration file

The settings of a worker as its configuration file states them, before any of them has been
checked.
-/

namespace LeaseFleet

/-- One stream to consume. -/
structure StreamEntry where
  identifier : String
  position : InitialPosition := .latest
  /-- The number of its shards, if they are not asked for. -/
  shardCount : Option Nat := none
  deriving DecidableEq, Repr

/-- What becomes of former streams; durations are in milliseconds. -/
inductive DeletionEntry where
  | keep
  | afterAbsence (wait : Nat)
  | named (streams : Option (List String)) (wait : Nat)
  deriving DecidableEq, Repr

/-- The streams of the application. -/
structure StreamsEntry where
  multi : Bool := true
  tracked : List StreamEntry
  /-- Where to start on a stream that only the lease table knows. -/
  orphanPosition : InitialPosition := .latest
  deletion : DeletionEntry := .keep
  deriving DecidableEq, Repr

/-- Where measurements are published. -/
structure ExporterEntry where
  host : String
  port : Nat
  deriving DecidableEq, Repr

/-- A configuration file. -/
structure ConfigurationFile where
  application : String
  workerId : Option String := none
  region : String
  account : String
  leaseTable : Option String := none
  summaryTable : Option String := none
  lease : LeaseSettings := {}
  scheduler : SchedulerSettings := {}
  assignment : AssignmentConfig := {}
  streams : StreamsEntry
  exporter : Option ExporterEntry := none

def StreamEntry.ofJson? (json : Json) : Option StreamEntry := do
  let fields ← json.asObject?
  let identifier ← Json.required fields "identifier" Json.asText?
  let position ← Json.defaulted fields "initial_position" .latest InitialPosition.ofJson?
  let shardCount ← Json.optional fields "shard_count" Json.asWord?
  some { identifier, position, shardCount }

/-- Reads the record form, whose field `strategy` tells the kind. -/
def DeletionEntry.ofJson? (json : Json) : Option DeletionEntry := do
  let fields ← json.asObject?
  let wait := Json.required fields "wait_period_millis" Json.asWord?
  match ← Json.required fields "strategy" Json.asText? with
  | "none" => some .keep
  | "auto_detect_deferred" => some (.afterAbsence (← wait))
  | "provided_list" =>
    let streams ← Json.optional fields "streams" (Json.asList? Json.asText?)
    some (.named streams (← wait))
  | _ => none

def StreamsEntry.ofJson? (json : Json) : Option StreamsEntry := do
  let fields ← json.asObject?
  let multi ← Json.defaulted fields "multi_stream" true Json.asBool?
  let tracked ← Json.required fields "tracked" (Json.asList? StreamEntry.ofJson?)
  let orphanPosition ← Json.defaulted fields "orphaned_stream_initial_position" .latest
    InitialPosition.ofJson?
  let deletion ← Json.defaulted fields "deletion_strategy" .keep DeletionEntry.ofJson?
  some { multi, tracked, orphanPosition, deletion }

def ExporterEntry.ofJson? (json : Json) : Option ExporterEntry := do
  let fields ← json.asObject?
  let host ← Json.required fields "host" Json.asText?
  let port ← Json.required fields "port" (Json.asBelow? 65536)
  some { host, port }

def ConfigurationFile.ofJson? (json : Json) : Option ConfigurationFile := do
  let fields ← json.asObject?
  let application ← Json.required fields "application_name" Json.asText?
  let workerId ← Json.optional fields "worker_id" Json.asText?
  let region ← Json.required fields "region" Json.asText?
  let account ← Json.required fields "account_id" Json.asText?
  let leaseTable ← Json.optional fields "lease_table_name" Json.asText?
  let summaryTable ← Json.optional fields "worker_metrics_table_name" Json.asText?
  let lease ← Json.defaulted fields "lease_management" {} LeaseSettings.ofJson?
  let scheduler ← Json.defaulted fields "scheduler" {} SchedulerSettings.ofJson?
  let assignment ← Json.defaulted fields "assignment" {} AssignmentConfig.ofJson?
  let streams ← Json.required fields "streams" StreamsEntry.ofJson?
  let exporter ← Json.optional fields "prometheus" ExporterEntry.ofJson?
  some
    { application, workerId, region, account, leaseTable, summaryTable, lease, scheduler
      assignment, streams, exporter }

end LeaseFleet
