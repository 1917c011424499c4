import LeaseFleet.Configuration.Address
import LeaseFleet.Configuration.File
import LeaseFleet.Stream.Deletion
import LeaseFleet.Stream.Shard

/-!
# A checked configuration

The settings of a worker after they have been checked. The first setting that is wrong decides the
error; they are looked at in the order of the application, lease keeping, the scheduler, assignment,
the streams, their clean-up and the exporter.
-/

namespace LeaseFleet

/-- Why a configuration is refused. -/
inductive SetupError where
  | application
  /-- A setting of lease keeping, the scheduler or assignment, in words. -/
  | setting (problem : String)
  /-- A single-stream worker with another number of streams. -/
  | notOneStream (found : Nat)
  | invalidStream (identifier : String) (cause : StoreError)
  | noShards (stream : StreamIdentifier)
  | trackedTwice (stream : StreamIdentifier)
  | invalidExporter
  deriving DecidableEq, Repr

namespace SetupError

def message : SetupError → String
  | application => "application_name must not be empty"
  | setting problem => problem
  | notOneStream found =>
    "single-stream mode needs exactly one tracked stream, found " ++ toString found
  | invalidStream identifier cause =>
    "Invalid stream identifier: " ++ identifier ++ ": " ++ cause.message
  | noShards stream => "stream " ++ stream.serialize ++ " needs at least one shard"
  | trackedTwice stream => "stream " ++ stream.serialize ++ " is tracked twice"
  | invalidExporter => "Failed to create prom_exporter: " ++ SocketAddress.syntaxProblem

end SetupError

/-- The checked settings of a worker. -/
structure Setup where
  application : String
  /-- A worker without an id of its own gets a random one. -/
  workerId : Option String
  region : String
  account : String
  leaseTable : String
  summaryTable : String
  lease : LeaseSettings
  scheduler : SchedulerSettings
  assignment : AssignmentConfig
  multi : Bool
  streams : List StreamConfig
  shardCounts : SortedMap StreamIdentifier Nat
  orphanPosition : InitialPosition
  deletion : DeletionStrategy
  exporter : Option SocketAddress

namespace Setup

/-- Passes if nothing is wrong with a group of settings. -/
def checked (problem : Option String) : Except SetupError Unit :=
  match problem with
  | some problem => .error (.setting problem)
  | none => .ok ()

/-- Reads a stream identifier in the form that the mode asks for. -/
def readStream (multi : Bool) (identifier : String) : Except SetupError StreamIdentifier :=
  (if multi then StreamIdentifier.ofMulti identifier
    else StreamIdentifier.ofSingle identifier).mapError (.invalidStream identifier)

/-- The number of shards of a stream that does not state one. -/
def standardShardCount : Nat := 1

def readStreams (multi : Bool) : List StreamEntry → SortedMap StreamIdentifier Nat →
    Except SetupError (List StreamConfig × SortedMap StreamIdentifier Nat)
  | [], counts => .ok ([], counts)
  | entry :: rest, counts => do
    let stream ← readStream multi entry.identifier
    let count := entry.shardCount.getD standardShardCount
    if count = 0 then throw (.noShards stream)
    if counts.contains stream then throw (.trackedTwice stream)
    let (configs, counts) ← readStreams multi rest (counts.insert stream count)
    return (.ofStream stream entry.position :: configs, counts)

def readDeletion (multi : Bool) : DeletionEntry → Except SetupError DeletionStrategy
  | .keep => .ok .keep
  | .afterAbsence wait => .ok (.afterAbsence wait)
  | .named none wait => .ok (.named none wait)
  | .named (some identifiers) wait => do
    return .named (some (← identifiers.mapM (readStream multi))) wait

def readExporter : Option ExporterEntry → Except SetupError (Option SocketAddress)
  | none => .ok none
  | some entry =>
    match SocketAddress.ofText? (entry.host ++ ":" ++ toString entry.port) with
    | some address => .ok (some address)
    | none => .error .invalidExporter

def ofFile (file : ConfigurationFile) : Except SetupError Setup := do
  if file.application = "" then throw .application
  checked file.lease.problem?
  checked file.scheduler.problem?
  checked file.assignment.problem?
  let multi := file.streams.multi
  if !multi && file.streams.tracked.length != 1 then
    throw (.notOneStream file.streams.tracked.length)
  let (streams, shardCounts) ← readStreams multi file.streams.tracked .empty
  let deletion ← readDeletion multi file.streams.deletion
  let exporter ← readExporter file.exporter
  return {
    application := file.application
    workerId := file.workerId.filter (· ≠ "")
    region := file.region
    account := file.account
    leaseTable := file.leaseTable.getD file.application
    summaryTable := file.summaryTable.getD (file.application ++ "-WorkerMetricStats")
    lease := file.lease
    scheduler := file.scheduler
    assignment := file.assignment
    multi
    streams
    shardCounts
    orphanPosition := file.streams.orphanPosition
    deletion
    exporter }

/-- The shards of a stream, numbered as the configuration counts them. -/
def listShards (setup : Setup) (config : StreamConfig) :
    Except String (List ShardDescription) :=
  match setup.shardCounts.get? config.stream with
  | some count => .ok (numberedShards count)
  | none => .error ("unknown stream " ++ config.stream.serialize)

end Setup

end LeaseFleet
