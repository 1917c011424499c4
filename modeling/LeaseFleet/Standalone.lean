import LeaseFleet.Configuration.Setup
import LeaseFleet.Simulation.Fleet

/-!
# A worker on its own

A checked configuration is enough to run one worker: the stores are in memory, the streams are the
configured ones with their numbered shards, and the consumers live with the worker.
-/

namespace LeaseFleet.Setup

/-- The surroundings that the configuration describes. -/
def world (setup : Setup) (epoch : Nat) : World where
  listings := .ofList (setup.shardCounts.entries.map fun entry =>
    (entry.1.serialize, .ok (numberedShards entry.2)))
  tracked := setup.streams
  strategy := setup.deletion
  orphanPosition := setup.orphanPosition
  epoch

def sources (setup : Setup) : List MetricSource :=
  if setup.assignment.disableMetrics then [] else standardSources

/-- The worker that the configuration describes. -/
def workerSetup (setup : Setup) (workerId : String) (places : Nat) : WorkerSetup where
  workerId
  lease := setup.lease
  assignment := setup.assignment
  scheduler := setup.scheduler
  sources := some setup.sources
  places := some places
  multi := setup.multi
  region := setup.region
  account := setup.account

def fleet (setup : Setup) (workerId : String) (places epoch : Nat) : Fleet :=
  (({} : Fleet).changeWorld fun _ => setup.world epoch).add (setup.workerSetup workerId places)

end LeaseFleet.Setup
