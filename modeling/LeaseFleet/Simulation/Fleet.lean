import LeaseFleet.Simulation.Machine
import LeaseFleet.Worker.Duty

/-!
# A simulated fleet

Several workers around one lease table, one board of summaries and one set of streams, under a
clock that moves only when it is told to or when somebody waits.
-/

namespace LeaseFleet

/-- How a worker of a fleet is set up. -/
structure WorkerSetup where
  workerId : String
  lease : LeaseSettings := {}
  assignment : AssignmentConfig := {}
  scheduler : SchedulerSettings := {}
  /-- Where the worker's load comes from, if it reports one. -/
  sources : Option (List MetricSource) := none
  /-- The places for consumers, if they live with the worker. -/
  places : Option Nat := none
  /-- Whether leases carry the stream they belong to. -/
  multi : Bool := true
  region : String
  account : String

namespace WorkerSetup

def worker (setup : WorkerSetup) : Worker where
  coordinator := .ofSettings setup.workerId setup.lease setup.assignment
  settings := setup.scheduler
  synchronizer :=
    { sync := { multi := setup.multi, retry := setup.lease.retryPolicy }
      interval := setup.scheduler.streamSyncInterval
      arns := { region := setup.region, defaultAccount := setup.account } }
  crew := { places := setup.places }
  sampler := .ofSources setup.workerId setup.assignment (setup.sources.getD [])
  reportsLoad := setup.sources.isSome

end WorkerSetup

/-- A fleet at work. -/
structure Fleet where
  machine : Machine Worker Duty Outcome := {}
  /-- The tasks that were started and not waited for. -/
  started : List Nat := []

namespace Fleet

def world (fleet : Fleet) : World := fleet.machine.world

/-- Changes the surroundings from outside. -/
def changeWorld (fleet : Fleet) (f : World → World) : Fleet :=
  { fleet with machine := { fleet.machine with world := f fleet.machine.world } }

def add (fleet : Fleet) (setup : WorkerSetup) : Fleet :=
  { fleet with machine :=
    { fleet.machine with places := fleet.machine.places.insert setup.workerId setup.worker } }

/-- The workers by id. -/
def workers (fleet : Fleet) : List (String × Worker) := fleet.machine.places.entries

/-- Changes a worker from outside. -/
def changeWorker (fleet : Fleet) (workerId : String) (f : Worker → Worker) : Fleet :=
  { fleet with machine := fleet.machine.change workerId f }

/-- Asks a worker for something and waits for its answer. -/
def perform (fleet : Fleet) (workerId : String) (duty : Duty) : Option Outcome × Fleet :=
  let (outcome, machine) := fleet.machine.run Duty.behaviour workerId duty
  (outcome, { fleet with machine })

/-- Asks a worker for something without waiting for its answer. -/
def spawn (fleet : Fleet) (workerId : String) (duty : Duty) : Fleet :=
  let (id, machine) := fleet.machine.start Duty.behaviour workerId duty
  { machine := machine.settle Duty.behaviour, started := fleet.started ++ [id] }

/-- Waits for everything that was asked for and not waited for. -/
def join (fleet : Fleet) : List (Option Outcome) × Fleet :=
  let (outcomes, machine) := fleet.machine.await Duty.behaviour fleet.started
  (outcomes, { machine, started := [] })

def pass (fleet : Fleet) (millis : Nat) : Fleet :=
  { fleet with machine := fleet.machine.pass Duty.behaviour millis }

def settle (fleet : Fleet) : Fleet :=
  { fleet with machine := fleet.machine.settle Duty.behaviour }

/-- Forgets the phases and events that have been announced so far. -/
def forgetNews (fleet : Fleet) : Fleet :=
  { fleet with machine := { fleet.machine with
    places := fleet.machine.places.mapValues fun _ worker =>
      { worker with announced := [], events := [] } } }

end Fleet

end LeaseFleet
