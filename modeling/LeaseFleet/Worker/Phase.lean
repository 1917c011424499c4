/-!
# Phases of a worker

A worker goes through its phases in one direction only.
-/

namespace LeaseFleet

/-- Where a worker is in its life. -/
inductive WorkerPhase where
  | created
  | initializing
  | running
  | shuttingDown
  | shutDown
  deriving DecidableEq, Repr

namespace WorkerPhase

/-- The position of a phase in the order of phases. -/
def rank : WorkerPhase → Nat
  | created => 0
  | initializing => 1
  | running => 2
  | shuttingDown => 3
  | shutDown => 4

def name : WorkerPhase → String
  | created => "created"
  | initializing => "initializing"
  | running => "running"
  | shuttingDown => "shutting_down"
  | shutDown => "shut_down"

end WorkerPhase

end LeaseFleet
