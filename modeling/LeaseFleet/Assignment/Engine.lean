import LeaseFleet.Assignment.Moves
import LeaseFleet.Recent

/-!
# The assignment engine

Counts the passes of rebalancing, plans and carries out one at a time, and remembers the last
moves that were applied.
-/

namespace LeaseFleet

/-- An applied move. -/
structure MoveRecord where
  leaseKey : String
  source : String
  target : String
  throughputKbps : Option Float
  pass : Nat
  deriving DecidableEq

/-- The record of a move that a pass has applied. -/
def LeaseMove.toRecord (move : LeaseMove) (pass : Nat) : MoveRecord :=
  { leaseKey := move.lease.leaseKey
    source := move.source
    target := move.target
    throughputKbps := move.lease.throughputKbps
    pass }

/-- The last applied moves, oldest first. -/
structure MoveHistory where
  capacity : Nat
  moves : List MoveRecord := []
  deriving DecidableEq

namespace MoveHistory

/-- Remembers a move; the oldest one is forgotten when there is no room. -/
def push (history : MoveHistory) (move : MoveRecord) : MoveHistory :=
  { history with moves := keepLast history.capacity history.moves move }

/-- The last moves, newest first. -/
def recent (history : MoveHistory) (limit : Nat) : List MoveRecord :=
  history.moves.reverse.take limit

def size (history : MoveHistory) : Nat := history.moves.length

def clear (history : MoveHistory) : MoveHistory := { history with moves := [] }

end MoveHistory

/-- The most moves that an engine remembers. -/
def engineHistoryLimit : Nat := 1000

/-- Runs one rebalancing pass at a time. -/
structure AssignmentEngine where
  config : AssignmentConfig
  /-- The number of passes so far. -/
  passes : Nat := 0
  history : MoveHistory := { capacity := engineHistoryLimit }

namespace AssignmentEngine

def nextPass (engine : AssignmentEngine) : AssignmentEngine :=
  { engine with passes := engine.passes + 1 }

/-- The plan of the pass that is counted last. -/
def currentPlan (engine : AssignmentEngine) (seen : Observed) : RebalancePlan Float :=
  planRebalance engine.config seen engine.passes

/-- Remembers the moves that the current pass has applied. -/
def remember (engine : AssignmentEngine) (applied : List LeaseMove) : AssignmentEngine :=
  { engine with
    history := applied.foldl (fun history move => history.push (move.toRecord engine.passes))
      engine.history }

variable {σ Job : Type}

/-- Decides the next pass without carrying it out. -/
def plan (engine : AssignmentEngine) (seen : Observed) :
    Script σ Job (RebalancePlan Float × AssignmentEngine) := do
  let engine := engine.nextPass
  let plan := engine.currentPlan seen
  Script.gauge .utilizationGap plan.gap
  return (plan, engine)

/-- Plans and carries out one pass; returns the number of moves that were applied. -/
def runPass (engine : AssignmentEngine) (seen : Observed) :
    Script σ Job (Nat × AssignmentEngine) := do
  let (plan, engine) ← engine.plan seen
  if plan.moves.isEmpty then return (0, engine)
  let applied ← executeMoves plan.moves
  Script.record (.sample .rebalancePass)
  return (applied.length, engine.remember applied)

end AssignmentEngine

end LeaseFleet
