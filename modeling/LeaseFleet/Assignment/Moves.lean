import LeaseFleet.Assignment.Plan
import LeaseFleet.Script.Basic

/-!
# Carrying out moves

Each move is one conditional write against the counter under which its lease was observed. A
move whose lease has changed since is skipped, and so is one whose write failed; neither keeps
the later ones from being tried.
-/

namespace LeaseFleet

namespace LeaseMove

def write (move : LeaseMove) : StoreCall :=
  .update (move.lease.transferredTo (some move.target)) move.lease.counter

end LeaseMove

variable {σ Job : Type}

/-- Carries out moves one after another and returns those that were applied. -/
def executeMoves : List LeaseMove → Script σ Job (List LeaseMove)
  | [] => return []
  | move :: rest => do
    match ← Script.query (.store move.write) with
    | .ok (.updated _) =>
      Script.count .movesApplied 1
      return move :: (← executeMoves rest)
    | .ok _ =>
      Script.count .moveConflicts 1
      executeMoves rest
    | .error _ => executeMoves rest

end LeaseFleet
