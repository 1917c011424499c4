import LeaseFleet.SortedMap

/-!
# The leader

Of the workers that are alive the one with the smallest id leads. Every worker finds this out for
itself, and workers with the same view find the same leader.
-/

namespace LeaseFleet

/-- The leader in the eyes of a worker, which counts itself among the living. -/
def leaderOf (worker : String) (live : SortedSet String) : String :=
  match live.toList with
  | first :: _ => if first < worker then first else worker
  | [] => worker

/-- Whether a worker leads in its own eyes. -/
def isLeaderAmong (worker : String) (live : SortedSet String) : Bool :=
  leaderOf worker live = worker

end LeaseFleet
