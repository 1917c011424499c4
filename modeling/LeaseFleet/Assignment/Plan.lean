import LeaseFleet.Assignment.Selection
import LeaseFleet.Store.Table

/-!
# The plan of a pass

A pass moves leases from the most utilized worker that owns any to the least utilized worker that
may receive some. Nothing moves while the gap between the two is below the threshold, unless the
pass is forced.
-/

namespace LeaseFleet

/-- A proposed change of owner. -/
structure LeaseMove where
  /-- The lease as it was observed; its counter fences the write. -/
  lease : Lease
  source : String
  target : String
  deriving DecidableEq

/-- What a pass has decided. -/
structure RebalancePlan (S : Type) where
  moves : List LeaseMove := []
  source : Option String := none
  target : Option String := none
  /-- How much the source is more utilized than the target. -/
  gap : S
  /-- Whether the threshold was ignored. -/
  forced : Bool

/-- The first of the members that none of the others precedes. -/
def leastBy {α : Type} (order : α → α → Ordering) : List α → Option α
  | [] => none
  | first :: rest =>
    some (rest.foldl (fun best next => if order best next = .gt then next else best) first)

namespace WorkerLoad

variable {S : Type} [Scalar S]

/-- The more utilized worker comes first; of equally utilized ones the one with the smaller id. -/
def busierFirst (left right : WorkerLoad S) : Ordering :=
  (Scalar.order right.utilization left.utilization).then (compare left.workerId right.workerId)

/-- The less utilized worker comes first; of equally utilized ones the one with the smaller id. -/
def idlerFirst (left right : WorkerLoad S) : Ordering :=
  (Scalar.order left.utilization right.utilization).then (compare left.workerId right.workerId)

end WorkerLoad

section

variable {S : Type} [Scalar S]

def chooseSource (loads : List (WorkerLoad S)) : Option (WorkerLoad S) :=
  leastBy WorkerLoad.busierFirst (loads.filter fun load => 0 < load.leaseCount)

def chooseTarget (loads : List (WorkerLoad S)) (source : WorkerLoad S) : Option (WorkerLoad S) :=
  leastBy WorkerLoad.idlerFirst
    (loads.filter fun load => load.eligible && load.workerId != source.workerId)

/-- Whether a gap is too small for the pass to act on. -/
def isGapTooSmall (threshold gap : S) (forced : Bool) : Bool :=
  Scalar.atMost gap (Scalar.ofNat 0) || (Scalar.below gap threshold && !forced)

/-- The plan that follows from the loads; `select` picks the moving leases from those of the
source. -/
def planMoves (forced : Bool) (threshold : S) (loads : List (WorkerLoad S)) (leases : List Lease)
    (select : WorkerLoad S → WorkerLoad S → S → List Lease → List Lease) : RebalancePlan S :=
  match chooseSource loads with
  | none => { gap := Scalar.ofNat 0, forced }
  | some source =>
    match chooseTarget loads source with
    | none => { gap := Scalar.ofNat 0, forced }
    | some target =>
      let gap := source.utilization - target.utilization
      let byKey := LeaseTable.ofLeases leases
      let selected :=
        if isGapTooSmall threshold gap forced then []
        else select source target gap (source.leaseKeys.filterMap byKey.get?)
      { moves := selected.map fun lease =>
          { lease, source := source.workerId, target := target.workerId }
        source := some source.workerId
        target := some target.workerId
        gap
        forced }

end

def planByCount (S : Type) [Scalar S] (config : AssignmentConfig) (seen : Observed) (pass : Nat) :
    RebalancePlan S :=
  planMoves (config.isForcedPass pass) (Scalar.ofFloat config.rebalanceThreshold)
    (seen.countLoads S) seen.leases fun source target _ => selectByCount config source target

def meanThroughput (loads : List (WorkerLoad Float)) : Float :=
  loads.foldl (fun sum load => sum + load.throughput) (-0.0) / floatOfNat loads.length

def planByMetrics (config : AssignmentConfig) (seen : Observed) (pass : Nat) :
    RebalancePlan Float :=
  let loads := seen.metricLoads config
  planMoves (config.isForcedPass pass) config.rebalanceThreshold loads seen.leases
    (selectByThroughput config (meanThroughput loads))

/-- The plan of a pass in the mode that the settings choose. -/
def planRebalance (config : AssignmentConfig) (seen : Observed) (pass : Nat) :
    RebalancePlan Float :=
  if config.disableMetrics then planByCount Float config seen pass
  else planByMetrics config seen pass

end LeaseFleet
