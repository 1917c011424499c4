import LeaseFleet.Assignment.Load

/-!
# Which leases move

Once source and target of a pass are chosen, these rules pick the leases that change hands. By
count, the first leases in key order cover half of the difference, dampened. By throughput, the
heaviest leases move first until the dampened shift is covered, and a lease that would break a
rule at its turn is passed over.
-/

namespace LeaseFleet

/-- How many leases move when the source owns `difference` more than the target: half of the
difference, dampened, but at least one. -/
def countToMove (S : Type) [Scalar S] (dampening difference : Nat) : Nat :=
  max 1 (Scalar.floorNat
    (Scalar.ofNat difference / Scalar.ofNat 2 * Scalar.ofNat dampening / Scalar.ofNat (S := S) 100))

/-- Selects by count; a difference below two is left alone. -/
def selectByCount {S : Type} [Scalar S] (config : AssignmentConfig) (source target : WorkerLoad S)
    (leases : List Lease) : List Lease :=
  let difference := source.leaseCount - target.leaseCount
  if difference < 2 then [] else leases.take (countToMove S config.dampening difference)

/-! ## By throughput -/

/-- The throughput of a lease, zero when unknown. -/
def Lease.kbps (lease : Lease) : Float := lease.throughputKbps.getD 0.0

/-- The heavier lease comes first; of equally heavy ones the one with the smaller key. -/
def heavierFirst (left right : Lease) : Ordering :=
  (Scalar.order right.kbps left.kbps).then (compare left.leaseKey right.leaseKey)

/-- Puts a lease into a list whose last lease comes first: behind every lease that it does not
precede. -/
def insertFromEnd (order : Lease → Lease → Ordering) (lease : Lease) : List Lease → List Lease
  | [] => [lease]
  | last :: rest =>
    if order lease last = .lt then last :: insertFromEnd order lease rest else lease :: last :: rest

/-- The leases in an order; each is placed from the end of those before it, so that the result is
fixed even where the order is not transitive. -/
def arrange (order : Lease → Lease → Ordering) (leases : List Lease) : List Lease :=
  (leases.foldl (fun placed lease => insertFromEnd order lease placed) []).reverse

/-- What limits the selection by throughput. -/
structure MoveLimits where
  budget : Float
  /-- The most that the target may carry; zero means no cap. -/
  cap : Float
  /-- The mean throughput of the workers. -/
  mean : Float
  allowOvershoot : Bool

/-- The loads of source and target while leases are being selected. -/
structure Shift where
  source : Float
  target : Float
  /-- The throughput selected so far. -/
  moved : Float := 0.0

namespace Shift

/-- The loads after one more lease has been selected. -/
def after (shift : Shift) (kbps : Float) : Shift :=
  { source := shift.source - kbps
    target := shift.target + kbps
    moved := shift.moved + kbps }

/-- Whether lifting the target above the mean still narrows the gap between the two. -/
def narrows (shift : Shift) (kbps : Float) : Bool :=
  let next := shift.after kbps
  !((shift.source - shift.target).abs ≤ (next.source - next.target).abs)

/-- Whether a lease of that throughput may move next. -/
def admits (shift : Shift) (limits : MoveLimits) (kbps : Float) : Bool :=
  if kbps ≤ 0.0 then false
  else if 0.0 < limits.cap && limits.cap < shift.target + kbps then false
  else if limits.mean < shift.target + kbps then limits.allowOvershoot && shift.narrows kbps
  else true

end Shift

/-- Goes through the leases in order and selects those that are admitted at their turn, until the
budget is met. -/
def selectGreedily (limits : MoveLimits) : Shift → List Lease → List Lease
  | _, [] => []
  | shift, lease :: rest =>
    if limits.budget ≤ shift.moved then []
    else if shift.admits limits lease.kbps then
      lease :: selectGreedily limits (shift.after lease.kbps) rest
    else selectGreedily limits shift rest

/-- The number of leases that move when no throughput is known: the share of the source's leases
that the shift is of its utilization, at least one and at most all. -/
def proportionalCount (shift utilization : Float) (count : Nat) : Nat :=
  let share := floatOfNat count * shift / largerOf utilization 1.0
  min (max share.round.toUInt64.toNat 1) count

def selectByThroughput (config : AssignmentConfig) (mean : Float)
    (source target : WorkerLoad Float) (gap : Float) (leases : List Lease) : List Lease :=
  let shift := gap / 2.0 * floatOfNat config.dampening / 100.0
  if shift ≤ 0.0 then []
  else if source.throughput ≤ 0.0 || source.utilization ≤ 0.0 then
    leases.take (proportionalCount shift source.utilization source.leaseCount)
  else
    let limits : MoveLimits :=
      { budget := shift * source.throughput / source.utilization
        cap := config.maxThroughputPerHost
        mean
        allowOvershoot := config.allowOvershoot }
    selectGreedily limits { source := source.throughput, target := target.throughput }
      (arrange heavierFirst leases)

end LeaseFleet
