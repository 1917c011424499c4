import LeaseFleet.Json.Fields
import LeaseFleet.Recent

/-!
# Smoothed metrics

One utilization metric of a worker: its moving average, its recent raw values, and the raw value
at which it counts as fully used.
-/

namespace LeaseFleet

/-- The resources that a worker watches. -/
inductive MetricType where
  | cpu
  | memory
  | network
  deriving DecidableEq, Repr

namespace MetricType

/-- The resources are ordered as they are listed. -/
def rank : MetricType → Nat
  | cpu => 0
  | memory => 1
  | network => 2

instance : Ord MetricType := ⟨compareOn rank⟩

instance : Std.TransOrd MetricType := inferInstanceAs (Std.TransCmp (compareOn rank))

instance : Std.LawfulEqOrd MetricType where
  eq_of_compare {left right} h := by
    cases left <;> cases right <;> first | rfl | exact absurd h (by decide)

def name : MetricType → String
  | cpu => "cpu"
  | memory => "memory"
  | network => "network"

def ofName? : String → Option MetricType
  | "cpu" => some cpu
  | "memory" => some memory
  | "network" => some network
  | _ => none

end MetricType

def floatOfNat (n : Nat) : Float := n.toUInt64.toFloat

/-- The utilization of a saturated worker, in percent. -/
def fullUtilization : Float := 100.0

/-- The raw value at which a metric counts as fully used. -/
structure OperatingRange where
  maxUtilization : Float := fullUtilization
  deriving DecidableEq

/-- A raw value as a percentage of the range. A range that is not positive reads as the full
one. -/
def OperatingRange.normalize (range : OperatingRange) (raw : Float) : Float :=
  if 0.0 < range.maxUtilization then raw / range.maxUtilization * fullUtilization else raw

/-- The moving average after one more value; the first value starts it. -/
def movingAverage (alpha raw : Float) : Option Float → Float
  | some previous => alpha * raw + (1.0 - alpha) * previous
  | none => raw

/-- One metric of a worker. -/
structure MetricStats where
  smoothed : Option Float := none
  recent : List Float := []
  range : OperatingRange := {}
  deriving DecidableEq

namespace MetricStats

/-- Folds a raw value into the average and the history, and returns the new average. -/
def record (stats : MetricStats) (raw alpha : Float) (history : Nat) : Float × MetricStats :=
  let smoothed := movingAverage alpha raw stats.smoothed
  (smoothed, { stats with
    smoothed := some smoothed
    recent := keepLast history stats.recent raw })

def ofJson? (json : Json) : Option MetricStats := do
  let fields ← json.asObject?
  let smoothed ← Json.optional fields "smoothed" Json.asFloat?
  let recent ← Json.required fields "recent" (Json.asList? Json.asFloat?)
  let range ← Json.defaulted fields "operating_range" {} fun value => do
    let fields ← value.asObject?
    let maxUtilization ← Json.required fields "max_utilization" Json.asFloat?
    some { maxUtilization }
  some { smoothed, recent, range }

end MetricStats

end LeaseFleet
