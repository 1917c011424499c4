import LeaseFleet.Simulation.Fleet
import LeaseFleet.Simulation.Rehearsal
import LeaseFleet.Sketch.Stream
import LeaseFleet.Sketch.Utilization

/-!
# Sketches of surroundings

Armed faults, a whole simulated world, the changes that can be made to one from outside, and the
workers of a fleet.
-/

namespace LeaseFleet

def CallKind.ofName? : String → Option CallKind
  | "list" => some list
  | "create" => some create
  | "update" => some update
  | "delete" => some delete
  | "is_empty" => some isEmpty
  | _ => none

def BoardCall.ofName? : String → Option BoardCall
  | "put" => some publish
  | "list" => some list
  | _ => none

def Disturbance.ofSketch? (sketch : Json) : Option Disturbance := do
  match ← sketch.text "kind" with
  | "delay" => return delay (← sketch.nat "ms")
  | "race" => return race (← sketch.orElse "message" injectedReason Json.asText?)
  | "vanish" => return vanish
  | _ => return fail (← StoreError.ofSketch? sketch)

/-- An armed fault, once unless told otherwise. -/
def Fault.ofSketch? {Kind Effect : Type} (kind? : String → Option Kind)
    (effect? : Json → Option Effect) (sketch : Json) : Option (Fault Kind Effect) := do
  return {
    kind := ← kind? (← sketch.text "call")
    key := ← sketch.maybe "key" Json.asText?
    effect := ← effect? sketch
    times := ← sketch.orElse "times" 1 Json.asWord? }

namespace World

def storeFault? : Json → Option (Fault CallKind Disturbance) :=
  Fault.ofSketch? CallKind.ofName? Disturbance.ofSketch?

def boardFault? : Json → Option (Fault BoardCall StoreError) :=
  Fault.ofSketch? BoardCall.ofName? StoreError.ofSketch?

/-- What streams list, by serialized identifier. -/
def listings? (sketch : Json) : Option (List (String × Except String (List ShardDescription))) := do
  (← sketch.orElse "shards" [] Json.asObject?).mapM fun entry => do
    return (entry.1, ← ShardDescription.listingOfSketch? entry.2)

def ofSketch? (sketch : Json) : Option World := do
  return {
    table := .ofLeases (← sketch.list "leases" Lease.ofSketch?)
    faults := ← sketch.list "faults" storeFault?
    listings := .ofList (← listings? sketch)
    tracked := ← sketch.list "tracked" StreamConfig.ofSketch?
    strategy := ← DeletionStrategy.ofSketch? (sketch.field "strategy")
    orphanPosition := ← sketch.orElse "orphan" .latest InitialPosition.ofJson? }

/-- A change from outside, by its name and what it needs. -/
def change? (world : World) (name : String) (sketch : Json) : Option World := do
  match name with
  | "put" =>
    return { world with table := world.table.put (← Lease.ofSketch? (sketch.field "lease")) }
  | "delete" => return { world with table := world.table.erase (← sketch.text "key") }
  | "heartbeat" =>
    return { world with
      board := world.board.publish (← WorkerSummary.ofSketch? (sketch.field "summary")) }
  | "fault" =>
    if ← sketch.flag "metrics" then
      return { world with boardFaults := world.boardFaults ++ [← boardFault? sketch] }
    else return { world with faults := world.faults ++ [← storeFault? sketch] }
  | "clear_faults" => return { world with faults := [], boardFaults := [] }
  | "set_shards" =>
    return { world with
      listings := (← listings? sketch).foldl (fun map e => map.insert e.1 e.2) world.listings }
  | "set_streams" =>
    return { world with tracked := ← sketch.list "tracked" StreamConfig.ofSketch? }
  | "set_strategy" =>
    return { world with strategy := ← DeletionStrategy.ofSketch? (sketch.field "strategy") }
  | "detector_delay" => return { world with listingDelay := ← sketch.nat "ms" }
  | _ => none

end World

def WorkerSetup.ofSketch? (multi : Bool) (region account : String) (sketch : Json) :
    Option WorkerSetup := do
  return {
    workerId := ← sketch.text "id"
    lease := ← LeaseSettings.ofJson? (sketch.field "lease")
    assignment := ← AssignmentConfig.ofSketch? (sketch.field "assignment")
    scheduler := ← sketch.orElse "scheduler" {} SchedulerSettings.ofJson?
    sources := ← sketch.maybe "metrics" (Json.asList? MetricSource.ofSketch?)
    places := ← sketch.maybe "max_consumers" Json.asWord?
    multi
    region
    account }

def RehearsedCall.ofSketch? (sketch : Json) : Option RehearsedCall := do
  let stops ← sketch.flag "shutdown"
  match ← sketch.maybe "ok" Json.asWord? with
  | some value => return { outcome := .ok value, stops }
  | none => return { outcome := .error (← WorkerError.ofSketch? sketch), stops }

def Rejection.ofSketch? (sketch : Json) : Option Rejection := do
  return { executor := ← sketch.text "executor", reason := ← sketch.text "message" }

/-- The request of a name, for those that need nothing more. -/
def Request.ofName? : String → Option Request
  | "init" => some adopt
  | "take" => some take
  | "renew" => some renew
  | "rebalance" => some rebalance
  | "start" => some startLoops
  | "stop" => some stopLoops
  | "is_leader" => some isLeader
  | "initialize" => some bringUp
  | "loop" => some processOnce
  | "should_sync" => some shouldFillTable
  | "shutdown" => some shutdown
  | _ => none

/-- The duty of a name, for those that need nothing more. -/
def Duty.ofName? : String → Option Duty
  | "run" => some run
  | name => (Request.ofName? name).map request

end LeaseFleet
