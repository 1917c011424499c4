import LeaseFleet.Script.Basic
import LeaseFleet.Simulation.Fault

/-!
# A simulated world

The surroundings of a fleet, in memory and under a clock of their own: the lease table, the board
of summaries, the streams with their shards, the faults that are armed, and everything that has
been measured. The world answers a question at once or tells how long to wait before it is asked
again.
-/

namespace LeaseFleet

/-- The surroundings of a fleet. -/
structure World where
  table : LeaseTable := .empty
  /-- How far the lease store counts. -/
  capacity : Capacity := .words
  faults : FaultPlan CallKind Disturbance := []
  board : SummaryBoard := .empty
  boardFaults : FaultPlan BoardCall StoreError := []
  /-- What the streams list, by serialized identifier; any other stream lists no shard. -/
  listings : SortedMap String (Except String (List ShardDescription)) := .empty
  listingDelay : Nat := 0
  tracked : List StreamConfig := []
  strategy : DeletionStrategy := .keep
  orphanPosition : InitialPosition := .latest
  /-- Milliseconds since the start. -/
  clock : Nat := 0
  /-- Milliseconds since the epoch. -/
  epoch : Nat := 1700000000000
  tokens : Nat := 0
  telemetry : Telemetry := {}

namespace World

/-- The answer to a question, or the time after which it has to be asked again. -/
inductive Answer (query : Query) where
  | now (reply : query.Reply) (world : World)
  | later (millis : Nat) (world : World)

def perform (world : World) (call : StoreCall) : Answer (.store call) :=
  let (reply, table) := world.table.performIn world.capacity call
  .now reply { world with table }

/-- Changes the lease that a call is about. -/
def disturbTable (world : World) (call : StoreCall) (f : String → LeaseTable → LeaseTable) :
    World :=
  match call.key? with
  | some key => { world with table := f key world.table }
  | none => world

/-- Answers a call of the lease store, disturbed by the first fault that fits it. -/
def answerStore (world : World) (call : StoreCall) : Answer (.store call) :=
  match world.faults.take call.kind call.key? with
  | none => world.perform call
  | some (disturbance, faults) =>
    let world := { world with faults }
    match disturbance with
    | .fail error => .now (call.failed error) world
    | .delay millis => .later millis world
    | .race owner =>
      (world.disturbTable call fun key table => (table.steal key (some owner) world.capacity).2).perform call
    | .vanish => (world.disturbTable call fun key table => table.erase key).perform call

/-- Answers a question for the published summaries. -/
def answerSummaries (world : World) : Answer .summaries :=
  match world.boardFaults.take .list none with
  | some (error, boardFaults) => .now (.error error) { world with boardFaults }
  | none => .now (.ok world.board.summaries) world

def answerPublish (world : World) (summary : WorkerSummary) : Answer (.publish summary) :=
  match world.boardFaults.take .publish (some summary.workerId) with
  | some (error, boardFaults) => .now (.error error) { world with boardFaults }
  | none => .now (.ok ()) { world with board := world.board.publish summary }

def listing (world : World) (config : StreamConfig) : Except String (List ShardDescription) :=
  (world.listings.get? config.stream.serialize).getD (.ok [])

/-- Answers a question; `waited` tells that it was asked before and has had its delay. -/
def answer (world : World) (waited : Bool) : (query : Query) → Answer query
  | .store call => world.answerStore call
  | .summaries => world.answerSummaries
  | .publish summary => world.answerPublish summary
  | .shards config =>
    if world.listingDelay = 0 || waited then .now (world.listing config) world
    else .later world.listingDelay world
  | .trackedStreams => .now world.tracked world
  | .deletionStrategy => .now world.strategy world
  | .orphanPosition => .now world.orphanPosition world
  | .clock => .now world.clock world
  | .epoch => .now world.epoch world
  | .token => .now ⟨world.tokens⟩ { world with tokens := world.tokens + 1 }
  | .draw low _ => .now low world
  | .record measurement =>
    .now () { world with telemetry := world.telemetry.record measurement }

/-- Gives a token that was never given before. -/
def freshToken (world : World) : Token × World :=
  (⟨world.tokens⟩, { world with tokens := world.tokens + 1 })

def pass (world : World) (millis : Nat) : World :=
  { world with clock := world.clock + millis }

/-- The answer when the asker waits out every delay. -/
def answerAfter (world : World) (query : Query) : (attempts : Nat) → Bool →
    Option (query.Reply × World)
  | 0, _ => none
  | attempts + 1, waited =>
    match world.answer waited query with
    | .now reply world => some (reply, world)
    | .later millis world => answerAfter (world.pass millis) query attempts true

/-- More often than that no question has to be asked. -/
def patience (world : World) : Nat := world.faults.remaining + 2

end World

namespace Script

variable {σ α : Type}

/-- Runs a script alone: nobody else changes its state, every delay is waited out, and the clock
moves while it waits. The result is missing when the script waits for something that cannot
happen. -/
def runAlone : Script σ Empty α → σ → World → Option (α × σ × World)
  | done value, state, world => some (value, state, world)
  | ask query next, state, world =>
    match world.answerAfter query world.patience false with
    | some (reply, world) => (next reply).runAlone state world
    | none => none
  | step ready change next, state, world =>
    if ready state then (next state).runAlone (change state) world else none
  | sleep millis stopped next, state, world =>
    if stopped state then (next false).runAlone state world
    else (next true).runAlone state (world.pass millis)
  | spawn job _, _, _ => job.elim
  | gather _ next, state, world => next.runAlone state world

end Script

end LeaseFleet
