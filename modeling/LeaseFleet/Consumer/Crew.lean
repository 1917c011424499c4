import LeaseFleet.Consumer.Shard

/-!
# The crew of consumers

The consumers that a worker has put to work. A consumer is asked to stop and stops some time later.
A crew may have a limited number of places: a consumer takes one when it starts and gives it back
when it has stopped.
-/

namespace LeaseFleet

/-- Why a consumer is asked to stop. -/
inductive ShutdownReason where
  /-- The lease moved to another worker or expired. -/
  | leaseLost
  /-- The worker is shutting down. -/
  | requested
  /-- The shard has been consumed to its end. -/
  | shardEnd
  deriving DecidableEq, Repr

namespace ShutdownReason

def name : ShutdownReason → String
  | leaseLost => "lease_lost"
  | requested => "requested"
  | shardEnd => "shard_end"

def ofName? : String → Option ShutdownReason
  | "lease_lost" => some leaseLost
  | "requested" => some requested
  | "shard_end" => some shardEnd
  | _ => none

end ShutdownReason

/-- One consumer. -/
structure Consumer where
  leaseKey : String
  token : Token
  /-- The reason of the first request to stop. -/
  reason : Option ShutdownReason := none
  requests : Nat := 0
  /-- Whether nobody can ask it any more. -/
  abandoned : Bool := false
  stopped : Bool := false
  deriving DecidableEq, Repr

namespace Consumer

def isAsked (consumer : Consumer) : Bool := consumer.reason.isSome

/-- The consumer after it was asked to stop; only the first reason counts. -/
def ask (consumer : Consumer) (reason : ShutdownReason) : Consumer :=
  { consumer with
    reason := consumer.reason.or (some reason)
    requests := consumer.requests + 1 }

def mustStop (consumer : Consumer) : Bool := consumer.isAsked || consumer.abandoned

end Consumer

/-- The consumers that were put to work, in the order of their start. -/
structure Crew where
  /-- The free places; `none` when the consumers live elsewhere and need none. -/
  places : Option Nat
  /-- The shards that the crew refuses, and why. -/
  refuses : AssignedShard → Option String := fun _ => none
  members : List Consumer := []

namespace Crew

/-- What a crew says when no place is free. -/
def saturated : String := "consumer pool saturated: no permits available"

/-- Puts a consumer to work on a shard, and returns its number. -/
def start (crew : Crew) (shard : AssignedShard) : Except String (Nat × Crew) :=
  match crew.refuses shard, crew.places with
  | some reason, _ => .error reason
  | none, some 0 => .error saturated
  | none, places =>
    .ok (crew.members.length,
      { crew with
        places := places.map (· - 1)
        members := crew.members ++ [{ leaseKey := shard.leaseKey, token := shard.token }] })

def member? (crew : Crew) (number : Nat) : Option Consumer := crew.members[number]?

def modify (crew : Crew) (number : Nat) (f : Consumer → Consumer) : Crew :=
  { crew with members := crew.members.modify number f }

def isAsked (crew : Crew) (number : Nat) : Bool := (crew.member? number).any Consumer.isAsked

def isStopped (crew : Crew) (number : Nat) : Bool := (crew.member? number).any (·.stopped)

/-- Whether a consumer has a cause to stop. -/
def mustStop (crew : Crew) (number : Nat) : Bool := (crew.member? number).any Consumer.mustStop

def ask (crew : Crew) (number : Nat) (reason : ShutdownReason) : Crew :=
  crew.modify number (·.ask reason)

/-- Asks a consumer to stop, unless it was asked before. -/
def askOnce (crew : Crew) (number : Nat) (reason : ShutdownReason) : Crew :=
  if crew.isAsked number then crew else crew.ask number reason

/-- Gives up the only way to ask a consumer to stop. -/
def abandon (crew : Crew) (number : Nat) : Crew :=
  crew.modify number fun consumer => { consumer with abandoned := true }

/-- Notes that a consumer has stopped; its place is free again. -/
def finish (crew : Crew) (number : Nat) : Crew :=
  if crew.isStopped number then crew
  else
    { crew.modify number (fun consumer => { consumer with stopped := true }) with
      places := crew.places.map (· + 1) }

/-- The consumers that have not stopped yet. -/
def working (crew : Crew) : List Consumer := crew.members.filter (!·.stopped)

end Crew

end LeaseFleet
