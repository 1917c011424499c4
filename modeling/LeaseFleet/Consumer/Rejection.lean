import LeaseFleet.Telemetry

/-!
# Rejected tasks

What the execution layer could not run is reported to a queue, from which the process loop turns
it into diagnostic events. A report is lost when nobody reads the queue any more.
-/

namespace LeaseFleet

/-- A task that could not be run. -/
structure Rejection where
  executor : String
  reason : String
  deriving DecidableEq, Repr

/-- What a worker tells about its execution layer. -/
inductive DiagnosticEvent where
  | rejected (rejection : Rejection)
  | executorState (active pending : Nat)
  deriving DecidableEq, Repr

/-- The rejections that nobody has read yet, oldest first. -/
structure RejectionQueue where
  pending : List Rejection := []
  isOpen : Bool := true
  deriving DecidableEq, Repr

namespace RejectionQueue

/-- Reports a rejection; `false` when it is lost. -/
def report (queue : RejectionQueue) (rejection : Rejection) : Bool × RejectionQueue :=
  if queue.isOpen then (true, { queue with pending := queue.pending ++ [rejection] })
  else (false, queue)

/-- Reports several rejections. -/
def reportAll (queue : RejectionQueue) (rejections : List Rejection) : RejectionQueue :=
  rejections.foldl (fun queue rejection => (queue.report rejection).2) queue

def drain (queue : RejectionQueue) : List Rejection × RejectionQueue :=
  (queue.pending, { queue with pending := [] })

/-- Stops reading; what was pending is lost. -/
def close (_queue : RejectionQueue) : RejectionQueue := { pending := [], isOpen := false }

/-- The events that a round of the process loop tells. -/
def events (rejections : List Rejection) (active : Nat) : List DiagnosticEvent :=
  rejections.map .rejected ++ [.executorState active rejections.length]

end RejectionQueue

end LeaseFleet
