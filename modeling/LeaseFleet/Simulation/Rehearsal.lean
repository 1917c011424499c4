import LeaseFleet.Simulation.World
import LeaseFleet.Script.Retry

/-!
# Rehearsing retries

Runs a retry policy against an operation whose outcomes are known beforehand.
-/

namespace LeaseFleet

/-- The outcome of one call, and whether the signal to stop is raised during the call. -/
structure RehearsedCall where
  outcome : Except WorkerError Nat
  stops : Bool := false

/-- How far a rehearsal has come. -/
structure Rehearsal where
  calls : Nat := 0
  stopped : Bool := false
  /-- Whether the signal to stop can still be raised. -/
  connected : Bool := true
  deriving DecidableEq, Repr

namespace Rehearsal

/-- What the given call does; the last one repeats for ever. -/
def callAt (script : List RehearsedCall) (number : Nat) : RehearsedCall :=
  (script[number]?.or script.getLast?).getD { outcome := .error .shuttingDown }

def next (script : List RehearsedCall) (rehearsal : Rehearsal) : Rehearsal :=
  { rehearsal with
    calls := rehearsal.calls + 1
    stopped := rehearsal.stopped ||
      (rehearsal.connected && (callAt script rehearsal.calls).stops) }

def call (script : List RehearsedCall) : Script Rehearsal Empty (Except WorkerError Nat) := do
  let found ← .step (fun _ => true) (next script) .done
  return (callAt script found.calls).outcome

/-- Runs a policy: its result and the number of calls. -/
def run (rehearsal : Rehearsal) (policy : RetryPolicy) (script : List RehearsedCall) :
    Option (Except WorkerError Nat × Nat) :=
  ((policy.run stopped (call script)).runAlone rehearsal {}).map fun (result, after, _) =>
    (result, after.calls)

end Rehearsal

end LeaseFleet
