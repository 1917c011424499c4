import LeaseFleet.Stream.Config

/-!
# Clean-up of former streams

What happens to the leases of streams that are no longer tracked.
-/

namespace LeaseFleet

/-- How the leases of former streams are cleaned up. Waiting times are in milliseconds. -/
inductive DeletionStrategy where
  /-- A former stream is forgotten and its leases stay. -/
  | keep
  /-- A former stream is deleted when it has been missing for that long. -/
  | afterAbsence (wait : Nat)
  /-- Only the named streams are deleted, when they have been missing for that long. -/
  | named (streams : Option (List StreamIdentifier)) (wait : Nat)
  deriving DecidableEq, Repr

namespace DeletionStrategy

/-- How long a stream has to be missing before it is deleted. -/
def waitPeriod? : DeletionStrategy → Option Nat
  | keep => none
  | afterAbsence wait => some wait
  | named _ wait => some wait

def namedStreams : DeletionStrategy → List StreamIdentifier
  | named (some streams) _ => streams
  | _ => []

end DeletionStrategy

end LeaseFleet
