import LeaseFleet.Store.Table

/-!
# Faults

Disturbances that are armed for calls of the shared stores. A call takes the first armed fault that
fits it, and takes it up once.
-/

namespace LeaseFleet

/-- The kinds of lease store calls. -/
inductive CallKind where
  | list
  | create
  | update
  | delete
  | isEmpty
  deriving DecidableEq, Repr

def StoreCall.kind : StoreCall → CallKind
  | list => .list
  | create _ => .create
  | update _ _ => .update
  | delete _ => .delete
  | isEmpty => .isEmpty

/-- The kinds of calls of the summary board. -/
inductive BoardCall where
  | publish
  | list
  deriving DecidableEq, Repr

/-- What happens to a call of the lease store. -/
inductive Disturbance where
  /-- It fails. -/
  | fail (error : StoreError)
  /-- It is held up for some milliseconds. -/
  | delay (millis : Nat)
  /-- Another worker takes over the lease just before. -/
  | race (owner : String)
  /-- The lease is deleted just before. -/
  | vanish
  deriving DecidableEq, Repr

/-- An armed fault. -/
structure Fault (Kind Effect : Type) where
  kind : Kind
  /-- The only key that the fault is for, if there is one. -/
  key : Option String
  effect : Effect
  /-- How often it can still be taken up. -/
  times : Nat

/-- The armed faults, in the order of arming. -/
abbrev FaultPlan (Kind Effect : Type) := List (Fault Kind Effect)

namespace FaultPlan

variable {Kind Effect : Type} [DecidableEq Kind]

def fits (kind : Kind) (key : Option String) (fault : Fault Kind Effect) : Bool :=
  decide (0 < fault.times) && decide (fault.kind = kind) &&
    (fault.key.isNone || decide (fault.key = key))

/-- Takes up the first fault that fits a call. -/
def take (kind : Kind) (key : Option String) :
    FaultPlan Kind Effect → Option (Effect × FaultPlan Kind Effect)
  | [] => none
  | fault :: rest =>
    if fits kind key fault then
      some (fault.effect, { fault with times := fault.times - 1 } :: rest)
    else (take kind key rest).map fun taken => (taken.1, fault :: taken.2)

def remaining (plan : FaultPlan Kind Effect) : Nat :=
  plan.foldl (fun sum fault => sum + fault.times) 0

end FaultPlan

end LeaseFleet
