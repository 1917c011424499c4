import LeaseFleet.Simulation.Machine

/-!
# A signal and a sleeper

One task sleeps unless a signal stops it, others change the signal at given times.
-/

namespace LeaseFleet

/-- A signal that tells to stop. -/
structure Signal where
  raised : Bool := false
  /-- Whether anybody can still change it. -/
  connected : Bool := true
  deriving DecidableEq, Repr

namespace Signal

/-- Raises or lowers the signal, as long as anybody can. -/
def set (raised : Bool) (signal : Signal) : Signal :=
  if signal.connected then { signal with raised } else signal

/-- Nobody can change the signal from now on. -/
def disconnect (signal : Signal) : Signal := { signal with connected := false }

/-- What the tasks around a signal do. -/
inductive Task where
  /-- Sleeps unless it is stopped. -/
  | sleep (millis : Nat)
  /-- Changes the signal at a time. -/
  | change (time : Nat) (f : Signal → Signal)

/-- The actions of a task; the sleeper ends with whether it slept to the end and when it ended. -/
def Task.behaviour : Task → Script Signal Task (Task ⊕ (Bool × Nat))
  | sleep millis => do
    let complete ← .sleep millis Signal.raised .done
    return .inr (complete, ← Script.query .clock)
  | change time f => do
    let _ ← .sleep time (fun _ => false) .done
    Script.change f
    return .inr (true, time)

/-- Sleeps while the signal changes: whether the sleep was complete, and when it ended. -/
def sleepUnder (signal : Signal) (millis : Nat) (changes : List (Nat × (Signal → Signal))) :
    Option (Bool × Nat) :=
  let machine : Machine Signal Task (Bool × Nat) := { places := .ofList [("", signal)] }
  let (sleeper, machine) := machine.start Task.behaviour "" (.sleep millis)
  let machine := changes.foldl
    (fun machine entry =>
      (machine.start Task.behaviour "" (.change entry.1 entry.2)).2)
    machine
  (machine.await Task.behaviour [sleeper]).1.head?.join

end Signal

end LeaseFleet
