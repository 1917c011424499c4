import LeaseFleet.Script.Basic
import LeaseFleet.Worker.Error

/-!
# Retries

A call that failed in a way that may pass is made again after a pause. The pauses grow with the
number of the attempt up to a limit, each is cut by a random part of at most one half, and a
shutdown ends a pause and with it the attempts.
-/

namespace LeaseFleet

/-- How often a call is made and how long the pauses are, in milliseconds. -/
structure RetryPolicy where
  maxAttempts : Nat
  baseBackoff : Nat
  maxBackoff : Nat
  deriving DecidableEq, Repr

namespace RetryPolicy

/-- A policy makes at least one attempt; the base pause, if not given, is 200 ms, and the longest
pause is at least the given base. -/
def ofLimits (maxAttempts baseBackoff maxBackoff : Nat) : RetryPolicy where
  maxAttempts := max maxAttempts 1
  baseBackoff := if baseBackoff = 0 then 200 else baseBackoff
  maxBackoff := max maxBackoff baseBackoff

/-- The policy where none is given. -/
def standard : RetryPolicy := ofLimits 5 200 5000

/-- The longest pause after the given number of earlier pauses. -/
def longestPause (policy : RetryPolicy) (earlier : Nat) : Nat :=
  min (policy.baseBackoff * (earlier + 1)) policy.maxBackoff

/-- The shortest pause after the given number of earlier pauses. -/
def shortestPause (policy : RetryPolicy) (earlier : Nat) : Nat := policy.longestPause earlier / 2

/-- All pauses that are possible after the given number of earlier ones. -/
def pauses (policy : RetryPolicy) (earlier : Nat) : List Nat :=
  (List.range (policy.longestPause earlier + 1 - policy.shortestPause earlier)).map
    (policy.shortestPause earlier + ·)

theorem shortestPause_le_longestPause (policy : RetryPolicy) (earlier : Nat) :
    policy.shortestPause earlier ≤ policy.longestPause earlier := Nat.div_le_self _ _

variable {σ Job α : Type}

/-- Makes a call; while attempts are left, a failure that may pass is followed by a pause and the
next attempt. -/
def attempts (policy : RetryPolicy) (stopped : σ → Bool)
    (call : Script σ Job (Except WorkerError α)) :
    (left earlier : Nat) → Script σ Job (Except WorkerError α)
  | 0, _ => call
  | left + 1, earlier => do
    match ← call with
    | .ok value => return .ok value
    | .error error =>
      if error.isRetryable then
        let pause ← Script.query
          (.draw (policy.shortestPause earlier) (policy.longestPause earlier))
        if ← .sleep pause stopped .done then attempts policy stopped call left (earlier + 1)
        else return .error .shuttingDown
      else return .error error

def run (policy : RetryPolicy) (stopped : σ → Bool)
    (call : Script σ Job (Except WorkerError α)) : Script σ Job (Except WorkerError α) :=
  policy.attempts stopped call (policy.maxAttempts - 1) 0

def store (policy : RetryPolicy) (stopped : σ → Bool) (storeCall : StoreCall) :
    Script σ Job (Except WorkerError storeCall.Answer) :=
  policy.run stopped do
    return (← Script.call storeCall).mapError WorkerError.store

end RetryPolicy

end LeaseFleet
