import LeaseFleet.Store.Error

/-!
# What a worker may fail with

The causes of a failed worker operation and their wording. A transient store failure and a failed
shard listing may succeed on another attempt.
-/

namespace LeaseFleet

/-- Why an operation of a worker failed. -/
inductive WorkerError where
  | store (cause : StoreError)
  /-- The worker did not come up within its attempts. -/
  | initialization (attempts : Nat) (reason : String)
  | configuration (reason : String)
  | shardDiscovery (stream reason : String)
  | taskRejected (executor reason : String)
  | shuttingDown
  | invalidState (action state : String)
  deriving DecidableEq, Repr

namespace WorkerError

def message : WorkerError → String
  | store cause => "Lease store error: " ++ cause.message
  | initialization attempts reason =>
    "Worker initialization failed after " ++ toString attempts ++ " attempts: " ++ reason
  | configuration reason => "Invalid configuration: " ++ reason
  | shardDiscovery stream reason =>
    "Shard discovery failed for stream " ++ stream ++ ": " ++ reason
  | taskRejected executor reason => "Executor " ++ executor ++ " rejected the task: " ++ reason
  | shuttingDown => "Worker is shutting down"
  | invalidState action state => "Worker cannot " ++ action ++ " while " ++ state

def isRetryable : WorkerError → Bool
  | store cause => cause.isRetryable
  | shardDiscovery _ _ => true
  | _ => false

end WorkerError

end LeaseFleet
