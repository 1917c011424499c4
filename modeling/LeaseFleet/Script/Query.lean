import LeaseFleet.Lease.Token
import LeaseFleet.Store.Table
import LeaseFleet.Stream.Deletion
import LeaseFleet.Stream.Shard
import LeaseFleet.Telemetry
import LeaseFleet.Utilization.Summary

/-!
# Questions to the surroundings

Everything that a worker asks of the world outside itself: the shared stores, the streams and
their shards, the clocks, fresh tokens, random numbers, and the taking down of measurements.
-/

namespace LeaseFleet

/-- A question to the surroundings of a worker. -/
inductive Query where
  /-- A call of the lease store. -/
  | store (call : StoreCall)
  /-- The published worker summaries. -/
  | summaries
  | publish (summary : WorkerSummary)
  /-- The current shards of a stream. -/
  | shards (config : StreamConfig)
  /-- The streams to consume. -/
  | trackedStreams
  | deletionStrategy
  /-- Where to start on a stream that only the lease table knows. -/
  | orphanPosition
  /-- Milliseconds on a clock that never goes back. -/
  | clock
  /-- Milliseconds since the epoch. -/
  | epoch
  /-- A token that was never given before. -/
  | token
  /-- A random number between two numbers, both included. -/
  | draw (low high : Nat)
  | record (measurement : Measurement)
  deriving DecidableEq

namespace Query

@[reducible] def Reply : Query → Type
  | store call => call.Reply
  | summaries => Except StoreError (List WorkerSummary)
  | publish _ => Except StoreError Unit
  | shards _ => Except String (List ShardDescription)
  | trackedStreams => List StreamConfig
  | deletionStrategy => DeletionStrategy
  | orphanPosition => InitialPosition
  | clock => Nat
  | epoch => Nat
  | token => Token
  | draw _ _ => Nat
  | record _ => Unit

end Query

end LeaseFleet
