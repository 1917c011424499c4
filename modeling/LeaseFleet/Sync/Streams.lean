import LeaseFleet.Sync.Shards

/-!
# Stream sync

Reconciles the streams that a worker tracks with those that it is told to consume and those that
own leases. A new stream is synced before it counts as tracked. A stream that is no longer to be
consumed is forgotten or, after a waiting time, deleted together with its leases; when it comes
back before that, nothing happens to it.
-/

namespace LeaseFleet

/-- The tracked streams and what is known about them. -/
structure Synchronizer where
  sync : ShardSync
  /-- The least time between two passes, in milliseconds. -/
  interval : Nat
  arns : ArnBook
  streams : SortedMap StreamIdentifier StreamConfig := .empty
  /-- The streams that wait for their deletion, and since when they have been missing. -/
  stale : SortedMap StreamIdentifier Nat := .empty
  /-- When the last pass ended. -/
  lastSync : Option Nat := none
  /-- Whether the streams of the lease table have been taken in. -/
  reconciled : Bool := false
  deriving DecidableEq

namespace Synchronizer

def isDue (synchronizer : Synchronizer) (now : Nat) : Bool :=
  match synchronizer.lastSync with
  | none => true
  | some last => synchronizer.interval ≤ now - last

/-- The streams to consume, by identifier; a single-stream worker knows only the first. -/
def streamsToConsume (synchronizer : Synchronizer) (configs : List StreamConfig) :
    SortedMap StreamIdentifier StreamConfig :=
  let known := if synchronizer.sync.multi then configs else configs.take 1
  .ofList (known.map fun config => (config.stream, config))

/-- Starts to track a stream, under an ARN from the book if it has none of its own. -/
def activate (synchronizer : Synchronizer) (config : StreamConfig) : Synchronizer :=
  match config.arn with
  | some _ =>
    { synchronizer with streams := synchronizer.streams.insert config.stream config }
  | none =>
    let (arn, arns) := synchronizer.arns.arnFor config.stream
    { synchronizer with
      arns
      streams := synchronizer.streams.insert config.stream (config.withArn arn) }

/-! ## Streams of the lease table -/

/-- The streams that own leases; an identifier that cannot be read is passed over. -/
def streamsOfLeases (leases : List Lease) : SortedSet StreamIdentifier :=
  SortedSet.ofList (leases.filterMap fun lease =>
    lease.stream.bind fun text => (StreamIdentifier.ofMulti text).toOption)

/-- The streams that own leases and are neither tracked nor to be consumed. -/
def orphans (synchronizer : Synchronizer) (wanted : SortedMap StreamIdentifier StreamConfig)
    (leases : List Lease) : List StreamIdentifier :=
  (streamsOfLeases leases).toList.filter fun stream =>
    !synchronizer.streams.contains stream && !wanted.contains stream

/-- Tracks the orphans from the given position. -/
def adoptOrphans (synchronizer : Synchronizer)
    (wanted : SortedMap StreamIdentifier StreamConfig) (position : InitialPosition)
    (leases : List Lease) : Synchronizer :=
  (synchronizer.orphans wanted leases).foldl
    (fun synchronizer stream => synchronizer.activate (.ofStream stream position))
    { synchronizer with reconciled := true }

/-! ## Streams that are no longer to be consumed -/

/-- The tracked streams that are not to be consumed. -/
def absentStreams (synchronizer : Synchronizer)
    (wanted : SortedMap StreamIdentifier StreamConfig) : List StreamIdentifier :=
  synchronizer.streams.keys.filter fun stream => !wanted.contains stream

/-- Notes since when streams have been missing; an earlier note stays. -/
def markStale (synchronizer : Synchronizer) (streams : List StreamIdentifier) (now : Nat) :
    Synchronizer :=
  { synchronizer with
    stale := streams.foldl (fun stale stream => stale.insertIfNew stream now)
      synchronizer.stale }

/-- Stops tracking streams, their leases staying as they are. -/
def forget (synchronizer : Synchronizer) (streams : List StreamIdentifier) : Synchronizer :=
  { synchronizer with
    streams := streams.foldl SortedMap.erase synchronizer.streams }

/-- The streams that are to be consumed again are no longer stale. -/
def revive (synchronizer : Synchronizer) (wanted : SortedMap StreamIdentifier StreamConfig) :
    Synchronizer :=
  { synchronizer with
    stale := synchronizer.stale.filter fun stream _ => !wanted.contains stream }

/-- Applies a strategy to the streams that are missing, and returns those that were
forgotten. -/
def applyStrategy (synchronizer : Synchronizer)
    (wanted : SortedMap StreamIdentifier StreamConfig) (strategy : DeletionStrategy)
    (now : Nat) : List StreamIdentifier × Synchronizer :=
  let absent := synchronizer.absentStreams wanted
  match strategy with
  | .keep => (absent, (synchronizer.forget absent).revive wanted)
  | .afterAbsence _ => ([], (synchronizer.markStale absent now).revive wanted)
  | .named _ _ =>
    let missing := strategy.namedStreams.filter fun stream => !wanted.contains stream
    ([], (synchronizer.markStale missing now).revive wanted)

/-- The stale streams whose waiting time is over. -/
def expiredStreams (synchronizer : Synchronizer) (strategy : DeletionStrategy) (now : Nat) :
    List StreamIdentifier :=
  match strategy.waitPeriod? with
  | none => []
  | some wait =>
    (synchronizer.stale.entries.filter fun entry => decide (wait ≤ now - entry.2)).map (·.1)

/-- Nothing is known any more about a stream whose leases are gone. -/
def dropStream (synchronizer : Synchronizer) (stream : StreamIdentifier) : Synchronizer :=
  { synchronizer with
    streams := synchronizer.streams.erase stream
    stale := synchronizer.stale.erase stream
    arns := synchronizer.arns.invalidate stream }

/-! ## Passes -/

/-- The set of streams whose tracking has changed. -/
abbrev Changed := SortedSet StreamIdentifier

variable {σ Job : Type}

/-- Takes in the streams of the lease table and counts the orphans among them. -/
def takeInLeases (synchronizer : Synchronizer) (leases : List Lease) :
    Script σ Job (Nat × Synchronizer) := do
  let wanted := synchronizer.streamsToConsume (← Script.query .trackedStreams)
  let position ← Script.query .orphanPosition
  return ((synchronizer.orphans wanted leases).length,
    synchronizer.adoptOrphans wanted position leases)

/-- Takes in the streams of the lease table, unless that has been done. -/
def reconcile (synchronizer : Synchronizer) (stopped : σ → Bool) :
    Script σ Job (Except WorkerError Synchronizer) := do
  if synchronizer.sync.multi && !synchronizer.reconciled then
    match ← synchronizer.sync.retry.store stopped .list with
    | .error error => return .error error
    | .ok leases =>
      let (_, synchronizer) ← synchronizer.takeInLeases leases
      return .ok synchronizer
  else return .ok synchronizer

/-- Syncs new streams one after another; one whose sync fails is left for the next pass. -/
def syncNewStreams (stopped : σ → Bool) :
    List StreamConfig → Synchronizer → Changed → Script σ Job (Changed × Synchronizer)
  | [], synchronizer, changed => return (changed, synchronizer)
  | config :: rest, synchronizer, changed => do
    match ← synchronizer.sync.syncStream stopped config with
    | .ok _ =>
      syncNewStreams stopped rest (synchronizer.activate config)
        (changed.insert config.stream ())
    | .error _ => syncNewStreams stopped rest synchronizer changed

/-- Deletes the leases of streams one after another; a stream whose deletion fails is left for
the next pass. -/
def deleteStreams (stopped : σ → Bool) :
    List StreamIdentifier → Synchronizer → Changed → Script σ Job (Changed × Synchronizer)
  | [], synchronizer, changed => return (changed, synchronizer)
  | stream :: rest, synchronizer, changed => do
    match ← synchronizer.sync.deleteStreamLeases stopped stream with
    | .ok _ =>
      deleteStreams stopped rest (synchronizer.dropStream stream) (changed.insert stream ())
    | .error _ => deleteStreams stopped rest synchronizer changed

/-- Deals with the streams that are no longer to be consumed. -/
def retireStreams (synchronizer : Synchronizer) (stopped : σ → Bool)
    (wanted : SortedMap StreamIdentifier StreamConfig) (changed : Changed) :
    Script σ Job (Changed × Synchronizer) := do
  let now ← Script.query .clock
  let strategy ← Script.query .deletionStrategy
  let (forgotten, synchronizer) := synchronizer.applyStrategy wanted strategy now
  deleteStreams stopped (synchronizer.expiredStreams strategy now) synchronizer
    (SortedSet.insertAll changed forgotten)

/-- The streams to consume that are not tracked yet, in order. -/
def newStreams (synchronizer : Synchronizer)
    (wanted : SortedMap StreamIdentifier StreamConfig) : List StreamConfig :=
  (wanted.filter fun stream _ => !synchronizer.streams.contains stream).values

/-- Runs one pass and returns the streams whose tracking has changed. Without force, nothing
happens before a pass is due. -/
def runPass (synchronizer : Synchronizer) (stopped : σ → Bool) (force : Bool) :
    Script σ Job (Except WorkerError Changed × Synchronizer) := do
  if !force && !synchronizer.isDue (← Script.query .clock) then
    return (.ok .empty, synchronizer)
  match ← synchronizer.reconcile stopped with
  | .error error => return (.error error, synchronizer)
  | .ok synchronizer =>
    let wanted := synchronizer.streamsToConsume (← Script.query .trackedStreams)
    let (changed, synchronizer) ←
      syncNewStreams stopped (synchronizer.newStreams wanted) synchronizer .empty
    let (changed, synchronizer) ←
      if synchronizer.sync.multi then synchronizer.retireStreams stopped wanted changed
      else pure (changed, synchronizer)
    let now ← Script.query .clock
    Script.gaugeNat .trackedStreams synchronizer.streams.size
    Script.record (.sample .streamSync)
    return (.ok changed, { synchronizer with lastSync := some now })

end Synchronizer

end LeaseFleet
