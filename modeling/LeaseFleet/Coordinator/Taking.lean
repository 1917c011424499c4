import LeaseFleet.Coordinator.Holding

/-!
# Taking leases

A taking cycle scans the table, adopts the leases that have been assigned to this worker, and then
claims free and expired leases up to a fair share: the number of leases that every living worker
would hold if all held the same number.
-/

namespace LeaseFleet.Coordinator

/-- Works out who is alive; without summaries, the leases alone decide. -/
def findLiving (leases : List Lease) : CoordinatorScript (SortedSet String) := do
  let state ← Script.look
  let now ← Script.query .clock
  let summaries := match ← Script.query .summaries with
    | .ok summaries => summaries
    | .error _ => []
  let epoch ← Script.query .epoch
  let live := state.livingWorkers leases now summaries epoch
  Script.change fun state => { state with live }
  return live

def scan (leases : List Lease) : CoordinatorScript Unit := do
  let now ← Script.query .clock
  Script.change fun state => state.observe leases now

/-- The leases that name this worker and are not held. -/
def assigned (state : Coordinator) (leases : List Lease) : List Lease :=
  leases.filter fun lease => lease.isOwnedBy state.workerId && !state.held.contains lease.leaseKey

/-- The leases that nobody owns and that are not held. -/
def unowned (state : Coordinator) (leases : List Lease) : List Lease :=
  leases.filter fun lease => lease.isUnowned && !state.held.contains lease.leaseKey

def stealable (state : Coordinator) (leases : List Lease) (now : Nat) : List Lease :=
  leases.filter fun lease =>
    !lease.isUnowned && !lease.isOwnedBy state.workerId && state.isExpired lease now

/-- How many leases the worker should hold. -/
def target (settings : LeaseSettings) (leases workers : Nat) : Nat :=
  let workers := max workers 1
  let fairShare := (leases + workers - 1) / workers
  match settings.maxLeases with
  | some most => min fairShare most
  | none => fairShare

/-- Claims leases until as many as allowed are won, and returns how many more are allowed. -/
def claim : (capacity : Nat) → List Lease → CoordinatorScript (Except WorkerError Nat)
  | 0, _ => return .ok 0
  | capacity, [] => return .ok capacity
  | capacity + 1, lease :: rest => do
    match ← acquire lease with
    | .error error => return .error error
    | .ok true => claim capacity rest
    | .ok false => claim (capacity + 1) rest

/-- Claims free leases, and then expired ones, up to the capacity. -/
def claimShare (free : List Lease) (expired : List Lease) (capacity : Nat) :
    CoordinatorScript (Except WorkerError Unit) := do
  match ← claim capacity free with
  | .error error => return .error error
  | .ok left =>
    let state ← Script.look
    match ← claim (min left state.settings.maxSteals) expired with
    | .error error => return .error error
    | .ok _ => return .ok ()

def take : CoordinatorScript (Except WorkerError Unit) := do
  match ← store .list with
  | .error error => return .error error
  | .ok leases =>
    scan leases
    let live ← findLiving leases
    let before ← Script.look
    match ← acquireAll (before.assigned leases) with
    | .error error => return .error error
    | .ok () =>
      let state ← Script.look
      let capacity := target state.settings leases.length live.size - state.held.size
      if capacity = 0 then return .ok ()
      let now ← Script.query .clock
      claimShare (before.unowned leases) (state.stealable leases now) capacity

end LeaseFleet.Coordinator
