import LeaseFleet.Simulation.World

/-!
# A machine for scripts

Runs the scripts of several places in a simulated world. Tasks run one at a time, each until it
has to wait, in the order in which they were started or woken. A task waits for its time, for a
change of its place's state, or for the tasks that it has gathered. Time moves only when nothing
can run, and then straight to the next task whose time has come.
-/

namespace LeaseFleet

/-- A task: a script at a place, on its way to a next job or a result. -/
structure Task (σ Job Result : Type) where
  id : Nat
  /-- The task that was started for it and everything that it has gathered. -/
  family : Nat
  place : String
  script : Script σ Job (Job ⊕ Result)
  /-- Whether the question that comes next has had its delay. -/
  waited : Bool := false

/-- A task that waits for its time or for a stop. -/
structure Sleeper (σ Job Result : Type) where
  due : Nat
  task : Task σ Job Result
  stopped : σ → Bool
  next : Bool → Task σ Job Result

/-- A task that waits for a state in which it can go on. -/
structure Blocked (σ Job Result : Type) where
  task : Task σ Job Result
  ready : σ → Bool
  change : σ → σ
  next : σ → Task σ Job Result

/-- A task that waits for others. -/
structure Gathering (σ Job Result : Type) where
  task : Task σ Job Result
  /-- The tasks that have not ended yet. -/
  pending : List Nat

/-- A machine at work. -/
structure Machine (σ Job Result : Type) where
  world : World := {}
  places : SortedMap String σ := .empty
  /-- The tasks that can run, first come first. -/
  ready : List (Task σ Job Result) := []
  sleepers : List (Sleeper σ Job Result) := []
  blocked : List (Blocked σ Job Result) := []
  gatherings : List (Gathering σ Job Result) := []
  /-- The results of the tasks that have ended on their own. -/
  results : SortedMap Nat Result := .empty
  tasks : Nat := 0

namespace Machine

variable {σ Job Result : Type}

/-! ## Waking -/

/-- Lets a task run after all others, but next to those of its own family. -/
def enqueue (task : Task σ Job Result) (ready : List (Task σ Job Result)) :
    List (Task σ Job Result) :=
  let later := ready.reverse.takeWhile (·.family ≠ task.family)
  if later.length = ready.length then ready ++ [task]
  else ready.take (ready.length - later.length) ++ task :: later.reverse

/-- Lets several tasks run, in their order. -/
def enqueueAll (machine : Machine σ Job Result) (tasks : List (Task σ Job Result)) :
    Machine σ Job Result :=
  { machine with ready := tasks.foldl (fun ready task => enqueue task ready) machine.ready }

/-- The tasks that wait for a state of a place and can go on in this one, with the state after
they have done so. -/
def admitBlocked (place : String) : σ → List (Blocked σ Job Result) →
    σ × List (Task σ Job Result) × List (Blocked σ Job Result)
  | state, [] => (state, [], [])
  | state, waiting :: rest =>
    if waiting.task.place = place && waiting.ready state then
      let (after, woken, left) := admitBlocked place (waiting.change state) rest
      (after, waiting.next state :: woken, left)
    else
      let (after, woken, left) := admitBlocked place state rest
      (after, woken, waiting :: left)

/-- Gives a place another state, and wakes whoever waited for that. -/
def setPlace (machine : Machine σ Job Result) (place : String) (state : σ) :
    Machine σ Job Result :=
  let (state, admitted, blocked) := admitBlocked place state machine.blocked
  let isStopped (sleeper : Sleeper σ Job Result) : Bool :=
    sleeper.task.place = place && sleeper.stopped state
  let (stopped, sleepers) := machine.sleepers.partition isStopped
  let machine := { machine with places := machine.places.insert place state, blocked, sleepers }
  machine.enqueueAll (admitted ++ stopped.map fun sleeper => sleeper.next false)

/-- Changes the state of a place from outside. -/
def change (machine : Machine σ Job Result) (place : String) (f : σ → σ) :
    Machine σ Job Result :=
  match machine.places.get? place with
  | some state => machine.setPlace place (f state)
  | none => machine

/-- Lets a task run before all others. -/
def resume (machine : Machine σ Job Result) (task : Task σ Job Result) :
    Machine σ Job Result :=
  { machine with ready := task :: machine.ready }

/-- The gatherings without a task that has ended, and the tasks that need not wait any more. -/
def settleGatherings (ended : Nat) : List (Gathering σ Job Result) →
    List (Task σ Job Result) × List (Gathering σ Job Result)
  | [] => ([], [])
  | gathering :: rest =>
    let (complete, left) := settleGatherings ended rest
    let pending := gathering.pending.filter (· ≠ ended)
    if pending.isEmpty then (gathering.task :: complete, left)
    else (complete, { gathering with pending } :: left)

/-- Whether a task has been gathered by another one. -/
def isGathered (machine : Machine σ Job Result) (id : Nat) : Bool :=
  machine.gatherings.any (·.pending.contains id)

/-- Ends a task. Its result is noted, unless it was gathered: then nobody asks for it. -/
def finish (machine : Machine σ Job Result) (task : Task σ Job Result) (result : Result) :
    Machine σ Job Result :=
  let (complete, gatherings) := settleGatherings task.id machine.gatherings
  { machine with
    gatherings
    results :=
      if machine.isGathered task.id then machine.results
      else machine.results.insert task.id result
    ready := complete ++ machine.ready }

/-! ## Running -/

/-- What the jobs of a machine do: each leads to a next job or to a result. -/
abbrev Behaviour (σ Job Result : Type) := Job → Script σ Job (Job ⊕ Result)

/-- New tasks for jobs at a place, of a given family or each of its own. -/
def newTasks (behaviour : Behaviour σ Job Result) (place : String) (family : Option Nat) :
    (first : Nat) → List Job → List (Task σ Job Result)
  | _, [] => []
  | first, job :: rest =>
    { id := first, family := family.getD first, place, script := behaviour job } ::
      newTasks behaviour place family (first + 1) rest

def putToSleep (machine : Machine σ Job Result) (task : Task σ Job Result) (millis : Nat)
    (stopped : σ → Bool) (next : Bool → Task σ Job Result) : Machine σ Job Result :=
  { machine with
    sleepers := machine.sleepers ++
      [{ due := machine.world.clock + millis, task, stopped, next }] }

def answer (machine : Machine σ Job Result) (task : Task σ Job Result) (query : Query)
    (next : query.Reply → Script σ Job (Job ⊕ Result)) : Machine σ Job Result :=
  match machine.world.answer task.waited query with
  | .now reply world =>
    { machine with world }.resume { task with script := next reply, waited := false }
  | .later millis world =>
    let again := { task with waited := true }
    if millis = 0 then { machine with world }.resume again
    else { machine with world }.putToSleep task millis (fun _ => false) fun _ => again

/-- Does the next action of a task, whose place is in the given state. -/
def act (behaviour : Behaviour σ Job Result) (machine : Machine σ Job Result)
    (task : Task σ Job Result) (state : σ) : Machine σ Job Result :=
  match task.script with
  | .done (.inl job) => machine.resume { task with script := behaviour job }
  | .done (.inr result) => machine.finish task result
  | .ask query next => machine.answer task query next
  | .step ready change next =>
    let following := fun found => { task with script := next found }
    if ready state then (machine.setPlace task.place (change state)).resume (following state)
    else
      { machine with
        blocked := machine.blocked ++ [{ task, ready, change, next := following }] }
  | .sleep millis stopped next =>
    let following := fun complete => { task with script := next complete }
    if stopped state then machine.resume (following false)
    else if millis = 0 then machine.resume (following true)
    else machine.putToSleep task millis stopped following
  | .spawn job next =>
    { machine with
      tasks := machine.tasks + 1
      ready := { task with script := next } ::
        (machine.ready ++ newTasks behaviour task.place none machine.tasks [job]) }
  | .gather jobs next =>
    let following := { task with script := next }
    let members := newTasks behaviour task.place (some task.family) machine.tasks jobs
    if members.isEmpty then machine.resume following
    else
      { machine with
        tasks := machine.tasks + members.length
        gatherings := { task := following, pending := members.map (·.id) } :: machine.gatherings
        ready := members ++ machine.ready }

/-- Does one action of the first task that can run. -/
def advance (behaviour : Behaviour σ Job Result) (machine : Machine σ Job Result) :
    Machine σ Job Result :=
  match machine.ready with
  | [] => machine
  | task :: others =>
    let machine := { machine with ready := others }
    match machine.places.get? task.place with
    | some state => machine.act behaviour task state
    | none => machine

def nextDue (machine : Machine σ Job Result) : Option Nat :=
  (machine.sleepers.map (·.due)).min?

/-- Moves the clock to a time and wakes every sleeper whose time has come. -/
def moveTo (machine : Machine σ Job Result) (time : Nat) : Machine σ Job Result :=
  let (woken, sleepers) := machine.sleepers.partition fun sleeper => decide (sleeper.due ≤ time)
  let machine := { machine with world := { machine.world with clock := time }, sleepers }
  machine.enqueueAll (woken.map fun sleeper => sleeper.next true)

def actionLimit : Nat := 1000000000000

/-- Runs until nothing can run any more. -/
def settleWithin (behaviour : Behaviour σ Job Result) :
    Nat → Machine σ Job Result → Machine σ Job Result
  | 0, machine => machine
  | limit + 1, machine =>
    if machine.ready.isEmpty then machine
    else settleWithin behaviour limit (machine.advance behaviour)

/-- Runs until nothing can run any more. -/
def settle (behaviour : Behaviour σ Job Result) (machine : Machine σ Job Result) :
    Machine σ Job Result := settleWithin behaviour actionLimit machine

/-- Runs, and lets time pass up to a limit, until a goal is reached. -/
def driveWithin (behaviour : Behaviour σ Job Result) (goal : Machine σ Job Result → Bool)
    (allowed : Nat → Bool) : Nat → Machine σ Job Result → Machine σ Job Result
  | 0, machine => machine
  | limit + 1, machine =>
    let machine := machine.settle behaviour
    if goal machine then machine
    else match machine.nextDue with
      | none => machine
      | some due =>
        if allowed due then driveWithin behaviour goal allowed limit (machine.moveTo due)
        else machine

def pass (behaviour : Behaviour σ Job Result) (millis : Nat) (machine : Machine σ Job Result) :
    Machine σ Job Result :=
  let time := machine.world.clock + millis
  let machine := machine.driveWithin behaviour (fun _ => false) (· ≤ time) actionLimit
  machine.moveTo time

def start (behaviour : Behaviour σ Job Result) (place : String) (job : Job)
    (machine : Machine σ Job Result) : Nat × Machine σ Job Result :=
  (machine.tasks,
    { machine with
      tasks := machine.tasks + 1
      ready := machine.ready ++ newTasks behaviour place none machine.tasks [job] })

/-- Runs until the given tasks have ended, and returns their results. -/
def await (behaviour : Behaviour σ Job Result) (ids : List Nat)
    (machine : Machine σ Job Result) : List (Option Result) × Machine σ Job Result :=
  let machine := machine.driveWithin behaviour
    (fun machine => ids.all fun id => machine.results.contains id) (fun _ => true) actionLimit
  (ids.map machine.results.get?, machine)

/-- Does a job and runs until it has ended. -/
def run (behaviour : Behaviour σ Job Result) (place : String) (job : Job)
    (machine : Machine σ Job Result) : Option Result × Machine σ Job Result :=
  let (id, machine) := machine.start behaviour place job
  let (results, machine) := machine.await behaviour [id]
  (results.head?.join, machine)

end Machine

end LeaseFleet
