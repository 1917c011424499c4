import LeaseFleet.Proofs.Fleet.RemainingLoops
import LeaseFleet.Proofs.Script.SharedState

/-!
# The pool of consumers

A crew with a limited number of places hosts its consumers as tasks. In any order consumers are created,
asked to stop and let go, and their tasks go on (`Pool.Run`). A consumer takes a place when it is created
and gives it back when its task ends, which happens once and only for a cause; so the tasks and the free
places are always as many as the pool had places at first, and each consumer ends with the reason that it
was given first (`consumers_accounted`).
-/

namespace LeaseFleet

/-! ## The crew, number by number -/

namespace Crew

variable {crew later : Crew} {number other free : Nat} {shard : AssignedShard}

/-- A change of one consumer leaves the others as they are. -/
theorem member?_modify_eq_some_iff {f : Consumer → Consumer} {after : Consumer} :
    (crew.modify number f).member? other = some after ↔
      ∃ before, crew.member? other = some before ∧
        (if other = number then f before else before) = after := by
  unfold modify member?
  rw [List.getElem?_modify, Option.map_eq_map, Option.map_eq_some_iff]
  simp only [eq_comm]

theorem member?_modify_eq_none_iff {f : Consumer → Consumer} :
    (crew.modify number f).member? other = none ↔ crew.member? other = none := by
  simp [modify, member?]

theorem mustStop_iff : crew.mustStop number = true ↔
    ∃ consumer, crew.member? number = some consumer ∧ consumer.mustStop = true :=
  Option.any_eq_true _ _

theorem isStopped_iff : crew.isStopped number = true ↔
    ∃ consumer, crew.member? number = some consumer ∧ consumer.stopped = true :=
  Option.any_eq_true _ _

theorem mustStop_modify {f : Consumer → Consumer}
    (keeps : ∀ consumer, consumer.mustStop = true → (f consumer).mustStop = true)
    (cause : crew.mustStop other = true) : (crew.modify number f).mustStop other = true := by
  obtain ⟨consumer, known, cause⟩ := mustStop_iff.1 cause
  refine mustStop_iff.2 ⟨_, member?_modify_eq_some_iff.2 ⟨consumer, known, rfl⟩, ?_⟩
  split
  · exact keeps consumer cause
  · exact cause

/-- A crew without a free place starts nobody. -/
theorem start_of_full (places : crew.places = some 0) (refuses : crew.refuses shard = none) :
    crew.start shard = .error saturated := by
  unfold start
  simp only [places, refuses]

/-- A crew that refuses nobody starts a consumer as long as a place is free. -/
theorem start_of_free (places : crew.places = some (free + 1)) (refuses : crew.refuses shard = none) :
    crew.start shard = .ok (crew.members.length, { crew with
      places := some free
      members := crew.members ++ [{ leaseKey := shard.leaseKey, token := shard.token }] }) := by
  unfold start
  simp only [places, refuses]
  rfl

theorem eq_of_start (places : crew.places = some free) (refuses : crew.refuses shard = none)
    (started : crew.start shard = .ok (number, later)) :
    ∃ left, free = left + 1 ∧ later = { crew with
      places := some left
      members := crew.members ++ [{ leaseKey := shard.leaseKey, token := shard.token }] } := by
  cases free with
  | zero => cases (start_of_full places refuses).symm.trans started
  | succ left =>
    obtain ⟨-, same⟩ := Prod.mk.inj (Except.ok.inj ((start_of_free places refuses).symm.trans started))
    exact ⟨left, rfl, same.symm⟩

/-- A new consumer has no cause to stop yet. -/
theorem mustStop_of_start (started : crew.start shard = .ok (number, later)) :
    later.mustStop other = crew.mustStop other := by
  unfold mustStop
  rw [member?_of_start started]
  split
  · rename_i same
    rw [same, member?_length]
    rfl
  · rfl

theorem finish_eq (working : crew.isStopped number = false) : crew.finish number =
    { crew.modify number (fun consumer => { consumer with stopped := true }) with
      places := crew.places.map (· + 1) } := by
  unfold finish
  rw [working]
  rfl

/-- Whether somebody can ask the consumer to stop. -/
def isHeld (crew : Crew) (number : Nat) : Bool := (crew.member? number).any (!·.abandoned)

theorem isHeld_iff : crew.isHeld number = true ↔
    ∃ consumer, crew.member? number = some consumer ∧ consumer.abandoned = false := by
  simp [isHeld, Option.any_eq_true]

end Crew

/-! ## The task of a consumer -/

/-- Nothing is left to do but to take down measurements. -/
inductive Script.Spent {σ Job α : Type} : Script σ Job α → Prop
  | done (value : α) : Spent (.done value)
  | record {measurement : Measurement} {next : Unit → Script σ Job α} (rest : Spent (next ())) :
      Spent (.ask (.record measurement) next)

namespace Worker

variable {worker now : Worker} {number : Nat} {act : Act Worker} {rest : WorkerScript Unit}

/-- What a consumer does when it has a cause to stop. -/
def leave (number : Nat) : WorkerScript Unit := do
  let found ← .step (fun _ => true) (finishConsumer number) .done
  if !found.crew.isAsked number then Script.count .rejectedTasks 1

/-- Where the task of a consumer stands: it waits for a cause to stop, or has found one. -/
inductive AtWork (worker : Worker) (number : Nat) : WorkerScript Unit → Prop
  | waiting : AtWork worker number (consume number)
  | leaving (cause : worker.crew.mustStop number = true) : AtWork worker number (leave number)

theorem AtWork.mono {script : WorkerScript Unit} (stands : worker.AtWork number script)
    (keeps : worker.crew.mustStop number = true → now.crew.mustStop number = true) :
    now.AtWork number script := by
  cases stands with
  | waiting => exact .waiting
  | leaving cause => exact .leaving (keeps cause)

theorem not_spent_leave : ¬(leave number).Spent := by
  intro spent
  cases (show (Script.step _ _ _ : WorkerScript Unit).Spent from spent)

theorem finishConsumer_crew : (finishConsumer number worker).crew = worker.crew.finish number := by
  unfold finishConsumer reject
  split
  · split <;> rfl
  · rfl

/-- What the task of a consumer can do: find a cause to stop, or end after it has found one. -/
theorem AtWork.does_cases {script : WorkerScript Unit} (stands : worker.AtWork number script)
    (does : script.Does act rest) {time : Nat} (fits : act.Fits time worker) :
    (act.after worker = worker ∧ rest = leave number ∧ worker.crew.mustStop number = true) ∨
      (act.after worker = worker.finishConsumer number ∧ rest.Spent ∧
        worker.crew.mustStop number = true) := by
  cases stands with
  | waiting =>
    cases (show (Script.step _ _ _ : WorkerScript Unit).Does act rest from does) with
    | step _ _ permitted =>
      obtain rfl : _ = worker := fits
      exact .inl ⟨rfl, rfl, permitted⟩
  | leaving cause =>
    cases (show (Script.step _ _ _ : WorkerScript Unit).Does act rest from does) with
    | @step _ _ _ found _ =>
      obtain rfl : found = worker := fits
      refine .inr ⟨rfl, ?_, cause⟩
      dsimp only [Script.done_bind]
      split
      · exact .record (.done ())
      · exact .done ()

end Worker

/-! ## Runs of a pool -/

/-- A worker that hosts its consumers, and the tasks of those that were started and have not ended, by
number. -/
structure Pool where
  worker : Worker
  tasks : SortedMap Nat (WorkerScript Unit)

namespace Pool

/-- What happens to a pool. -/
inductive Event where
  | created (number : Nat) (shard : AssignedShard)
  /-- No consumer was created for the shard. -/
  | refused (shard : AssignedShard) (reason : String)
  | requested (number : Nat) (reason : ShutdownReason)
  /-- Nobody can ask the consumer any more. -/
  | dropped (number : Nat)
  /-- The task of a consumer went on and has not ended. -/
  | worked (number : Nat)
  /-- The task of a consumer ended with the reason to stop that the consumer had by then. -/
  | ended (number : Nat) (reason : Option ShutdownReason)

namespace Event

def isCreated : Event → Bool
  | created _ _ => true
  | _ => false

def isEnded : Event → Bool
  | ended _ _ => true
  | _ => false

/-- The reason that a consumer is given, if it is asked to stop. -/
def reasonFor? (number : Nat) : Event → Option ShutdownReason
  | requested other reason => if other = number then some reason else none
  | _ => none

/-- A consumer is asked or let go, or it ends. -/
def Concerns (number : Nat) : Event → Prop
  | requested other _ => other = number
  | dropped other => other = number
  | ended other _ => other = number
  | _ => False

end Event

/-- The reason of the first request that a consumer has received. -/
def firstReason (number : Nat) (trace : List Event) : Option ShutdownReason :=
  trace.findSome? (Event.reasonFor? number)

/-- A pool with so many places that nobody has taken yet. -/
def opened (worker : Worker) (size : Nat) : Pool where
  worker := { worker with crew := { places := some size } }
  tasks := .empty

/-- The pool after the crew has changed. -/
def withCrew (pool : Pool) (crew : Crew) : Pool :=
  { pool with worker := { pool.worker with crew } }

/-- What can happen to a pool next. Only a consumer that is held can be asked or let go; the task of a
consumer may also go on without doing anything. -/
inductive Step (pool : Pool) : Event → Pool → Prop
  | create {number : Nat} {shard : AssignedShard} {crew : Crew}
      (started : pool.worker.crew.start shard = .ok (number, crew)) :
      Step pool (.created number shard)
        { pool.withCrew crew with tasks := pool.tasks.insert number (Worker.consume number) }
  | refuse {shard : AssignedShard} {reason : String}
      (refused : pool.worker.crew.start shard = .error reason) : Step pool (.refused shard reason) pool
  | request {number : Nat} (held : pool.worker.crew.isHeld number = true) (reason : ShutdownReason) :
      Step pool (.requested number reason) (pool.withCrew (pool.worker.crew.ask number reason))
  | drop {number : Nat} (held : pool.worker.crew.isHeld number = true) :
      Step pool (.dropped number) (pool.withCrew (pool.worker.crew.abandon number))
  | poll {number : Nat} (runs : pool.tasks.contains number = true) : Step pool (.worked number) pool
  | work {number : Nat} {script rest : WorkerScript Unit} {act : Act Worker} (time : Nat)
      (runs : pool.tasks.get? number = some script) (does : script.Does act rest)
      (fits : act.Fits time pool.worker) (unfinished : ¬rest.Spent) :
      Step pool (.worked number) { worker := act.after pool.worker, tasks := pool.tasks.insert number rest }
  | finish {number : Nat} {script rest : WorkerScript Unit} {act : Act Worker} (time : Nat)
      (runs : pool.tasks.get? number = some script) (does : script.Does act rest)
      (fits : act.Fits time pool.worker) (spent : rest.Spent) :
      Step pool (.ended number (pool.worker.crew.reasonOf number))
        { worker := act.after pool.worker, tasks := pool.tasks.erase number }

/-- Runs of a pool from its opening on, with what has happened, oldest first. -/
inductive Run (worker : Worker) (size : Nat) : List Event → Pool → Prop
  | opened : Run worker size [] (.opened worker size)
  | snoc {trace : List Event} {pool after : Pool} {event : Event} (before : Run worker size trace pool)
      (step : pool.Step event after) : Run worker size (trace ++ [event]) after

variable {worker : Worker} {size number other : Nat} {trace : List Event} {event : Event} {pool after : Pool}

@[simp] theorem withCrew_crew (crew : Crew) : (pool.withCrew crew).worker.crew = crew := rfl

@[simp] theorem withCrew_tasks (crew : Crew) : (pool.withCrew crew).tasks = pool.tasks := rfl

theorem firstReason_snoc : firstReason number (trace ++ [event]) =
    (firstReason number trace).or (event.reasonFor? number) := by
  unfold firstReason
  rw [List.findSome?_append, List.findSome?_singleton]

theorem Event.reasonFor?_of_aside (aside : ¬event.Concerns number) : event.reasonFor? number = none := by
  cases event with
  | requested other reason => exact if_neg aside
  | _ => rfl

/-- Without an event that concerns it, a consumer was not given a reason. -/
theorem firstReason_of_aside (aside : ∀ event ∈ trace, ¬event.Concerns number) :
    firstReason number trace = none :=
  List.findSome?_eq_none_iff.2 fun event mem => Event.reasonFor?_of_aside (aside event mem)

theorem mem_of_firstReason {reason : ShutdownReason} (first : firstReason number trace = some reason) :
    .requested number reason ∈ trace := by
  obtain ⟨event, mem, given⟩ := List.exists_of_findSome?_eq_some first
  cases event with
  | requested other given? =>
    obtain ⟨rfl, same⟩ := Option.ite_none_right_eq_some.1 given
    exact Option.some.inj same ▸ mem
  | _ => cases given

/-- What has happened to a consumer shows in it, and it runs until it has stopped. -/
structure Accounts (trace : List Event) (number : Nat) (runs : Prop) (consumer : Consumer) : Prop where
  reason : consumer.reason = firstReason number trace
  dropped : consumer.abandoned = true → .dropped number ∈ trace
  runs_iff : runs ↔ consumer.stopped = false
  cause : consumer.stopped = true → consumer.mustStop = true
  ended : ∀ reason, .ended number reason ∈ trace ↔ consumer.stopped = true ∧ reason = consumer.reason

/-- At every instant of a run. -/
structure Sound (size : Nat) (trace : List Event) (pool : Pool) : Prop where
  places : ∃ free, pool.worker.crew.places = some free ∧ pool.tasks.size + free = size
  refuses : ∀ shard, pool.worker.crew.refuses shard = none
  counts : trace.countP Event.isCreated = trace.countP Event.isEnded + pool.tasks.size
  members : ∀ {number consumer}, pool.worker.crew.member? number = some consumer →
    Accounts trace number (pool.tasks.contains number = true) consumer
  strangers : ∀ {number}, pool.worker.crew.member? number = none →
    pool.tasks.get? number = none ∧ ∀ event ∈ trace, ¬event.Concerns number
  tasks : ∀ {number script}, pool.tasks.get? number = some script → pool.worker.AtWork number script

/-- Events that do not concern a consumer tell nothing new about it. -/
theorem Accounts.aside {runs : Prop} {consumer : Consumer} (accounts : Accounts trace number runs consumer)
    (aside : ¬event.Concerns number) : Accounts (trace ++ [event]) number runs consumer where
  reason := by rw [firstReason_snoc, Event.reasonFor?_of_aside aside, Option.or_none, accounts.reason]
  dropped abandoned := List.mem_append_left _ (accounts.dropped abandoned)
  runs_iff := accounts.runs_iff
  cause := accounts.cause
  ended reason := by
    rw [← accounts.ended, List.mem_append, List.mem_singleton]
    refine or_iff_left ?_
    rintro rfl
    exact aside rfl

/-- A new consumer has received nothing. -/
theorem Accounts.new {runs : Prop} (aside : ∀ event ∈ trace, ¬event.Concerns number) (running : runs)
    (leaseKey : String) (token : Token) : Accounts trace number runs { leaseKey, token } where
  reason := (firstReason_of_aside aside).symm
  dropped abandoned := by cases abandoned
  runs_iff := iff_of_true running rfl
  cause stopped := by cases stopped
  ended _ := iff_of_false (fun mem => aside _ mem rfl) fun stops => Bool.false_ne_true stops.1

/-- A consumer keeps the first reason; one that has stopped and is held was asked before. -/
theorem Accounts.ask {runs : Prop} {consumer : Consumer} (accounts : Accounts trace number runs consumer)
    (held : consumer.abandoned = false) (reason : ShutdownReason) :
    Accounts (trace ++ [.requested number reason]) number runs (consumer.ask reason) where
  reason := by simp [Consumer.ask, firstReason_snoc, Event.reasonFor?, accounts.reason]
  dropped abandoned := List.mem_append_left _ (accounts.dropped abandoned)
  runs_iff := accounts.runs_iff
  cause _ := by simp [Consumer.mustStop, Consumer.isAsked, Consumer.ask]
  ended last := by
    have kept (stopped : consumer.stopped = true) : (consumer.ask reason).reason = consumer.reason := by
      have asked : consumer.reason.isSome = true := by
        simpa [Consumer.mustStop, Consumer.isAsked, held] using accounts.cause stopped
      obtain ⟨earlier, isEarlier⟩ := Option.isSome_iff_exists.1 asked
      simp [Consumer.ask, isEarlier]
    rw [List.mem_append, or_iff_left (by simp), accounts.ended]
    exact and_congr_right fun stopped => by rw [kept stopped]

theorem Accounts.abandon {runs : Prop} {consumer : Consumer} (accounts : Accounts trace number runs consumer) :
    Accounts (trace ++ [.dropped number]) number runs { consumer with abandoned := true } where
  reason := by simp [firstReason_snoc, Event.reasonFor?, accounts.reason]
  dropped _ := List.mem_append_right _ (List.mem_singleton_self _)
  runs_iff := accounts.runs_iff
  cause _ := by simp [Consumer.mustStop]
  ended reason := by simpa using accounts.ended reason

/-- A consumer that ends has not ended before, and stops with its reason. -/
theorem Accounts.finish {runs goesOn : Prop} {consumer : Consumer}
    (accounts : Accounts trace number runs consumer) (running : runs) (must : consumer.mustStop = true)
    (gone : ¬goesOn) :
    Accounts (trace ++ [.ended number consumer.reason]) number goesOn { consumer with stopped := true } where
  reason := by simp [firstReason_snoc, Event.reasonFor?, accounts.reason]
  dropped abandoned := List.mem_append_left _ (accounts.dropped abandoned)
  runs_iff := iff_of_false gone Bool.true_eq_false.mp
  cause _ := must
  ended reason := by
    have working := accounts.runs_iff.1 running
    have before : .ended number reason ∉ trace := by simp [accounts.ended, working]
    simp [before]

/-- Where the crew stays as it is and nobody is concerned, a task may go on. -/
theorem Sound.quiet {tasks : SortedMap Nat (WorkerScript Unit)} (sound : Sound size trace pool)
    (aside : ∀ number, ¬event.Concerns number) (created : event.isCreated = false)
    (ended : event.isEnded = false) (length : tasks.size = pool.tasks.size)
    (runs : ∀ number, tasks.contains number = true ↔ pool.tasks.contains number = true)
    (stand : ∀ {number script}, tasks.get? number = some script → pool.worker.AtWork number script) :
    Sound size (trace ++ [event]) { pool with tasks } where
  places := by rw [length]; exact sound.places
  refuses := sound.refuses
  counts := by simp [List.countP_append, created, ended, sound.counts, length]
  members found := by
    rw [runs]
    exact (sound.members found).aside (aside _)
  strangers := by
    intro number unknown
    obtain ⟨absent, before⟩ := sound.strangers unknown
    refine ⟨?_, List.forall_mem_append.2 ⟨before, List.forall_mem_singleton.2 (aside number)⟩⟩
    have idle := runs number
    simpa [SortedMap.contains, absent] using idle
  tasks := stand

theorem Sound.create (sound : Sound size trace pool) {shard : AssignedShard} {crew : Crew}
    (started : pool.worker.crew.start shard = .ok (number, crew)) :
    Sound size (trace ++ [.created number shard])
      { pool.withCrew crew with tasks := pool.tasks.insert number (Worker.consume number) } := by
  obtain rfl := Crew.number_of_start started
  obtain ⟨absent, before⟩ := sound.strangers Crew.member?_length
  have length := SortedMap.size_insert_of_absent absent (Worker.consume pool.worker.crew.members.length)
  have isMember (other : Nat) : crew.member? other = if other = pool.worker.crew.members.length then
      some { leaseKey := shard.leaseKey, token := shard.token } else pool.worker.crew.member? other :=
    Crew.member?_of_start started
  have mustStop (other : Nat) : crew.mustStop other = pool.worker.crew.mustStop other :=
    Crew.mustStop_of_start started
  obtain ⟨free, isFree, total⟩ := sound.places
  obtain ⟨left, rfl, rfl⟩ := Crew.eq_of_start isFree (sound.refuses shard) started
  constructor
  case places => exact ⟨left, rfl, by rw [length]; omega⟩
  case refuses => exact sound.refuses
  case counts =>
    simp [List.countP_append, Event.isCreated, Event.isEnded, sound.counts, length]
    omega
  case members =>
    intro other consumer found
    have found := (isMember other).symm.trans found
    rw [SortedMap.contains_insert_iff]
    split at found
    · rename_i same
      obtain rfl := Option.some.inj found
      subst same
      exact .new (List.forall_mem_append.2 ⟨before, by simp [Event.Concerns]⟩) (.inl rfl) _ _
    · rename_i differs
      rw [or_iff_right differs]
      exact (sound.members found).aside id
  case strangers =>
    intro other unknown
    have unknown := (isMember other).symm.trans unknown
    split at unknown
    · cases unknown
    · rename_i differs
      obtain ⟨absent, before⟩ := sound.strangers unknown
      refine ⟨?_, List.forall_mem_append.2 ⟨before, by simp [Event.Concerns]⟩⟩
      rw [SortedMap.get?_insert_of_ne _ differs, absent]
  case tasks =>
    intro other script here
    refine SortedMap.forall_insert .waiting (fun differs here => ?_) here
    exact (sound.tasks here).mono (mustStop _).trans

/-- What happens to one consumer concerns nobody else. -/
theorem Sound.turn {f : Consumer → Consumer} {consumer : Consumer} (sound : Sound size trace pool)
    (known : pool.worker.crew.member? number = some consumer)
    (members : ∀ other, after.worker.crew.member? other = (pool.worker.crew.modify number f).member? other)
    (mustStop : ∀ consumer, consumer.mustStop = true → (f consumer).mustStop = true)
    (only : ∀ other, event.Concerns other → other = number)
    (told : Accounts (trace ++ [event]) number (after.tasks.contains number = true) (f consumer))
    (others : ∀ other, other ≠ number → after.tasks.get? other = pool.tasks.get? other)
    (here : ∀ script, after.tasks.get? number = some script → pool.tasks.get? number = some script)
    (places : ∃ free, after.worker.crew.places = some free ∧ after.tasks.size + free = size)
    (refuses : after.worker.crew.refuses = pool.worker.crew.refuses)
    (counts : (trace ++ [event]).countP Event.isCreated =
      (trace ++ [event]).countP Event.isEnded + after.tasks.size) :
    Sound size (trace ++ [event]) after where
  places := places
  refuses shard := by rw [refuses, sound.refuses]
  counts := counts
  members := by
    intro other member found
    obtain ⟨earlier, there, rfl⟩ := Crew.member?_modify_eq_some_iff.1 ((members other).symm.trans found)
    by_cases same : other = number
    · subst same
      obtain rfl := Option.some.inj (there.symm.trans known)
      rw [if_pos rfl]
      exact told
    · rw [if_neg same, SortedMap.contains, others other same]
      exact (sound.members there).aside (mt (only other) same)
  strangers := by
    intro other absent
    have unknown := Crew.member?_modify_eq_none_iff.1 ((members other).symm.trans absent)
    obtain ⟨idle, before⟩ := sound.strangers unknown
    have differs : other ≠ number := by
      rintro rfl
      rw [known] at unknown
      cases unknown
    refine ⟨(others other differs).trans idle, ?_⟩
    exact List.forall_mem_append.2 ⟨before, List.forall_mem_singleton.2 (mt (only other) differs)⟩
  tasks := by
    intro other script found
    have before : pool.tasks.get? other = some script := by
      by_cases same : other = number
      · subst same
        exact here script found
      · rwa [others other same] at found
    refine (sound.tasks before).mono fun cause => ?_
    have keeps : (pool.worker.crew.modify number f).mustStop other = true := Crew.mustStop_modify mustStop cause
    unfold Crew.mustStop at keeps ⊢
    rwa [members other]

/-- A consumer that is held is told something. -/
theorem Sound.tell {f : Consumer → Consumer} {consumer : Consumer} (sound : Sound size trace pool)
    (known : pool.worker.crew.member? number = some consumer)
    (mustStop : ∀ consumer, consumer.mustStop = true → (f consumer).mustStop = true)
    (created : event.isCreated = false) (ended : event.isEnded = false)
    (only : ∀ other, event.Concerns other → other = number)
    (told : Accounts (trace ++ [event]) number (pool.tasks.contains number = true) (f consumer)) :
    Sound size (trace ++ [event]) (pool.withCrew (pool.worker.crew.modify number f)) :=
  sound.turn known (fun _ => rfl) mustStop only told (fun _ _ => rfl) (fun _ => id) sound.places rfl
    (by simp [List.countP_append, created, ended, sound.counts])

theorem Sound.request (sound : Sound size trace pool) (held : pool.worker.crew.isHeld number = true)
    (reason : ShutdownReason) :
    Sound size (trace ++ [.requested number reason]) (pool.withCrew (pool.worker.crew.ask number reason)) := by
  obtain ⟨consumer, known, held⟩ := Crew.isHeld_iff.1 held
  refine sound.tell known ?_ rfl rfl (fun _ concerns => concerns.symm) ((sound.members known).ask held reason)
  intro consumer _
  simp [Consumer.mustStop, Consumer.isAsked, Consumer.ask]

theorem Sound.drop (sound : Sound size trace pool) (held : pool.worker.crew.isHeld number = true) :
    Sound size (trace ++ [.dropped number]) (pool.withCrew (pool.worker.crew.abandon number)) := by
  obtain ⟨consumer, known, -⟩ := Crew.isHeld_iff.1 held
  refine sound.tell known ?_ rfl rfl (fun _ concerns => concerns.symm) (sound.members known).abandon
  intro consumer _
  simp [Consumer.mustStop]

/-- The task of a consumer finds a cause to stop. -/
theorem Sound.work (sound : Sound size trace pool) {script rest : WorkerScript Unit} {act : Act Worker}
    {time : Nat} (runs : pool.tasks.get? number = some script) (does : script.Does act rest)
    (fits : act.Fits time pool.worker) (unfinished : ¬rest.Spent) :
    Sound size (trace ++ [.worked number])
      { worker := act.after pool.worker, tasks := pool.tasks.insert number rest } := by
  rcases (sound.tasks runs).does_cases does fits with ⟨same, rfl, cause⟩ | ⟨-, spent, -⟩
  · rw [same]
    refine sound.quiet (fun _ => id) rfl rfl (SortedMap.size_insert_of_found runs) (fun other => ?_) ?_
    · rw [SortedMap.contains_insert_iff]
      refine or_iff_right_of_imp ?_
      rintro rfl
      exact Option.isSome_of_eq_some runs
    · exact SortedMap.forall_insert (.leaving cause) fun _ here => sound.tasks here
  · exact absurd spent unfinished

/-- The task of a consumer ends and gives its place back. -/
theorem Sound.finish (sound : Sound size trace pool) {script rest : WorkerScript Unit} {act : Act Worker}
    {time : Nat} (runs : pool.tasks.get? number = some script) (does : script.Does act rest)
    (fits : act.Fits time pool.worker) (spent : rest.Spent) :
    Sound size (trace ++ [.ended number (pool.worker.crew.reasonOf number)])
      { worker := act.after pool.worker, tasks := pool.tasks.erase number } := by
  rcases (sound.tasks runs).does_cases does fits with ⟨-, rfl, cause⟩ | ⟨after, -, cause⟩
  · exact absurd spent Worker.not_spent_leave
  · rw [after]
    have running : pool.tasks.contains number = true := Option.isSome_of_eq_some runs
    obtain ⟨consumer, known, must⟩ := Crew.mustStop_iff.1 cause
    have accounts := sound.members known
    have isReason : pool.worker.crew.reasonOf number = consumer.reason := by simp [Crew.reasonOf, known]
    have working : pool.worker.crew.isStopped number = false := by
      simp [Crew.isStopped, known, accounts.runs_iff.1 running]
    have isCrew := Worker.finishConsumer_crew.trans (Crew.finish_eq working)
    have length := SortedMap.size_erase_of_found runs
    obtain ⟨free, isFree, total⟩ := sound.places
    have members (other : Nat) : (pool.worker.finishConsumer number).crew.member? other =
        (pool.worker.crew.modify number fun consumer => { consumer with stopped := true }).member? other := by
      rw [isCrew]
      rfl
    refine sound.turn known members (fun _ must => must) (fun _ same => same.symm) ?_ ?_ ?_
      ⟨free + 1, by simp [isCrew, isFree], by dsimp only; omega⟩ (by rw [isCrew]; rfl) ?_
    · rw [isReason]
      exact accounts.finish running must fun goesOn => (SortedMap.contains_erase_iff.1 goesOn).1 rfl
    · intro other differs
      refine Option.ext fun script => ?_
      rw [SortedMap.get?_erase_eq_some_iff, and_iff_right differs]
    · intro script found
      exact (SortedMap.get?_erase_eq_some_iff.1 found).2
    · simp [List.countP_append, Event.isCreated, Event.isEnded, sound.counts]
      omega

theorem Sound.step (sound : Sound size trace pool) (step : pool.Step event after) :
    Sound size (trace ++ [event]) after := by
  cases step with
  | create started => exact sound.create started
  | refuse refused => exact sound.quiet (fun _ => id) rfl rfl rfl (fun _ => .rfl) sound.tasks
  | request held reason => exact sound.request held reason
  | drop held => exact sound.drop held
  | poll runs => exact sound.quiet (fun _ => id) rfl rfl rfl (fun _ => .rfl) sound.tasks
  | work _ runs does fits unfinished => exact sound.work runs does fits unfinished
  | finish _ runs does fits spent => exact sound.finish runs does fits spent

theorem sound_opened (worker : Worker) (size : Nat) : Sound size [] (opened worker size) where
  places := ⟨size, rfl, Nat.zero_add _⟩
  refuses _ := rfl
  counts := rfl
  members found := by cases found
  strangers _ := ⟨rfl, List.forall_mem_nil _⟩
  tasks here := by cases here

theorem sound_of_run (run : Run worker size trace pool) : Sound size trace pool := by
  induction run with
  | opened => exact sound_opened worker size
  | snoc _ step sound => exact sound.step step

/-! ## What holds of all runs -/

/-- Without a free place every consumer is refused, and nothing else happens. -/
theorem Sound.of_refused (sound : Sound size trace pool) {shard : AssignedShard} {reason : String}
    (step : pool.Step (.refused shard reason) after) :
    pool.worker.crew.places = some 0 ∧ reason = Crew.saturated ∧ after = pool := by
  obtain ⟨free, isFree, -⟩ := sound.places
  cases step with
  | refuse refused =>
    cases free with
    | zero =>
      have full := Crew.start_of_full isFree (sound.refuses shard)
      exact ⟨isFree, Except.error.inj (refused.symm.trans full), rfl⟩
    | succ free => cases refused.symm.trans (Crew.start_of_free isFree (sound.refuses shard))

/-- With a free place a consumer is created, whose task is the one job that the worker starts. -/
theorem Sound.of_created (sound : Sound size trace pool) {shard : AssignedShard}
    (step : pool.Step (.created number shard) after) :
    pool.worker.crew.places ≠ some 0 ∧ after.tasks.size = pool.tasks.size + 1 ∧
      Worker.startedJobs pool.worker.crew after.worker.crew = [.consume number] := by
  cases step with
  | create started =>
    obtain rfl := Crew.number_of_start started
    obtain ⟨absent, -⟩ := sound.strangers Crew.member?_length
    obtain ⟨free, isFree, -⟩ := sound.places
    obtain ⟨left, rfl, rfl⟩ := Crew.eq_of_start isFree (sound.refuses shard) started
    refine ⟨by simp [isFree], SortedMap.size_insert_of_absent absent _, ?_⟩
    simp [Worker.startedJobs]

/-- A consumer that has ended has done so with the reason that it was given first. -/
theorem Sound.reason_of_ended (sound : Sound size trace pool) {reason : Option ShutdownReason}
    (ended : .ended number reason ∈ trace) : reason = firstReason number trace := by
  cases known : pool.worker.crew.member? number with
  | none => exact absurd rfl ((sound.strangers known).2 _ ended)
  | some consumer =>
    have accounts := sound.members known
    rw [((accounts.ended reason).1 ended).2, accounts.reason]

/-- A consumer that has stopped was asked to or was let go. -/
theorem Sound.cause_of_stopped (sound : Sound size trace pool)
    (stopped : pool.worker.crew.isStopped number = true) :
    (∃ reason, .requested number reason ∈ trace) ∨ .dropped number ∈ trace := by
  obtain ⟨consumer, known, stopped⟩ := Crew.isStopped_iff.1 stopped
  have accounts := sound.members known
  rcases Bool.or_eq_true_iff.1 (accounts.cause stopped) with asked | abandoned
  · obtain ⟨reason, isReason⟩ := Option.isSome_iff_exists.1 asked
    exact .inl ⟨reason, mem_of_firstReason (accounts.reason.symm.trans isReason)⟩
  · exact .inr (accounts.dropped abandoned)

/-- The consumers of a pool are accounted for at every instant: those whose tasks were started and have not
ended are as many as the places that are taken. A consumer is refused exactly if no place is free, and then
nothing changes; else one task is started for it. The reason with which a consumer ends is that of the first
request that it has received, and one that says that it has stopped was asked to or was let go. -/
theorem consumers_accounted {worker : Worker} {size : Nat} {trace : List Event} {pool : Pool}
    (run : Run worker size trace pool) :
    (∃ free, pool.worker.crew.places = some free ∧ pool.tasks.size + free = size ∧
      trace.countP Event.isCreated = trace.countP Event.isEnded + pool.tasks.size ∧
      (∀ shard, (∃ reason after, pool.Step (.refused shard reason) after) ↔ free = 0) ∧
      ∀ shard, (∃ number after, pool.Step (.created number shard) after) ↔ 0 < free) ∧
      (∀ shard reason after, pool.Step (.refused shard reason) after →
        reason = Crew.saturated ∧ after = pool) ∧
      (∀ number shard after, pool.Step (.created number shard) after →
        after.tasks.size = pool.tasks.size + 1 ∧
          Worker.startedJobs pool.worker.crew after.worker.crew = [.consume number]) ∧
      (∀ number reason, .ended number reason ∈ trace → reason = firstReason number trace) ∧
      ∀ number, pool.worker.crew.isStopped number = true →
        (∃ reason, .requested number reason ∈ trace) ∨ .dropped number ∈ trace := by
  have sound := sound_of_run run
  obtain ⟨free, isFree, total⟩ := sound.places
  refine ⟨⟨free, isFree, total, sound.counts, ?_, ?_⟩, ?_, ?_, ?_, ?_⟩
  · intro shard
    constructor
    · rintro ⟨reason, after, step⟩
      exact Option.some.inj (isFree.symm.trans (sound.of_refused step).1)
    · rintro rfl
      exact ⟨_, _, .refuse (Crew.start_of_full isFree (sound.refuses shard))⟩
  · intro shard
    constructor
    · rintro ⟨number, after, step⟩
      exact Nat.pos_of_ne_zero fun none => (sound.of_created step).1 (none ▸ isFree)
    · intro positive
      obtain ⟨left, rfl⟩ := Nat.exists_eq_add_of_lt positive
      rw [Nat.zero_add] at isFree
      exact ⟨_, _, .create (Crew.start_of_free isFree (sound.refuses shard))⟩
  · intro shard reason after step
    exact (sound.of_refused step).2
  · intro number shard after step
    exact (sound.of_created step).2
  · intro number reason ended
    exact sound.reason_of_ended ended
  · intro number stopped
    exact sound.cause_of_stopped stopped

/-- A worker that hosts some consumers, with their tasks. -/
def hosting (places : Nat) (members : List Consumer) (tasks : List (Nat × WorkerScript Unit)) : Pool where
  worker :=
    { ({ workerId := "w1", region := "us-east-1", account := "123456789012" } : WorkerSetup).worker with
      crew := { places := some places, members } }
  tasks := .ofList tasks

/-- A shard to consume. -/
def shardOf (shardId : String) : AssignedShard :=
  .ofLease (Lease.ofShard none shardId .latest) ⟨0⟩

/-- The consumer of a shard. -/
def consumerOf (shardId : String) : Consumer := { leaseKey := shardId, token := ⟨0⟩ }

/-- A single place is taken when a second consumer is wanted. The first one is asked to stop twice, ends with
the reason of the first request, and then the place is free for another. -/
theorem consumers_accounted_of_single_place :
    ∃ trace pool, Run (hosting 1 [] []).worker 1 trace pool ∧
      .refused (shardOf "s2") Crew.saturated ∈ trace ∧ .requested 0 .requested ∈ trace ∧
        .ended 0 (some .leaseLost) ∈ trace ∧ firstReason 0 trace = some .leaseLost ∧
          ∃ number after, pool.Step (.created number (shardOf "s2")) after := by
  let asked : Consumer := ((consumerOf "s1").ask .leaseLost).ask .requested
  let worker : Worker := (hosting 0 [asked] []).worker
  let trace : List Event := [.created 0 (shardOf "s1"), .refused (shardOf "s2") Crew.saturated,
    .requested 0 .leaseLost, .requested 0 .requested, .worked 0, .ended 0 (some .leaseLost)]
  have created : Run _ 1 (trace.take 1) (hosting 0 [consumerOf "s1"] [(0, Worker.consume 0)]) :=
    (Run.opened : Run (hosting 1 [] []).worker 1 _ _).snoc (.create rfl)
  have refused : Run _ 1 (trace.take 2) (hosting 0 [consumerOf "s1"] [(0, Worker.consume 0)]) :=
    created.snoc (.refuse rfl)
  have requested : Run _ 1 (trace.take 4) (hosting 0 [asked] [(0, Worker.consume 0)]) :=
    (refused.snoc (.request rfl .leaseLost)).snoc (.request rfl .requested)
  have finds : (Worker.consume 0).Does (.changed worker worker) (Worker.leave 0) := .step id _ rfl
  have worked : Run _ 1 (trace.take 5) (hosting 0 [asked] [(0, Worker.leave 0)]) :=
    requested.snoc (.work 0 rfl finds rfl Worker.not_spent_leave)
  have ends : (Worker.leave 0).Does (.changed worker (worker.finishConsumer 0)) (.done ()) := .step _ _ rfl
  have ended : Run _ 1 trace (hosting 1 [{ asked with stopped := true }] []) :=
    worked.snoc (.finish 0 rfl ends rfl (.done ()))
  obtain ⟨⟨free, -, total, -, -, created⟩, -, -, reasons, -⟩ := consumers_accounted ended
  have last : .ended 0 (some .leaseLost) ∈ trace := by simp [trace]
  have isFree : free = 1 := (Nat.zero_add free).symm.trans total
  exact ⟨trace, _, ended, by simp [trace], by simp [trace], last, (reasons _ _ last).symm,
    (created _).2 (isFree ▸ Nat.one_pos)⟩

end Pool

end LeaseFleet
