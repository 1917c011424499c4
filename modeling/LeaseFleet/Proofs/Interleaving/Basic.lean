import LeaseFleet.Assignment.Moves
import LeaseFleet.Simulation.Machine

/-!
# Interleavings

Places with their states, and threads that run scripts at them over one lease table, in every
order. A step is one elementary action of some thread, so between any two actions of a thread
anybody else may act. Time plays no part: a sleep may end whenever it likes. The surroundings
answer what they like, but for the lease table, which either carries out a call or refuses it
without a change, and for tokens, of which none is given twice. Others may read the table, move
leases by a copy that they have read at any time before, create leases that are absent, and delete
leases.
-/

namespace LeaseFleet

/-- A script at a place, on its way to a next job or a result. -/
structure Thread (σ Job Result : Type) where
  place : String
  /-- The job that it does now. -/
  job : Job
  script : Script σ Job (Job ⊕ Result)
  /-- The threads that have to end before it goes on. -/
  pending : List Nat := []

/-- What a step shows. -/
inductive Event (Job Result : Type) where
  /-- Nothing that concerns the lease table. -/
  | inner
  | begun (place : String) (job : Job)
  /-- A thread has called the lease store. -/
  | called (place : String) (job : Job) (call : StoreCall) (reply : call.Reply)
  | ended (place : String) (job : Job) (result : Result)
  /-- Somebody else has called the lease store. -/
  | outside (call : StoreCall) (reply : call.Reply)

/-- Places and threads around one lease table. -/
structure Interleaving (σ Job Result : Type) where
  table : LeaseTable
  places : SortedMap String σ
  threads : SortedMap Nat (Thread σ Job Result) := .empty
  /-- How many threads have been started; the next one gets this number. -/
  started : Nat := 0
  /-- How many tokens have been given. -/
  tokens : Nat := 0
  /-- The lease copies that others have read from the table. -/
  copies : List Lease := []

namespace Event

variable {Job Result : Type}

/-- What the answer to a question shows. -/
def ofAnswer (place : String) (job : Job) : (query : Query) → query.Reply → Event Job Result
  | .store call, reply => called place job call reply
  | _, _ => inner

/-- Whether a lease was deleted. -/
def Deletes : Event Job Result → Prop
  | called _ _ call reply | outside call reply => call.Deletes reply
  | _ => False

/-- Whether a lease was created. -/
def Creates : Event Job Result → Prop
  | called _ _ call reply | outside call reply => call.Creates reply
  | _ => False

instance (event : Event Job Result) : Decidable event.Deletes :=
  match event with
  | called _ _ call reply | outside call reply => inferInstanceAs (Decidable (call.Deletes reply))
  | inner | begun _ _ | ended _ _ _ => isFalse id

/-- The update that was applied, if one was. -/
def applied? : Event Job Result → Option AppliedUpdate
  | called _ _ call reply | outside call reply => call.applied? reply
  | _ => none

theorem not_deletes_of_applied {event : Event Job Result} {applied : AppliedUpdate}
    (isApplied : event.applied? = some applied) : ¬event.Deletes := by
  have notDeletes {call : StoreCall} {reply : call.Reply} (isApplied : call.applied? reply = some applied) :
      ¬call.Deletes reply := by
    cases call with
    | update => exact id
    | _ => cases isApplied
  cases event with
  | called place job call reply => exact notDeletes isApplied
  | outside call reply => exact notDeletes isApplied
  | _ => exact id

end Event

namespace Interleaving

variable {σ Job Result : Type}

/-- Whether a thread is there and need not wait for others. -/
def Ready (s : Interleaving σ Job Result) (id : Nat) (thread : Thread σ Job Result) : Prop :=
  s.threads.get? id = some thread ∧ ∀ other ∈ thread.pending, s.threads.get? other = none

/-- A thread goes on in another way. -/
def goOn (s : Interleaving σ Job Result) (id : Nat) (thread : Thread σ Job Result) :
    Interleaving σ Job Result :=
  { s with threads := s.threads.insert id thread }

/-- A thread ends. -/
def drop (s : Interleaving σ Job Result) (id : Nat) : Interleaving σ Job Result :=
  { s with threads := s.threads.erase id }

/-- A place gets another state. -/
def setPlace (s : Interleaving σ Job Result) (place : String) (state : σ) :
    Interleaving σ Job Result :=
  { s with places := s.places.insert place state }

/-- Starts a thread for a job. -/
def launch (behaviour : Machine.Behaviour σ Job Result) (place : String)
    (s : Interleaving σ Job Result) (job : Job) : Interleaving σ Job Result :=
  { s with
    threads := s.threads.insert s.started { place, job, script := behaviour job }
    started := s.started + 1 }

/-- Starts threads for jobs, one after another. -/
def launchAll (behaviour : Machine.Behaviour σ Job Result) (place : String)
    (s : Interleaving σ Job Result) (jobs : List Job) : Interleaving σ Job Result :=
  jobs.foldl (launch behaviour place) s

/-- The numbers of the next threads. -/
def nextIds (s : Interleaving σ Job Result) (jobs : List Job) : List Nat :=
  List.range' s.started jobs.length

/-- How the surroundings may answer a question. -/
inductive Answers (s : Interleaving σ Job Result) :
    (query : Query) → query.Reply → Interleaving σ Job Result → Prop
  /-- The table carries out a call. -/
  | stored (call : StoreCall) : Answers s (.store call) (s.table.perform call).1
      { s with table := (s.table.perform call).2 }
  /-- A failed call has changed nothing. -/
  | failed (call : StoreCall) (error : StoreError) : Answers s (.store call) (call.failed error) s
  | token : Answers s .token ⟨s.tokens⟩ { s with tokens := s.tokens + 1 }
  | other {query : Query} (notCall : ∀ call, query ≠ .store call) (notToken : query ≠ .token)
      (reply : query.Reply) : Answers s query reply s

/-- The calls that others may make: they list, create, delete, and move leases by any copy they
have. -/
inductive MayCall (s : Interleaving σ Job Result) : StoreCall → Prop
  | list : MayCall s .list
  | create (lease : Lease) : MayCall s (.create lease)
  | delete (leaseKey : String) : MayCall s (.delete leaseKey)
  | move {move : LeaseMove} (read : move.lease ∈ s.copies) :
      MayCall s (.update (move.lease.transferredTo (some move.target)) move.lease.counter)

/-- Keeps what others have read. -/
def keepCopies (s : Interleaving σ Job Result) : (call : StoreCall) → call.Reply →
    Interleaving σ Job Result
  | .list, .ok leases => { s with copies := leases ++ s.copies }
  | _, _ => s

/-! ### What the parts of a step leave alone -/

section

variable {s answered : Interleaving σ Job Result}

theorem Answers.threads {query : Query} {reply : query.Reply}
    (answers : s.Answers query reply answered) : answered.threads = s.threads := by
  cases answers <;> rfl

theorem Answers.started {query : Query} {reply : query.Reply}
    (answers : s.Answers query reply answered) : answered.started = s.started := by
  cases answers <;> rfl

theorem Answers.places {query : Query} {reply : query.Reply}
    (answers : s.Answers query reply answered) : answered.places = s.places := by
  cases answers <;> rfl

@[simp] theorem keepCopies_table (call : StoreCall) (reply : call.Reply) :
    (s.keepCopies call reply).table = s.table := by
  unfold keepCopies
  split <;> rfl

@[simp] theorem keepCopies_threads (call : StoreCall) (reply : call.Reply) :
    (s.keepCopies call reply).threads = s.threads := by
  unfold keepCopies
  split <;> rfl

@[simp] theorem keepCopies_started (call : StoreCall) (reply : call.Reply) :
    (s.keepCopies call reply).started = s.started := by
  unfold keepCopies
  split <;> rfl

@[simp] theorem keepCopies_tokens (call : StoreCall) (reply : call.Reply) :
    (s.keepCopies call reply).tokens = s.tokens := by
  unfold keepCopies
  split <;> rfl

@[simp] theorem keepCopies_places (call : StoreCall) (reply : call.Reply) :
    (s.keepCopies call reply).places = s.places := by
  unfold keepCopies
  split <;> rfl

theorem launchAll_table (behaviour : Machine.Behaviour σ Job Result) (place : String)
    (jobs : List Job) : (s.launchAll behaviour place jobs).table = s.table := by
  induction jobs generalizing s with
  | nil => rfl
  | cons job rest ih => exact ih

end

/-- One action of one thread, a new thread for a job that may be asked for, or one call by
somebody else. -/
inductive Step (behaviour : Machine.Behaviour σ Job Result) (asked : Job → Prop) :
    Interleaving σ Job Result → Event Job Result → Interleaving σ Job Result → Prop
  | ask {s answered : Interleaving σ Job Result} {id : Nat} {thread : Thread σ Job Result}
      {query : Query} {next : query.Reply → Script σ Job (Job ⊕ Result)} {reply : query.Reply}
      (ready : s.Ready id thread) (here : thread.script = .ask query next)
      (answers : s.Answers query reply answered) :
      Step behaviour asked s (.ofAnswer thread.place thread.job query reply)
        (answered.goOn id { thread with script := next reply })
  | change {s : Interleaving σ Job Result} {id : Nat} {thread : Thread σ Job Result}
      {permits : σ → Bool} {change : σ → σ} {next : σ → Script σ Job (Job ⊕ Result)} {state : σ}
      (ready : s.Ready id thread) (here : thread.script = .step permits change next)
      (found : s.places.get? thread.place = some state) (permitted : permits state = true) :
      Step behaviour asked s .inner
        ((s.setPlace thread.place (change state)).goOn id { thread with script := next state })
  | sleep {s : Interleaving σ Job Result} {id : Nat} {thread : Thread σ Job Result} {millis : Nat}
      {stopped : σ → Bool} {next : Bool → Script σ Job (Job ⊕ Result)} {state : σ}
      {complete : Bool} (ready : s.Ready id thread)
      (here : thread.script = .sleep millis stopped next)
      (found : s.places.get? thread.place = some state)
      (cutShort : complete = false → stopped state = true) :
      Step behaviour asked s .inner (s.goOn id { thread with script := next complete })
  | spawn {s : Interleaving σ Job Result} {id : Nat} {thread : Thread σ Job Result} {job : Job}
      {next : Script σ Job (Job ⊕ Result)} (ready : s.Ready id thread)
      (here : thread.script = .spawn job next) :
      Step behaviour asked s .inner
        ((s.goOn id { thread with script := next }).launch behaviour thread.place job)
  | gather {s : Interleaving σ Job Result} {id : Nat} {thread : Thread σ Job Result}
      {jobs : List Job} {next : Script σ Job (Job ⊕ Result)} (ready : s.Ready id thread)
      (here : thread.script = .gather jobs next) :
      Step behaviour asked s .inner
        ((s.goOn id { thread with script := next, pending := s.nextIds jobs }).launchAll behaviour
          thread.place jobs)
  | follow {s : Interleaving σ Job Result} {id : Nat} {thread : Thread σ Job Result} {job : Job}
      (ready : s.Ready id thread) (here : thread.script = .done (.inl job)) :
      Step behaviour asked s .inner (s.goOn id { thread with job, script := behaviour job })
  | finish {s : Interleaving σ Job Result} {id : Nat} {thread : Thread σ Job Result}
      {result : Result} (ready : s.Ready id thread)
      (here : thread.script = .done (.inr result)) :
      Step behaviour asked s (.ended thread.place thread.job result) (s.drop id)
  | begin {s : Interleaving σ Job Result} {place : String} {job : Job}
      (known : s.places.contains place = true) (may : asked job) :
      Step behaviour asked s (.begun place job) (s.launch behaviour place job)
  | outside {s answered : Interleaving σ Job Result} {call : StoreCall} {reply : call.Reply}
      (may : s.MayCall call) (answers : s.Answers (.store call) reply answered) :
      Step behaviour asked s (.outside call reply) (answered.keepCopies call reply)

/-- What a step does to the table: nothing, or a call that it shows. -/
theorem Step.table {behaviour : Machine.Behaviour σ Job Result} {asked : Job → Prop}
    {s after : Interleaving σ Job Result} {event : Event Job Result}
    (step : Step behaviour asked s event after) :
    after.table = s.table ∨ ∃ call, after.table = (s.table.perform call).2 ∧
      (event = .outside call (s.table.perform call).1 ∨
        ∃ place job, event = .called place job call (s.table.perform call).1) := by
  cases step with
  | @ask answered id thread query next reply ready here answers =>
    cases answers with
    | stored call => exact .inr ⟨call, rfl, .inr ⟨_, _, rfl⟩⟩
    | failed call error => exact .inl rfl
    | token => exact .inl rfl
    | other => exact .inl rfl
  | @outside answered call reply may answers =>
    rw [keepCopies_table]
    cases answers with
    | stored call => exact .inr ⟨call, rfl, .inl rfl⟩
    | failed call error => exact .inl rfl
    | other notCall => exact absurd rfl (notCall call)
  | gather => exact .inl (launchAll_table ..)
  | _ => exact .inl rfl

/-- A sequence of steps and what they have shown, oldest first. -/
inductive Run (behaviour : Machine.Behaviour σ Job Result) (asked : Job → Prop) :
    Interleaving σ Job Result → List (Event Job Result) → Interleaving σ Job Result → Prop
  | refl (s : Interleaving σ Job Result) : Run behaviour asked s [] s
  | snoc {first last after : Interleaving σ Job Result} {trace : List (Event Job Result)}
      {event : Event Job Result} (before : Run behaviour asked first trace last)
      (step : Step behaviour asked last event after) :
      Run behaviour asked first (trace ++ [event]) after

variable {behaviour : Machine.Behaviour σ Job Result} {asked : Job → Prop}

/-- What holds at first and is kept by every step that a run may take holds after the run. -/
theorem Run.keeps {first last : Interleaving σ Job Result} {trace : List (Event Job Result)}
    (holds : Interleaving σ Job Result → Prop) {allowed : Event Job Result → Prop}
    (run : Run behaviour asked first trace last) (only : ∀ event ∈ trace, allowed event)
    (start : holds first)
    (keeps : ∀ {s event after}, holds s → Step behaviour asked s event after → allowed event →
      holds after) : holds last := by
  induction run with
  | refl => exact start
  | snoc _ step ih =>
    have earlier := ih fun event mem => only event (by simp [mem])
    exact keeps earlier step (only _ (by simp))

/-- As long as no lease is deleted, a lease stays in the table and its counter never falls. -/
theorem Run.counter_le {first last : Interleaving σ Job Result} {trace : List (Event Job Result)}
    (run : Run behaviour asked first trace last) (keeps : ∀ event ∈ trace, ¬event.Deletes)
    {leaseKey : String} {lease : Lease} (found : first.table.get? leaseKey = some lease) :
    ∃ later, last.table.get? leaseKey = some later ∧ lease.counter ≤ later.counter := by
  refine Run.keeps (fun s => ∃ later, s.table.get? leaseKey = some later ∧
    lease.counter ≤ later.counter) run keeps ⟨lease, found, Nat.le_refl _⟩ ?_
  rintro s event after ⟨stored, here, le⟩ step kept
  rcases step.table with same | ⟨call, performed, shown⟩
  · exact ⟨stored, same ▸ here, le⟩
  · have notDeleted : ¬call.Deletes (s.table.perform call).1 := by
      rcases shown with rfl | ⟨place, job, rfl⟩ <;> exact kept
    obtain ⟨later, there, le'⟩ := LeaseTable.perform_counter here notDeleted
    exact ⟨later, performed ▸ there, Nat.le_trans le le'⟩

end Interleaving

end LeaseFleet
