import LeaseFleet.Proofs.Interleaving.Basic
import Mathlib.Algebra.Order.Group.Multiset
import Mathlib.Tactic.Abel

/-!
# Covered machines

A machine decides in what order its tasks act, when a sleep ends and which calls are disturbed. An
interleaving covers a machine (`Covers`) if it has the same surroundings and a thread for every task
that waits somewhere in the machine. It can follow the surroundings of the machine when they answer
a question (`Covers.answered`), and its tasks when they wake (`Covers.wake`, `Covers.unblock`,
`Covers.settle`).
-/

namespace LeaseFleet

variable {σ Job Result : Type}

namespace Machine

/-- A task of a machine, wherever it waits. -/
inductive Entry (σ Job Result : Type) where
  | ready (task : Task σ Job Result)
  | asleep (sleeper : Sleeper σ Job Result)
  | blocked (waiting : Blocked σ Job Result)
  | gathering (whole : Gathering σ Job Result)

/-- The task that waits. -/
def Entry.task : Entry σ Job Result → Task σ Job Result
  | ready task => task
  | asleep sleeper => sleeper.task
  | blocked waiting => waiting.task
  | gathering whole => whole.task

/-- All tasks of a machine. -/
def entries (machine : Machine σ Job Result) : Multiset (Entry σ Job Result) :=
  ↑(machine.ready.map Entry.ready) + ↑(machine.sleepers.map Entry.asleep) +
    ↑(machine.blocked.map Entry.blocked) + ↑(machine.gatherings.map Entry.gathering)

end Machine

namespace Interleaving

/-- Whether a thread of this number has ended. -/
def Ended (s : Interleaving σ Job Result) (id : Nat) : Prop :=
  id < s.started ∧ s.threads.get? id = none

/-- Whether a thread is where a task waits. A task sleeps because its script says so or because
the answer to its next question is delayed. -/
def Fits (s : Interleaving σ Job Result) (thread : Thread σ Job Result) :
    Machine.Entry σ Job Result → Prop
  | .ready task => thread.script = task.script ∧ ∀ other ∈ thread.pending, s.Ended other
  | .asleep sleeper =>
    ((∃ millis next, thread.script = .sleep millis sleeper.stopped next ∧
        ∀ complete, sleeper.next complete = { sleeper.task with script := next complete }) ∨
      (∀ state, sleeper.stopped state = false) ∧ ∀ complete, ∃ waited,
        sleeper.next complete = { sleeper.task with script := thread.script, waited }) ∧
    s.places.contains sleeper.task.place = true ∧ ∀ other ∈ thread.pending, s.Ended other
  | .blocked waiting =>
    (∃ next, thread.script = .step waiting.ready waiting.change next ∧
      ∀ state, waiting.next state = { waiting.task with script := next state }) ∧
    ∀ other ∈ thread.pending, s.Ended other
  | .gathering whole => thread.script = whole.task.script ∧
    ∀ other ∈ thread.pending, other ∈ whole.pending ∨ s.Ended other

/-- A task of a machine has its thread. -/
def Stands (s : Interleaving σ Job Result) (entry : Machine.Entry σ Job Result) : Prop :=
  ∃ thread, s.threads.get? entry.task.id = some thread ∧ thread.place = entry.task.place ∧
    s.Fits thread entry

/-- The surroundings and the places of a machine are those of the interleaving, and the tasks that
are given are different threads of it. -/
structure Covers (s : Interleaving σ Job Result) (machine : Machine σ Job Result)
    (entries : Multiset (Machine.Entry σ Job Result)) : Prop where
  unlimited : machine.world.capacity = .unlimited
  table : s.table = machine.world.table
  tokens : s.tokens = machine.world.tokens
  places : s.places = machine.places
  started : s.started = machine.tasks
  bounded : ∀ {id thread}, s.threads.get? id = some thread → id < s.started
  distinct : (entries.map fun entry => entry.task.id).Nodup
  stands : ∀ entry ∈ entries, s.Stands entry

/-- A run leads from one state to another one. -/
def Leads (behaviour : Machine.Behaviour σ Job Result) (asked : Job → Prop)
    (s after : Interleaving σ Job Result) : Prop :=
  ∃ trace, Run behaviour asked s trace after

/-- A run leads to a state that covers a machine with the given tasks. -/
def LeadsTo (behaviour : Machine.Behaviour σ Job Result) (asked : Job → Prop)
    (s : Interleaving σ Job Result) (machine : Machine σ Job Result)
    (entries : Multiset (Machine.Entry σ Job Result)) : Prop :=
  ∃ after, Leads behaviour asked s after ∧ after.Covers machine entries

variable {behaviour : Machine.Behaviour σ Job Result} {asked : Job → Prop}
  {s between after : Interleaving σ Job Result} {machine later : Machine σ Job Result}
  {entry new : Machine.Entry σ Job Result} {entries others : Multiset (Machine.Entry σ Job Result)}

theorem Leads.refl (s : Interleaving σ Job Result) : Leads behaviour asked s s := ⟨[], .refl s⟩

theorem Leads.step {event : Event Job Result} (step : Step behaviour asked s event after) :
    Leads behaviour asked s after :=
  ⟨_, .snoc (.refl s) step⟩

theorem Leads.trans (first : Leads behaviour asked s between)
    (second : Leads behaviour asked between after) : Leads behaviour asked s after := by
  obtain ⟨trace, run⟩ := second
  induction run with
  | refl => exact first
  | snoc before step ih =>
    obtain ⟨earlier, whole⟩ := ih
    exact ⟨_, whole.snoc step⟩

theorem Covers.leadsTo (covers : s.Covers machine entries) :
    LeadsTo behaviour asked s machine entries :=
  ⟨s, .refl s, covers⟩

theorem Leads.leadsTo (leads : Leads behaviour asked s after) (covers : after.Covers machine entries) :
    LeadsTo behaviour asked s machine entries :=
  ⟨after, leads, covers⟩

theorem LeadsTo.then (reached : LeadsTo behaviour asked s machine entries)
    (goesOn : ∀ {after : Interleaving σ Job Result}, after.Covers machine entries →
      LeadsTo behaviour asked after later others) :
    LeadsTo behaviour asked s later others := by
  obtain ⟨middle, first, covers⟩ := reached
  obtain ⟨last, second, covered⟩ := goesOn covers
  exact ⟨last, first.trans second, covered⟩

/-! ### Changes of a cover -/

/-- A task stands as long as its thread stays and threads that have ended are not started again. -/
theorem Stands.of_same (stands : s.Stands entry)
    (same : after.threads.get? entry.task.id = s.threads.get? entry.task.id)
    (ended : ∀ id, s.Ended id → after.Ended id)
    (known : ∀ place, s.places.contains place = true → after.places.contains place = true) :
    after.Stands entry := by
  obtain ⟨thread, found, place, fits⟩ := stands
  refine ⟨thread, same.trans found, place, ?_⟩
  cases entry with
  | ready task => exact ⟨fits.1, fun other mem => ended other (fits.2 other mem)⟩
  | asleep sleeper =>
    exact ⟨fits.1, known _ fits.2.1, fun other mem => ended other (fits.2.2 other mem)⟩
  | blocked waiting => exact ⟨fits.1, fun other mem => ended other (fits.2 other mem)⟩
  | gathering whole => exact ⟨fits.1, fun other mem => (fits.2 other mem).imp_right (ended other)⟩

theorem Covers.tail (covers : s.Covers machine (entry ::ₘ others)) : s.Covers machine others := by
  obtain ⟨unlimited, table, tokens, places, started, bounded, distinct, stands⟩ := covers
  rw [Multiset.map_cons, Multiset.nodup_cons] at distinct
  exact ⟨unlimited, table, tokens, places, started, bounded, distinct.2,
    fun other mem => stands other (Multiset.mem_cons_of_mem mem)⟩

theorem Covers.ne_of_mem (covers : s.Covers machine (entry ::ₘ others))
    {other : Machine.Entry σ Job Result} (mem : other ∈ others) : other.task.id ≠ entry.task.id := by
  have distinct := covers.distinct
  rw [Multiset.map_cons, Multiset.nodup_cons] at distinct
  intro same
  exact distinct.1 (Multiset.mem_map.2 ⟨other, mem, same⟩)

/-- A machine is not covered any less after a change of what a cover does not see. -/
theorem Covers.of_same (covers : s.Covers machine entries)
    (capacity : later.world.capacity = machine.world.capacity) (table : later.world.table = machine.world.table)
    (tokens : later.world.tokens = machine.world.tokens) (places : later.places = machine.places)
    (tasks : later.tasks = machine.tasks) : s.Covers later entries where
  unlimited := capacity.trans covers.unlimited
  table := covers.table.trans table.symm
  tokens := covers.tokens.trans tokens.symm
  places := covers.places.trans places.symm
  started := covers.started.trans tasks.symm
  bounded := covers.bounded
  distinct := covers.distinct
  stands := covers.stands

theorem Covers.rearranged (covers : s.Covers machine entries) (same : entries = others) :
    s.Covers machine others :=
  same ▸ covers

/-- A task waits elsewhere while its thread stays where it is. -/
theorem Covers.exchange (covers : s.Covers machine (entry ::ₘ others)) (id : new.task.id = entry.task.id)
    (place : new.task.place = entry.task.place)
    (fits : ∀ {thread}, s.threads.get? entry.task.id = some thread → s.Fits thread entry →
      s.Fits thread new) :
    s.Covers machine (new ::ₘ others) := by
  obtain ⟨thread, found, here, fitted⟩ := covers.stands entry (Multiset.mem_cons_self _ _)
  refine ⟨covers.unlimited, covers.table, covers.tokens, covers.places, covers.started, covers.bounded, ?_, ?_⟩
  · have distinct := covers.distinct
    rw [Multiset.map_cons] at distinct ⊢
    rwa [id]
  · intro other mem
    rcases Multiset.mem_cons.1 mem with rfl | mem
    · exact ⟨thread, id ▸ found, here.trans place.symm, fits found fitted⟩
    · exact covers.stands other (Multiset.mem_cons_of_mem mem)

/-- The surroundings or the places change, and no thread does. -/
theorem Covers.surroundings (covers : s.Covers machine entries)
    (capacity : later.world.capacity = machine.world.capacity) (threads : after.threads = s.threads)
    (started : after.started = s.started) (table : after.table = later.world.table)
    (tokens : after.tokens = later.world.tokens) (places : after.places = later.places)
    (tasks : later.tasks = machine.tasks)
    (known : ∀ place, s.places.contains place = true → after.places.contains place = true) :
    after.Covers later entries := by
  refine ⟨capacity.trans covers.unlimited, table, tokens, places, ?_, ?_, covers.distinct, ?_⟩
  · rw [started, tasks, covers.started]
  · intro id thread found
    rw [started]
    exact covers.bounded (threads ▸ found)
  · intro entry mem
    refine (covers.stands entry mem).of_same (by rw [threads]) (fun id ended => ?_) known
    exact ⟨started ▸ ended.1, threads ▸ ended.2⟩

theorem Ended.goOn {id other : Nat} {old thread : Thread σ Job Result} (ended : s.Ended other)
    (found : s.threads.get? id = some old) : (s.goOn id thread).Ended other := by
  have ne : other ≠ id := by
    rintro rfl
    simp [ended.2] at found
  exact ⟨ended.1, (SortedMap.get?_insert_of_ne _ ne _).trans ended.2⟩

/-- The thread of a task goes on. -/
theorem Covers.goOn {thread : Thread σ Job Result} (covers : s.Covers machine (entry ::ₘ others))
    (id : new.task.id = entry.task.id) (place : thread.place = new.task.place)
    (fits : (s.goOn entry.task.id thread).Fits thread new) :
    (s.goOn entry.task.id thread).Covers machine (new ::ₘ others) := by
  obtain ⟨old, found, -, -⟩ := covers.stands entry (Multiset.mem_cons_self _ _)
  refine ⟨covers.unlimited, covers.table, covers.tokens, covers.places, covers.started, ?_, ?_, ?_⟩
  · intro id' thread' found'
    exact SortedMap.forall_insert (P := fun other _ => other < s.started) (covers.bounded found)
      (fun _ => covers.bounded) found'
  · have distinct := covers.distinct
    rw [Multiset.map_cons] at distinct ⊢
    rwa [id]
  · intro other mem
    rcases Multiset.mem_cons.1 mem with rfl | mem
    · exact ⟨thread, id ▸ SortedMap.get?_insert_self _ _ _, place, fits⟩
    · have stands := covers.stands other (Multiset.mem_cons_of_mem mem)
      have same := SortedMap.get?_insert_of_ne s.threads (covers.ne_of_mem mem) thread
      exact stands.of_same same (fun _ ended => ended.goOn found) fun _ known => known

/-- The thread of a task goes on and may act again at once. -/
theorem Covers.resume {old thread : Thread σ Job Result} {task : Task σ Job Result}
    (covers : s.Covers machine (entry ::ₘ others)) (found : s.threads.get? entry.task.id = some old)
    (ended : ∀ other ∈ old.pending, s.Ended other) (pending : thread.pending = old.pending)
    (id : task.id = entry.task.id) (place : thread.place = task.place)
    (script : thread.script = task.script) :
    (s.goOn entry.task.id thread).Covers machine (.ready task ::ₘ others) := by
  refine covers.goOn id place ⟨script, fun other mem => ?_⟩
  exact (ended other (pending ▸ mem)).goOn found

/-- The thread of a task ends. -/
theorem Covers.drop (covers : s.Covers machine (entry ::ₘ others)) :
    (s.drop entry.task.id).Covers machine others ∧ (s.drop entry.task.id).Ended entry.task.id := by
  obtain ⟨old, found, -, -⟩ := covers.stands entry (Multiset.mem_cons_self _ _)
  have rest := covers.tail
  have erased (id : Nat) : (s.drop entry.task.id).threads.get? id =
      if compare id entry.task.id = .eq then none else s.threads.get? id :=
    SortedMap.get?_erase _ _ _
  refine ⟨⟨rest.unlimited, rest.table, rest.tokens, rest.places, rest.started, ?_, rest.distinct, ?_⟩,
    covers.bounded found, by simp [erased]⟩
  · intro id thread here
    exact covers.bounded (SortedMap.get?_erase_eq_some_iff.1 here).2
  · intro other mem
    refine (rest.stands other mem).of_same ?_ (fun id ended => ⟨ended.1, ?_⟩) fun _ known => known
    · simp [erased, covers.ne_of_mem mem]
    · simp [erased, ended.2]

/-- A new thread is started for a new task. -/
theorem Covers.launch (covers : s.Covers machine others) (behaviour : Machine.Behaviour σ Job Result)
    (place : String) (family : Nat) (job : Job) :
    (s.launch behaviour place job).Covers { machine with tasks := machine.tasks + 1 }
      (.ready { id := machine.tasks, family, place, script := behaviour job } ::ₘ others) := by
  have fresh {id : Nat} (old : id < s.started) (thread : Thread σ Job Result) :
      (s.threads.insert s.started thread).get? id = s.threads.get? id :=
    SortedMap.get?_insert_of_ne _ (Nat.ne_of_lt old) _
  have older {other : Machine.Entry σ Job Result} (mem : other ∈ others) :
      other.task.id < s.started := by
    obtain ⟨thread, found, -, -⟩ := covers.stands other mem
    exact covers.bounded found
  refine ⟨covers.unlimited, covers.table, covers.tokens, covers.places, ?_, ?_, ?_, ?_⟩
  · exact congrArg (· + 1) covers.started
  · intro id thread found
    rcases SortedMap.get?_insert_eq_some_iff.1 found with ⟨rfl, -⟩ | ⟨-, found⟩
    · exact Nat.lt_succ_self _
    · exact Nat.lt_succ_of_lt (covers.bounded found)
  · rw [Multiset.map_cons, Multiset.nodup_cons]
    refine ⟨fun mem => ?_, covers.distinct⟩
    obtain ⟨other, mem, same⟩ := Multiset.mem_map.1 mem
    have lt := older mem
    rw [same, covers.started] at lt
    exact Nat.lt_irrefl _ lt
  · intro other mem
    rcases Multiset.mem_cons.1 mem with rfl | mem
    · refine ⟨{ place, job, script := behaviour job }, ?_, rfl, rfl, by simp⟩
      rw [← covers.started]
      exact SortedMap.get?_insert_self _ _ _
    · refine (covers.stands other mem).of_same (fresh (older mem) _) (fun id ended => ?_)
        fun _ known => known
      exact ⟨Nat.lt_succ_of_lt ended.1, (fresh ended.1 _).trans ended.2⟩

/-- New threads are started for new tasks, one after another. -/
theorem Covers.launchAll (covers : s.Covers machine others) (behaviour : Machine.Behaviour σ Job Result)
    (place : String) (family : Option Nat) (jobs : List Job) :
    (s.launchAll behaviour place jobs).Covers { machine with tasks := machine.tasks + jobs.length }
      (↑((Machine.newTasks behaviour place family machine.tasks jobs).map Machine.Entry.ready) +
        others) := by
  induction jobs generalizing s machine others with
  | nil => simpa [Machine.newTasks, launchAll] using covers
  | cons job rest ih =>
    have launched := ih (covers.launch behaviour place (family.getD machine.tasks) job)
    have tasks : machine.tasks + 1 + rest.length = machine.tasks + (job :: rest).length := by
      simp only [List.length_cons]
      omega
    rw [tasks] at launched
    simpa [Machine.newTasks, launchAll, ← Multiset.cons_coe] using launched

/-! ### Surroundings -/

/-- Somebody else calls the store. -/
theorem Covers.outside {call : StoreCall} (covers : s.Covers machine entries) (may : s.MayCall call) :
    ∃ after, Leads behaviour asked s after ∧ after.threads = s.threads ∧
      after.Covers
        { machine with world :=
          { machine.world with table := (machine.world.table.perform call).2 } } entries := by
  refine ⟨_, .step (.outside may (.stored call)), ?_, ?_⟩
  · rw [keepCopies_threads]
  · refine covers.surroundings rfl ?_ ?_ ?_ ?_ ?_ rfl ?_
    · rw [keepCopies_threads]
    · rw [keepCopies_started]
    · rw [keepCopies_table, covers.table]
    · exact (keepCopies_tokens ..).trans covers.tokens
    · exact (keepCopies_places ..).trans covers.places
    · rw [keepCopies_places]
      exact fun _ known => known

/-- Somebody deletes a lease. -/
theorem Covers.vanish (covers : s.Covers machine entries) (leaseKey : String) :
    ∃ after, Leads behaviour asked s after ∧ after.threads = s.threads ∧
      after.Covers
        { machine with world :=
          { machine.world with table := machine.world.table.erase leaseKey } } entries :=
  covers.outside (.delete leaseKey)

/-- Another worker takes a lease over that it has read just now. -/
theorem Covers.race (covers : s.Covers machine entries) (leaseKey owner : String) :
    ∃ after, Leads behaviour asked s after ∧ after.threads = s.threads ∧
      after.Covers
        { machine with world :=
          { machine.world with
            table := (machine.world.table.steal leaseKey (some owner) machine.world.capacity).2 } }
        entries := by
  have unlimited : machine.world.table.steal leaseKey (some owner) machine.world.capacity =
      machine.world.table.steal leaseKey (some owner) .unlimited := by rw [covers.unlimited]
  rw [unlimited]
  unfold LeaseTable.steal
  split
  · exact ⟨s, .refl s, rfl, covers.of_same rfl rfl rfl rfl rfl⟩
  · rename_i stored found
    have read : stored ∈ s.table.leases := LeaseTable.mem_leases.2 ⟨leaseKey, covers.table ▸ found⟩
    let listed : Interleaving σ Job Result := { s with copies := s.table.leases ++ s.copies }
    have listing : Leads behaviour asked s listed := .step (.outside .list (.stored .list))
    have covered : listed.Covers machine entries :=
      covers.surroundings rfl rfl rfl covers.table covers.tokens covers.places rfl fun _ known => known
    have may : listed.MayCall (.update (stored.transferredTo (some owner)) stored.counter) :=
      @MayCall.move _ _ _ listed ⟨stored, owner, owner⟩ (List.mem_append_left _ read)
    obtain ⟨after, moving, threads, covered⟩ := covered.outside may
    exact ⟨after, listing.trans moving, threads, covered.of_same rfl rfl rfl rfl rfl⟩

/-- The table carries out a call. -/
theorem Covers.performed {call : StoreCall} {reply : call.Reply} {world : World}
    (covers : s.Covers machine entries) (now : machine.world.perform call = .now reply world) :
    ∃ answered, s.Answers (.store call) reply answered ∧
      answered.Covers { machine with world } entries := by
  have answers := Answers.stored (s := s) call
  rw [covers.table] at answers
  have unlimited : machine.world.table.performIn machine.world.capacity call = machine.world.table.perform call := by
    rw [covers.unlimited, LeaseTable.performIn_unlimited]
  unfold World.perform at now
  rw [unlimited] at now
  cases now
  exact ⟨_, answers, covers.surroundings rfl rfl rfl rfl covers.tokens covers.places rfl fun _ known => known⟩

/-- What a machine answers to a question can be answered, perhaps after what others do. -/
theorem Covers.answered {waited : Bool} {query : Query} {reply : query.Reply} {world : World}
    (covers : s.Covers machine entries) (now : machine.world.answer waited query = .now reply world) :
    ∃ before answered, Leads behaviour asked s before ∧ before.threads = s.threads ∧
      before.Answers query reply answered ∧ answered.Covers { machine with world } entries := by
  have unshared (notCall : ∀ call, query ≠ .store call) (notToken : query ≠ .token)
      (capacity : world.capacity = machine.world.capacity) (table : world.table = machine.world.table)
      (tokens : world.tokens = machine.world.tokens) :
      ∃ before answered, Leads behaviour asked s before ∧ before.threads = s.threads ∧
        before.Answers query reply answered ∧ answered.Covers { machine with world } entries :=
    ⟨s, s, .refl s, rfl, .other notCall notToken reply, covers.of_same capacity table tokens rfl rfl⟩
  cases query with
  | store call =>
    simp only [World.answer, World.answerStore] at now
    split at now
    · obtain ⟨answered, answers, covered⟩ := covers.performed now
      exact ⟨s, answered, .refl s, rfl, answers, covered⟩
    · rename_i disturbance faults taken
      have armed : s.Covers { machine with world := { machine.world with faults } } entries :=
        covers.of_same rfl rfl rfl rfl rfl
      cases disturbance with
      | fail error =>
        cases now
        exact ⟨s, s, .refl s, rfl, .failed call error, armed⟩
      | delay millis => cases now
      | race owner =>
        simp only [World.disturbTable] at now
        split at now
        · rename_i leaseKey about
          obtain ⟨before, leads, threads, covered⟩ := armed.race leaseKey owner
          obtain ⟨answered, answers, covered⟩ := covered.performed now
          exact ⟨before, answered, leads, threads, answers, covered⟩
        · obtain ⟨answered, answers, covered⟩ := armed.performed now
          exact ⟨s, answered, .refl s, rfl, answers, covered⟩
      | vanish =>
        simp only [World.disturbTable] at now
        split at now
        · rename_i leaseKey about
          obtain ⟨before, leads, threads, covered⟩ := armed.vanish leaseKey
          obtain ⟨answered, answers, covered⟩ := covered.performed now
          exact ⟨before, answered, leads, threads, answers, covered⟩
        · obtain ⟨answered, answers, covered⟩ := armed.performed now
          exact ⟨s, answered, .refl s, rfl, answers, covered⟩
  | token =>
    cases now
    have answers := Answers.token (s := s)
    rw [covers.tokens] at answers
    exact ⟨s, _, .refl s, rfl, answers,
      covers.surroundings rfl rfl rfl covers.table rfl covers.places rfl fun _ known => known⟩
  | summaries =>
    simp only [World.answer, World.answerSummaries] at now
    split at now <;> cases now <;> exact unshared (by simp) (by simp) rfl rfl rfl
  | publish summary =>
    simp only [World.answer, World.answerPublish] at now
    split at now <;> cases now <;> exact unshared (by simp) (by simp) rfl rfl rfl
  | shards config =>
    simp only [World.answer] at now
    split at now <;> cases now
    exact unshared (by simp) (by simp) rfl rfl rfl
  | _ =>
    cases now
    exact unshared (by simp) (by simp) rfl rfl rfl

/-- A question that has to be asked again has changed nothing that the interleaving sees. -/
theorem Covers.delayed {waited : Bool} {query : Query} {millis : Nat} {world : World}
    (covers : s.Covers machine entries)
    (delay : machine.world.answer waited query = .later millis world) :
    s.Covers { machine with world } entries := by
  cases query with
  | store call =>
    simp only [World.answer, World.answerStore] at delay
    split at delay
    · cases delay
    · split at delay <;> cases delay
      exact covers.of_same rfl rfl rfl rfl rfl
  | summaries =>
    simp only [World.answer, World.answerSummaries] at delay
    split at delay <;> cases delay
  | publish summary =>
    simp only [World.answer, World.answerPublish] at delay
    split at delay <;> cases delay
  | shards config =>
    simp only [World.answer] at delay
    split at delay <;> cases delay
    exact covers.of_same rfl rfl rfl rfl rfl
  | _ => cases delay

/-! ### Waking -/

/-- Sleepers wake when their time has come, and before that only in a state that stops them. -/
theorem Covers.wake {woken : List (Sleeper σ Job Result)} (complete : Bool)
    (covers : s.Covers machine (↑(woken.map Machine.Entry.asleep) + others))
    (cutShort : complete = false → ∀ sleeper ∈ woken, ∀ state,
      machine.places.get? sleeper.task.place = some state → sleeper.stopped state = true) :
    LeadsTo behaviour asked s machine
      (↑(woken.map fun sleeper => Machine.Entry.ready (sleeper.next complete)) + others) := by
  induction woken generalizing s others with
  | nil => exact covers.leadsTo
  | cons sleeper rest ih =>
    rw [List.map_cons, ← Multiset.cons_coe, Multiset.cons_add] at covers ⊢
    obtain ⟨thread, found, place, why, known, ended⟩ := covers.stands _ (Multiset.mem_cons_self _ _)
    replace place : thread.place = sleeper.task.place := place
    obtain ⟨state, there⟩ := Option.isSome_iff_exists.1 known
    have stops (early : complete = false) : sleeper.stopped state = true :=
      cutShort early sleeper List.mem_cons_self state (covers.places ▸ there)
    rw [← place] at there
    have awake : LeadsTo behaviour asked s machine
        (.ready (sleeper.next complete) ::ₘ (↑(rest.map Machine.Entry.asleep) + others)) := by
      rcases why with ⟨millis, next, script, nextIs⟩ | ⟨never, nextIs⟩
      · refine Leads.leadsTo (.step (.sleep ⟨found, fun other mem => (ended other mem).2⟩ script there stops))
          (covers.resume found ended rfl ?_ ?_ ?_)
        · rw [nextIs]
          rfl
        · rw [nextIs]
          exact place
        · rw [nextIs]
      · obtain ⟨waited, same⟩ := nextIs complete
        refine (covers.exchange ?_ ?_ fun {there} found' _ => ?_).leadsTo
        · rw [same]
          rfl
        · rw [same]
          rfl
        · cases found.symm.trans found'
          rw [same]
          exact ⟨rfl, ended⟩
    refine awake.then fun {after} covers => ?_
    rw [← Multiset.add_cons] at covers
    have onward := ih covers fun early other mem => cutShort early other (List.mem_cons_of_mem _ mem)
    rwa [Multiset.add_cons] at onward

/-- Tasks that wait for a state of a place go on as long as it is one in which they can. -/
theorem Covers.unblock {place : String} {state : σ} {blocked : List (Blocked σ Job Result)}
    (covers : s.Covers machine (↑(blocked.map Machine.Entry.blocked) + others))
    (found : machine.places.get? place = some state) :
    LeadsTo behaviour asked s
      { machine with places :=
        machine.places.insert place (Machine.admitBlocked place state blocked).1 }
      (↑((Machine.admitBlocked place state blocked).2.1.map Machine.Entry.ready) +
        (↑((Machine.admitBlocked place state blocked).2.2.map Machine.Entry.blocked) + others)) := by
  induction blocked generalizing s machine state others with
  | nil => simpa [Machine.admitBlocked, SortedMap.insert_of_found found] using covers.leadsTo
  | cons waiting rest ih =>
    rw [List.map_cons, ← Multiset.cons_coe, Multiset.cons_add] at covers
    by_cases can : waiting.task.place = place ∧ waiting.ready state = true
    · obtain ⟨rfl, ready⟩ := can
      obtain ⟨thread, here, atPlace, ⟨next, script, nextIs⟩, ended⟩ :=
        covers.stands _ (Multiset.mem_cons_self _ _)
      replace atPlace : thread.place = waiting.task.place := atPlace
      have there : s.places.get? thread.place = some state := by
        rw [covers.places, atPlace]
        exact found
      have goesOn : LeadsTo behaviour asked s
          { machine with places := machine.places.insert waiting.task.place (waiting.change state) }
          (.ready (waiting.next state) ::ₘ (↑(rest.map Machine.Entry.blocked) + others)) := by
        refine Leads.leadsTo (.step (.change ⟨here, fun other mem => (ended other mem).2⟩ script there
          ready)) ?_
        have changed : (s.setPlace thread.place (waiting.change state)).Covers
            { machine with places := machine.places.insert waiting.task.place (waiting.change state) }
            (.blocked waiting ::ₘ (↑(rest.map Machine.Entry.blocked) + others)) :=
          covers.surroundings rfl rfl rfl covers.table covers.tokens
            (by rw [setPlace, covers.places, atPlace]) rfl
            fun _ known => SortedMap.contains_insert_of_contains known
        refine changed.resume here ended rfl ?_ ?_ ?_
        · rw [nextIs]
          rfl
        · rw [nextIs]
          exact atPlace
        · rw [nextIs]
      refine goesOn.then fun {after} covers => ?_
      rw [← Multiset.add_cons] at covers
      have onward := ih covers (SortedMap.get?_insert_self _ _ _)
      rw [SortedMap.insert_insert] at onward
      simpa [Machine.admitBlocked, ready, ← Multiset.cons_coe] using onward
    · rw [← Multiset.add_cons] at covers
      have onward := ih covers found
      simpa [Machine.admitBlocked, can, ← Multiset.cons_coe] using onward

/-- Tasks that have gathered others go on when these have ended. -/
theorem Covers.settle {id : Nat} {gatherings : List (Gathering σ Job Result)}
    (covers : s.Covers machine (↑(gatherings.map Machine.Entry.gathering) + others))
    (ended : s.Ended id) :
    s.Covers machine (↑((Machine.settleGatherings id gatherings).1.map Machine.Entry.ready) +
      (↑((Machine.settleGatherings id gatherings).2.map Machine.Entry.gathering) + others)) := by
  induction gatherings generalizing others with
  | nil => simpa [Machine.settleGatherings] using covers
  | cons whole rest ih =>
    rw [List.map_cons, ← Multiset.cons_coe, Multiset.cons_add] at covers
    unfold Machine.settleGatherings
    have still {thread : Thread σ Job Result}
        (fits : s.Fits thread (.gathering whole)) (other : Nat) (mem : other ∈ thread.pending) :
        other ∈ whole.pending.filter (· ≠ id) ∨ s.Ended other := by
      rcases fits.2 other mem with waited | gone
      · by_cases same : other = id
        · exact .inr (same ▸ ended)
        · exact .inl (by simp [waited, same])
      · exact .inr gone
    by_cases empty : (whole.pending.filter (· ≠ id)).isEmpty = true
    · have goesOn : s.Covers machine (.ready whole.task ::ₘ
          (↑(rest.map Machine.Entry.gathering) + others)) := by
        refine covers.exchange rfl rfl fun {thread} _ fits => ⟨fits.1, fun other mem => ?_⟩
        rcases still fits other mem with waited | gone
        · rw [List.isEmpty_iff.1 empty] at waited
          cases waited
        · exact gone
      rw [← Multiset.add_cons] at goesOn
      have onward := ih goesOn
      simp only [empty, if_true]
      simpa [← Multiset.cons_coe] using onward
    · have waits : s.Covers machine
          (.gathering { whole with pending := whole.pending.filter (· ≠ id) } ::ₘ
            (↑(rest.map Machine.Entry.gathering) + others)) :=
        covers.exchange rfl rfl fun _ fits => ⟨fits.1, still fits⟩
      rw [← Multiset.add_cons] at waits
      have onward := ih waits
      simp only [empty]
      simpa [← Multiset.cons_coe] using onward

end Interleaving

end LeaseFleet
