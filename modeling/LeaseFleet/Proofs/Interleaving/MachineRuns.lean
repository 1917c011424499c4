import LeaseFleet.Proofs.Interleaving.CoveredMachines
import LeaseFleet.Proofs.Fleet.Fencing

/-!
# Scheduled runs

Whatever a machine does is a run of interleavings. An interleaving that covers a machine can follow
the next action of any task (`Covers.act`), and so all that happens while time passes or until a job
is done (`Covers.pass`, `Covers.run`). A fleet that works for its users therefore only reaches states
of runs (`run_of_served`), and what holds after every run of a fleet holds in it.
-/

namespace LeaseFleet.Interleaving

open Machine (Behaviour Entry enqueue enqueueAll newTasks putToSleep resume)

variable {σ Job Result : Type} {behaviour : Behaviour σ Job Result} {asked : Job → Prop}
  {s : Interleaving σ Job Result} {machine : Machine σ Job Result}
  {others : Multiset (Entry σ Job Result)}

/-! ### Actions -/

theorem enqueue_perm (task : Task σ Job Result) (ready : List (Task σ Job Result)) :
    (enqueue task ready).Perm (task :: ready) := by
  simp only [enqueue]
  split
  · exact List.perm_append_comm
  · have last : (ready.reverse.takeWhile fun other => decide (other.family ≠ task.family)).reverse <:+
        ready := by
      simpa using List.reverse_suffix.2 (List.takeWhile_prefix (l := ready.reverse) _)
    have dropped := List.suffix_iff_eq_drop.1 last
    rw [List.length_reverse] at dropped
    rw [dropped]
    refine List.perm_middle.trans ?_
    rw [List.take_append_drop]

theorem entries_enqueueAll (machine : Machine σ Job Result) (tasks : List (Task σ Job Result)) :
    (machine.enqueueAll tasks).entries = ↑(tasks.map Entry.ready) + machine.entries := by
  induction tasks generalizing machine with
  | nil => simp [enqueueAll]
  | cons task rest ih =>
    have first : Machine.entries { machine with ready := enqueue task machine.ready } =
        .ready task ::ₘ machine.entries := by
      unfold Machine.entries
      rw [Multiset.coe_eq_coe.2 ((enqueue_perm task machine.ready).map Entry.ready)]
      simp only [List.map_cons, ← Multiset.cons_coe, Multiset.cons_add]
    refine (ih { machine with ready := enqueue task machine.ready }).trans ?_
    rw [first, List.map_cons, ← Multiset.cons_coe, Multiset.cons_add, Multiset.add_cons]

theorem entries_resume (machine : Machine σ Job Result) (task : Task σ Job Result) :
    (machine.resume task).entries = .ready task ::ₘ machine.entries := by
  simp [Machine.entries, resume, ← Multiset.cons_coe]

theorem partition_asleep (test : Sleeper σ Job Result → Bool) (sleepers : List (Sleeper σ Job Result)) :
    (↑((sleepers.partition test).1.map Entry.asleep) : Multiset (Entry σ Job Result)) +
      ↑((sleepers.partition test).2.map Entry.asleep) = ↑(sleepers.map Entry.asleep) := by
  rw [List.partition_eq_filter_filter, Multiset.coe_add, ← List.map_append]
  exact Multiset.coe_eq_coe.2 ((List.filter_append_perm test sleepers).map _)

/-- A place gets another state, and whoever waited for that wakes. -/
theorem Covers.setPlace {place : String} {state : σ}
    (covers : s.Covers { machine with places := machine.places.insert place state }
      (others + machine.entries)) :
    LeadsTo behaviour asked s (machine.setPlace place state)
      (others + (machine.setPlace place state).entries) := by
  have waiting : others + machine.entries = ↑(machine.blocked.map Entry.blocked) +
      (others + ↑(machine.ready.map Entry.ready) + ↑(machine.sleepers.map Entry.asleep) +
        ↑(machine.gatherings.map Entry.gathering)) := by
    unfold Machine.entries
    abel
  rw [waiting] at covers
  refine (covers.unblock (SortedMap.get?_insert_self _ _ _)).then fun {between} covers => ?_
  simp only [SortedMap.insert_insert] at covers
  unfold Machine.setPlace
  generalize Machine.admitBlocked place state machine.blocked = admitted at covers ⊢
  obtain ⟨found, woken, left⟩ := admitted
  let stops (sleeper : Sleeper σ Job Result) : Bool :=
    sleeper.task.place = place && sleeper.stopped found
  have asleep := partition_asleep stops machine.sleepers
  have rest : ↑(woken.map Entry.ready) + (↑(left.map Entry.blocked) +
        (others + ↑(machine.ready.map Entry.ready) + ↑(machine.sleepers.map Entry.asleep) +
          ↑(machine.gatherings.map Entry.gathering))) =
      ↑((machine.sleepers.partition stops).1.map Entry.asleep) +
        (↑(woken.map Entry.ready) + (others + ↑(machine.ready.map Entry.ready) +
          ↑((machine.sleepers.partition stops).2.map Entry.asleep) + ↑(left.map Entry.blocked) +
            ↑(machine.gatherings.map Entry.gathering))) := by
    rw [← asleep]
    abel
  rw [rest] at covers
  refine (covers.wake false fun _ sleeper mem state here => ?_).then fun {after} covers => ?_
  · rw [List.partition_eq_filter_filter, List.mem_filter] at mem
    obtain ⟨atPlace, stopped⟩ := Bool.and_eq_true_iff.1 mem.2
    rw [of_decide_eq_true atPlace] at here
    cases (SortedMap.get?_insert_self _ _ _).symm.trans here
    exact stopped
  · refine Covers.leadsTo ?_
    refine (covers.rearranged ?_).of_same rfl rfl rfl rfl rfl
    rw [entries_enqueueAll]
    simp only [Machine.entries, List.map_append, List.map_map, Function.comp_def, ← Multiset.coe_add,
      stops]
    abel

/-- A task that can run is a thread that can act, and they go on together. -/
theorem Covers.acting {task : Task σ Job Result} (covers : s.Covers machine (.ready task ::ₘ others)) :
    ∃ thread, s.Ready task.id thread ∧ thread.place = task.place ∧ thread.script = task.script ∧
      ∀ job script waited, (s.goOn task.id { thread with job, script }).Covers machine
        (.ready { task with script, waited } ::ₘ others) := by
  obtain ⟨thread, here, atPlace, script, ended⟩ := covers.stands _ (Multiset.mem_cons_self _ _)
  exact ⟨thread, ⟨here, fun other mem => (ended other mem).2⟩, atPlace, script,
    fun _ _ _ => covers.resume here ended rfl rfl atPlace rfl⟩

theorem Covers.follow {task : Task σ Job Result} {job : Job}
    (covers : s.Covers machine (.ready task ::ₘ machine.entries)) (here : task.script = .done (.inl job)) :
    LeadsTo behaviour asked s (machine.resume { task with script := behaviour job })
      (machine.resume { task with script := behaviour job }).entries := by
  obtain ⟨thread, ready, -, script, goesOn⟩ := covers.acting
  rw [entries_resume]
  refine Leads.leadsTo (.step (.follow ready (script.trans here))) ?_
  exact Covers.of_same (goesOn job _ _) rfl rfl rfl rfl rfl

theorem Covers.finish {task : Task σ Job Result} {result : Result}
    (covers : s.Covers machine (.ready task ::ₘ machine.entries)) (here : task.script = .done (.inr result)) :
    LeadsTo behaviour asked s (machine.finish task result) (machine.finish task result).entries := by
  obtain ⟨thread, ready, -, script, -⟩ := covers.acting
  obtain ⟨rest, ended⟩ := covers.drop
  have waiting : machine.entries = ↑(machine.gatherings.map Entry.gathering) +
      (↑(machine.ready.map Entry.ready) + ↑(machine.sleepers.map Entry.asleep) +
        ↑(machine.blocked.map Entry.blocked)) := by
    unfold Machine.entries
    abel
  refine Leads.leadsTo (.step (.finish ready (script.trans here))) ?_
  refine Covers.of_same (((rest.rearranged waiting).settle ended).rearranged ?_) rfl rfl rfl rfl rfl
  simp only [Machine.entries, Machine.finish, Entry.task, List.map_append, ← Multiset.coe_add]
  abel

theorem entries_putToSleep (machine : Machine σ Job Result) (task : Task σ Job Result) (millis : Nat)
    (stopped : σ → Bool) (next : Bool → Task σ Job Result) :
    (machine.putToSleep task millis stopped next).entries =
      .asleep { due := machine.world.clock + millis, task, stopped, next } ::ₘ machine.entries := by
  simp only [Machine.entries, putToSleep, List.map_append, List.map_cons, List.map_nil,
    ← Multiset.coe_add, Multiset.coe_singleton, ← Multiset.singleton_add]
  abel

theorem entries_block (machine : Machine σ Job Result) (waiting : Blocked σ Job Result) :
    Machine.entries { machine with blocked := machine.blocked ++ [waiting] } =
      .blocked waiting ::ₘ machine.entries := by
  simp only [Machine.entries, List.map_append, List.map_cons, List.map_nil, ← Multiset.coe_add,
    Multiset.coe_singleton, ← Multiset.singleton_add]
  abel

/-- A question is answered, or asked again later. -/
theorem Covers.answer {task : Task σ Job Result} {query : Query}
    {next : query.Reply → Script σ Job (Job ⊕ Result)}
    (covers : s.Covers machine (.ready task ::ₘ machine.entries)) (here : task.script = .ask query next)
    (known : s.places.contains task.place = true) :
    LeadsTo behaviour asked s (machine.answer task query next) (machine.answer task query next).entries := by
  unfold Machine.answer
  split
  · rename_i reply world now
    obtain ⟨before, answered, leads, threads, answers, covered⟩ := covers.answered now
    obtain ⟨thread, ready, atPlace, script, goesOn⟩ := covered.acting
    have readyBefore : before.Ready task.id thread := by
      unfold Ready at ready ⊢
      rwa [answers.threads] at ready
    rw [entries_resume]
    refine Leads.leadsTo (leads.trans (.step (.ask readyBefore (script.trans here) answers))) ?_
    exact Covers.of_same (goesOn _ _ _) rfl rfl rfl rfl rfl
  · rename_i millis world delay
    have waits := covers.delayed delay
    split
    · rw [entries_resume]
      exact Covers.leadsTo (Covers.of_same (waits.exchange rfl rfl fun _ fits => fits) rfl rfl rfl rfl rfl)
    · rw [entries_putToSleep]
      refine Covers.leadsTo (Covers.of_same (waits.exchange rfl rfl fun {there} found fits => ?_)
        rfl rfl rfl rfl rfl)
      exact ⟨.inr ⟨fun _ => rfl, fun _ => ⟨true, by rw [fits.1]⟩⟩, known, fits.2⟩

/-- A place gets another state in one action of a task. -/
theorem Covers.change {task : Task σ Job Result} {permits : σ → Bool} {change : σ → σ}
    {next : σ → Script σ Job (Job ⊕ Result)} {state : σ}
    (covers : s.Covers machine (.ready task ::ₘ machine.entries))
    (here : task.script = .step permits change next) (found : s.places.get? task.place = some state)
    (permitted : permits state = true) :
    LeadsTo behaviour asked s
      ((machine.setPlace task.place (change state)).resume { task with script := next state })
      ((machine.setPlace task.place (change state)).resume { task with script := next state }).entries := by
  have changed : (s.setPlace task.place (change state)).Covers
      { machine with places := machine.places.insert task.place (change state) }
      (.ready task ::ₘ machine.entries) :=
    covers.surroundings rfl rfl rfl covers.table covers.tokens (by rw [Interleaving.setPlace, covers.places])
      rfl fun _ known => SortedMap.contains_insert_of_contains known
  obtain ⟨⟨_, job, _, pending⟩, ready, rfl, rfl, goesOn⟩ := changed.acting
  have acted : LeadsTo behaviour asked s
      { machine with places := machine.places.insert task.place (change state) }
      ({.ready { task with script := next state }} + machine.entries) :=
    Leads.leadsTo (.step (.change ready here found permitted)) (goesOn job _ _)
  rw [entries_resume]
  refine (acted.then Covers.setPlace).then fun {after} covers => ?_
  exact Covers.leadsTo (Covers.of_same covers rfl rfl rfl rfl rfl)

/-- A place gets another state in one action of a task, which waits until it may do so. -/
theorem Covers.step {task : Task σ Job Result} {permits : σ → Bool} {change : σ → σ}
    {next : σ → Script σ Job (Job ⊕ Result)} {state : σ}
    (covers : s.Covers machine (.ready task ::ₘ machine.entries))
    (here : task.script = .step permits change next) (found : machine.places.get? task.place = some state) :
    LeadsTo behaviour asked s (machine.act behaviour task state)
      (machine.act behaviour task state).entries := by
  simp only [Machine.act, here]
  split
  · rename_i permitted
    exact covers.change here (covers.places ▸ found) permitted
  · rw [entries_block]
    refine Covers.leadsTo (Covers.of_same (covers.exchange rfl rfl fun {thread} _ fits => ?_) rfl rfl rfl rfl rfl)
    exact ⟨⟨next, fits.1.trans here, fun _ => rfl⟩, fits.2⟩

/-- A task goes to sleep, unless it need not. -/
theorem Covers.sleep {task : Task σ Job Result} {millis : Nat} {stopped : σ → Bool}
    {next : Bool → Script σ Job (Job ⊕ Result)} {state : σ}
    (covers : s.Covers machine (.ready task ::ₘ machine.entries))
    (here : task.script = .sleep millis stopped next) (found : machine.places.get? task.place = some state) :
    LeadsTo behaviour asked s (machine.act behaviour task state)
      (machine.act behaviour task state).entries := by
  obtain ⟨thread, ready, atPlace, script, goesOn⟩ := covers.acting
  have there : s.places.get? thread.place = some state := by
    rw [atPlace, covers.places]
    exact found
  have sleeps {complete : Bool} (cutShort : complete = false → stopped state = true) :
      LeadsTo behaviour asked s (machine.resume { task with script := next complete })
        (.ready { task with script := next complete } ::ₘ machine.entries) :=
    Leads.leadsTo (.step (.sleep ready (script.trans here) there cutShort))
      (Covers.of_same (goesOn _ _ _) rfl rfl rfl rfl rfl)
  simp only [Machine.act, here]
  split
  · rename_i cut
    rw [entries_resume]
    exact sleeps fun _ => cut
  · split
    · rw [entries_resume]
      exact sleeps nofun
    · rw [entries_putToSleep]
      refine Covers.leadsTo (Covers.of_same (covers.exchange rfl rfl fun {other} _ fits => ?_) rfl rfl rfl rfl rfl)
      refine ⟨.inl ⟨millis, next, fits.1.trans here, fun _ => rfl⟩, ?_, fits.2⟩
      exact Option.isSome_of_mem (covers.places ▸ found)

theorem Covers.spawn {task : Task σ Job Result} {job : Job} {next : Script σ Job (Job ⊕ Result)} {state : σ}
    (covers : s.Covers machine (.ready task ::ₘ machine.entries)) (here : task.script = .spawn job next) :
    LeadsTo behaviour asked s (machine.act behaviour task state)
      (machine.act behaviour task state).entries := by
  obtain ⟨⟨_, mine, _, pending⟩, ready, rfl, rfl, goesOn⟩ := covers.acting
  simp only [Machine.act, here]
  refine Leads.leadsTo (.step (.spawn ready here)) ?_
  have started := (goesOn mine next task.waited).launch behaviour task.place machine.tasks job
  refine Covers.of_same (started.rearranged ?_) rfl rfl rfl rfl rfl
  simp only [Machine.entries, newTasks, Option.getD_none, List.map_cons, List.map_append, List.map_nil,
    ← Multiset.cons_coe, ← Multiset.coe_add, Multiset.coe_nil, ← Multiset.singleton_add]
  abel

theorem ids_newTasks (behaviour : Behaviour σ Job Result) (place : String) (family : Option Nat) (first : Nat)
    (jobs : List Job) :
    (newTasks behaviour place family first jobs).map (·.id) = List.range' first jobs.length := by
  induction jobs generalizing first with
  | nil => rfl
  | cons job rest ih => simp [newTasks, List.range'_succ, ih]

/-- A task starts others and waits for them, if there are any. -/
theorem Covers.gather {task : Task σ Job Result} {jobs : List Job} {next : Script σ Job (Job ⊕ Result)}
    {state : σ} (covers : s.Covers machine (.ready task ::ₘ machine.entries))
    (here : task.script = .gather jobs next) :
    LeadsTo behaviour asked s (machine.act behaviour task state)
      (machine.act behaviour task state).entries := by
  obtain ⟨⟨_, mine, _, pending⟩, ready, rfl, rfl, -⟩ := covers.acting
  simp only [Machine.act, here]
  refine Leads.leadsTo (.step (.gather ready here)) ?_
  cases jobs with
  | nil =>
    simp only [newTasks, List.isEmpty_nil, if_true]
    rw [entries_resume]
    exact Covers.of_same (covers.goOn rfl rfl ⟨rfl, by simp [nextIds]⟩) rfl rfl rfl rfl rfl
  | cons job rest =>
    let members := newTasks behaviour task.place (some task.family) machine.tasks (job :: rest)
    have ids : members.map (·.id) = s.nextIds (job :: rest) := by
      rw [ids_newTasks, nextIds, covers.started]
    have length : members.length = (job :: rest).length := by
      rw [← List.length_map (·.id), ids, nextIds, List.length_range']
    have waits : (s.goOn task.id
        ⟨task.place, mine, next, s.nextIds (job :: rest)⟩).Covers machine
        (.gathering { task := { task with script := next }, pending := members.map (·.id) } ::ₘ
          machine.entries) := by
      refine covers.goOn rfl rfl ⟨rfl, fun other mem => .inl ?_⟩
      rw [ids]
      exact mem
    have launched := waits.launchAll behaviour task.place (some task.family) (job :: rest)
    rw [if_neg (by simp [newTasks])]
    refine Covers.of_same (launched.rearranged ?_) rfl rfl rfl rfl (congrArg (machine.tasks + ·) length)
    simp only [Machine.entries, List.map_append, List.map_cons, ← Multiset.cons_coe, ← Multiset.coe_add,
      ← Multiset.singleton_add, members]
    abel

/-- The next action of a task. -/
theorem Covers.act {task : Task σ Job Result} {state : σ}
    (covers : s.Covers machine (.ready task ::ₘ machine.entries))
    (found : machine.places.get? task.place = some state) :
    LeadsTo behaviour asked s (machine.act behaviour task state)
      (machine.act behaviour task state).entries := by
  cases here : task.script with
  | done outcome =>
    simp only [Machine.act, here]
    cases outcome with
    | inl job => exact covers.follow here
    | inr result => exact covers.finish here
  | ask query next =>
    simp only [Machine.act, here]
    exact covers.answer here (Option.isSome_of_mem (covers.places ▸ found))
  | step permits change next => exact covers.step here found
  | sleep millis stopped next => exact covers.sleep here found
  | spawn job next => exact covers.spawn here
  | gather jobs next => exact covers.gather here

/-! ### Runs of a machine -/

/-- What the first task that can run does next. -/
theorem Covers.advance (covers : s.Covers machine machine.entries) :
    LeadsTo behaviour asked s (machine.advance behaviour) (machine.advance behaviour).entries := by
  unfold Machine.advance
  split
  · exact covers.leadsTo
  · rename_i task rest here
    have first : machine.entries = .ready task ::ₘ Machine.entries { machine with ready := rest } := by
      simp only [Machine.entries, here, List.map_cons, ← Multiset.cons_coe, Multiset.cons_add]
    have chosen : s.Covers { machine with ready := rest }
        (.ready task ::ₘ Machine.entries { machine with ready := rest }) :=
      Covers.of_same (covers.rearranged first) rfl rfl rfl rfl rfl
    simp only
    split
    · rename_i state found
      exact chosen.act found
    · exact chosen.tail.leadsTo

/-- Time passes, and the sleepers whose time has come wake. -/
theorem Covers.moveTo (covers : s.Covers machine machine.entries) (time : Nat) :
    LeadsTo behaviour asked s (machine.moveTo time) (machine.moveTo time).entries := by
  let due (sleeper : Sleeper σ Job Result) : Bool := decide (sleeper.due ≤ time)
  have waiting : machine.entries = ↑((machine.sleepers.partition due).1.map Entry.asleep) +
      (↑(machine.ready.map Entry.ready) + ↑((machine.sleepers.partition due).2.map Entry.asleep) +
        ↑(machine.blocked.map Entry.blocked) + ↑(machine.gatherings.map Entry.gathering)) := by
    rw [Machine.entries, ← partition_asleep due]
    abel
  refine ((covers.rearranged waiting).wake true nofun).then fun {after} covers => ?_
  refine Covers.leadsTo (Covers.of_same (covers.rearranged ?_) rfl rfl rfl rfl rfl)
  unfold Machine.moveTo
  rw [entries_enqueueAll]
  simp only [Machine.entries, List.map_map, Function.comp_def, due]

theorem Covers.settleWithin (covers : s.Covers machine machine.entries) (limit : Nat) :
    LeadsTo behaviour asked s (machine.settleWithin behaviour limit)
      (machine.settleWithin behaviour limit).entries := by
  induction limit generalizing s machine with
  | zero => exact covers.leadsTo
  | succ limit ih =>
    unfold Machine.settleWithin
    split
    · exact covers.leadsTo
    · exact covers.advance.then ih

theorem Covers.driveWithin (covers : s.Covers machine machine.entries) (goal : Machine σ Job Result → Bool)
    (allowed : Nat → Bool) (limit : Nat) :
    LeadsTo behaviour asked s (machine.driveWithin behaviour goal allowed limit)
      (machine.driveWithin behaviour goal allowed limit).entries := by
  induction limit generalizing s machine with
  | zero => exact covers.leadsTo
  | succ limit ih =>
    unfold Machine.driveWithin
    refine (covers.settleWithin Machine.actionLimit).then fun {after} covers => ?_
    simp only
    split
    · exact covers.leadsTo
    · split
      · exact covers.leadsTo
      · rename_i due _
        split
        · exact (covers.moveTo due).then ih
        · exact covers.leadsTo

/-- Whatever a machine does while time passes is a run. -/
theorem Covers.pass (covers : s.Covers machine machine.entries) (millis : Nat) :
    LeadsTo behaviour asked s (machine.pass behaviour millis) (machine.pass behaviour millis).entries :=
  (covers.driveWithin _ _ _).then fun covers => covers.moveTo _

theorem Covers.start {place : String} {job : Job} (covers : s.Covers machine machine.entries)
    (known : s.places.contains place = true) (may : asked job) :
    LeadsTo behaviour asked s (machine.start behaviour place job).2
      (machine.start behaviour place job).2.entries := by
  have begun := covers.launch behaviour place machine.tasks job
  refine Leads.leadsTo (.step (.begin known may)) (Covers.of_same (begun.rearranged ?_) rfl rfl rfl rfl rfl)
  simp only [Machine.entries, Machine.start, newTasks, Option.getD_none, List.map_cons, List.map_append,
    List.map_nil, ← Multiset.coe_add, Multiset.coe_singleton, ← Multiset.singleton_add]
  abel

/-- Whatever a machine does until a job is done, with all that goes on beside it, is a run. -/
theorem Covers.run {place : String} {job : Job} (covers : s.Covers machine machine.entries)
    (known : s.places.contains place = true) (may : asked job) :
    LeadsTo behaviour asked s (machine.run behaviour place job).2
      (machine.run behaviour place job).2.entries :=
  (covers.start known may).then fun covers => covers.driveWithin _ _ _

end LeaseFleet.Interleaving

namespace LeaseFleet

/-! ### Runs of a fleet -/

/-- The fleet of the given workers around a store that counts without end, before it has done anything. -/
def Fleet.ofSetups (leases : List Lease) (setups : List WorkerSetup) : Fleet :=
  setups.foldl Fleet.add { machine := { world := { table := .ofLeases leases, capacity := .unlimited } } }

/-- What a fleet does for its users: its workers can be asked for everything but background work, and
between that time may pass and the surroundings may change, but for the leases. -/
inductive Fleet.Serves : Fleet → Fleet → Prop
  | perform {fleet : Fleet} {workerId : String} {duty : Duty}
      (known : fleet.machine.places.contains workerId = true) (may : duty.background? = none) :
      Serves fleet (fleet.perform workerId duty).2
  | spawn {fleet : Fleet} {workerId : String} {duty : Duty}
      (known : fleet.machine.places.contains workerId = true) (may : duty.background? = none) :
      Serves fleet (fleet.spawn workerId duty)
  | join (fleet : Fleet) : Serves fleet fleet.join.2
  | pass (fleet : Fleet) (millis : Nat) : Serves fleet (fleet.pass millis)
  | settle (fleet : Fleet) : Serves fleet fleet.settle
  | change {fleet : Fleet} {f : World → World} (capacity : (f fleet.world).capacity = fleet.world.capacity)
      (table : (f fleet.world).table = fleet.world.table)
      (tokens : (f fleet.world).tokens = fleet.world.tokens) : Serves fleet (fleet.changeWorld f)

theorem covers_ofSetups (leases : List Lease) (setups : List WorkerSetup) :
    (fleetStart leases setups).Covers (Fleet.ofSetups leases setups).machine
      (Fleet.ofSetups leases setups).machine.entries := by
  have built (fleet : Fleet) : (setups.foldl Fleet.add fleet).machine =
      { fleet.machine with
        places := setups.foldl (fun places setup => places.insert setup.workerId setup.worker)
          fleet.machine.places } := by
    induction setups generalizing fleet with
    | nil => rfl
    | cons setup rest ih => exact ih (fleet.add setup)
  unfold Fleet.ofSetups
  rw [built]
  exact ⟨rfl, rfl, rfl, rfl, rfl, by simp [fleetStart], by simp [Machine.entries], by simp [Machine.entries]⟩

theorem Fleet.Serves.covers {fleet later : Fleet} {s : FleetState} (serves : fleet.Serves later)
    (covers : s.Covers fleet.machine fleet.machine.entries) :
    Interleaving.LeadsTo Duty.behaviour (fun duty => duty.background? = none) s later.machine
      later.machine.entries := by
  cases serves with
  | perform known may => exact covers.run (covers.places ▸ known) may
  | spawn known may => exact (covers.start (covers.places ▸ known) may).then fun covers => covers.settleWithin _
  | join => exact covers.driveWithin _ _ _
  | pass millis => exact covers.pass millis
  | settle => exact covers.settleWithin _
  | change capacity table tokens =>
    exact Interleaving.Covers.leadsTo (covers.of_same capacity table tokens rfl rfl)

/-- Whatever a fleet does for its users is a run, at whose end the table, the places and the threads are
those of the fleet. -/
theorem run_of_served {leases : List Lease} {setups : List WorkerSetup} {fleet : Fleet}
    (served : Relation.ReflTransGen Fleet.Serves (.ofSetups leases setups) fleet) :
    ∃ trace s, FleetRun (fleetStart leases setups) trace s ∧
      s.Covers fleet.machine fleet.machine.entries := by
  have reached : Interleaving.LeadsTo Duty.behaviour (fun duty => duty.background? = none)
      (fleetStart leases setups) fleet.machine fleet.machine.entries := by
    induction served with
    | refl => exact (covers_ofSetups leases setups).leadsTo
    | tail _ serves ih => exact ih.then serves.covers
  obtain ⟨s, ⟨trace, run⟩, covers⟩ := reached
  exact ⟨trace, s, run, covers⟩

end LeaseFleet
