import LeaseFleet.Proofs.Fleet.Fencing
import LeaseFleet.Proofs.Fleet.LoopThreads
import LeaseFleet.Proofs.Worker.WorkBesideConsumers
import LeaseFleet.Proofs.Interleaving.ThreadActions
import Mathlib.Algebra.BigOperators.Group.Finset.Basic
import Mathlib.Algebra.Order.BigOperators.Group.Finset

/-!
# The loops that are left

At every instant of a run each thread keeps to its duty with some loops left to it, and a coordinator knows
of all loops that are left to the threads at its place (`Balanced`). So when it waits until no loop is
running, no thread is left that could take leases up. What the action of a thread comes to is said once,
whatever the action is (`Moves`).
-/

namespace LeaseFleet

/-- Why a consumer was asked to stop first. -/
def Crew.reasonOf (crew : Crew) (number : Nat) : Option ShutdownReason :=
  (crew.member? number).bind Consumer.reason

namespace Worker

/-- The consumers are the same, and nobody was asked anything. -/
structure Rests (found now : Worker) : Prop where
  consumers : now.consumers = found.consumers
  reasons : ∀ number, now.crew.reasonOf number = found.crew.reasonOf number
  stopping : now.stopping = found.stopping
  phase : found.phase.rank ≤ now.phase.rank

theorem rests_of_same {found now : Worker} (consumers : now.consumers = found.consumers)
    (crew : now.crew = found.crew) (stopping : now.stopping = found.stopping) (phase : now.phase = found.phase) :
    found.Rests now :=
  ⟨consumers, fun _ => by rw [crew], stopping, Nat.le_of_eq (congrArg _ phase.symm)⟩

@[simp] theorem stopping_enter (worker : Worker) (phase : WorkerPhase) :
    (worker.enter phase).stopping = worker.stopping := by
  unfold enter
  split <;> rfl

theorem rests_enter (worker : Worker) (phase : WorkerPhase) : worker.Rests (worker.enter phase) := by
  refine ⟨worker.enter_consumers phase, fun _ => by rw [enter_crew], worker.stopping_enter phase, ?_⟩
  unfold enter
  split
  · rename_i later
    exact Nat.le_of_lt later
  · exact Nat.le_refl _

theorem rests_finishConsumer (worker : Worker) (number : Nat) : worker.Rests (worker.finishConsumer number) := by
  have reasons (other : Nat) : (worker.crew.finish number).reasonOf other = worker.crew.reasonOf other := by
    unfold Crew.finish Crew.reasonOf
    split
    · rfl
    · simp only [Crew.member?, Crew.modify, List.getElem?_modify]
      cases worker.crew.members[other]? with
      | none => rfl
      | some consumer => by_cases same : number = other <;> simp [same]
  unfold finishConsumer
  split
  · dsimp only
    split
    · exact ⟨rfl, reasons, rfl, Nat.le_refl _⟩
    · exact ⟨rfl, reasons, rfl, Nat.le_refl _⟩
  · exact ⟨rfl, reasons, rfl, Nat.le_refl _⟩

end Worker

/-- A question, or a change that leaves the consumers alone. -/
def Act.Rests : Act Worker → Prop
  | asked _ _ => True
  | changed found now => found.Rests now

theorem routine_rests : Routine Act.Rests where
  asked _ _ := trivial
  kept same := Worker.rests_of_same same.consumers same.crew same.stopping same.phase
  coordinator _ _ _ := Worker.rests_of_same rfl rfl rfl rfl
  entered worker phase := worker.rests_enter phase

theorem behaviour_rests {duty : Duty} (calm : duty.isCalm = true) : (Duty.behaviour duty).Stays Act.Rests := by
  have lifted {α : Type} {script : WorkerScript α} (stays : script.Stays Act.Rests) :
      (Duty.script script).Stays Act.Rests :=
    Script.Stays.embed (fun _ _ => trivial) (fun _ _ => id) stays
  cases duty with
  | request asked =>
    suffices stays : asked.perform.Stays Act.Rests from (lifted stays).bind fun _ => trivial
    cases asked with
    | renew => exact (routine_rests.keeping Coordinator.renew_goesOn).bind fun _ => trivial
    | rebalance => exact (routine_rests.keeping Coordinator.rebalance_goesOn).bind fun _ => trivial
    | startLoops => exact (routine_rests.keeping Coordinator.start_goesOn).bind fun _ => trivial
    | isLeader => exact (routine_rests.keeping Coordinator.isLeader_goesOn).bind fun _ => trivial
    | checkpoint leaseKey token position =>
      have goesOn := Coordinator.updateCheckpoint_goesOn leaseKey token position
      exact (routine_rests.keeping goesOn).bind fun _ => trivial
    | shouldFillTable => exact routine_rests.shouldFillTable.bind fun _ => trivial
    | report rejection =>
      refine Script.Stays.bind (routine_rests.step (fun _ => rfl) fun _ => ?_) fun _ => trivial
      exact (routine_rests.record _).bind fun _ => trivial
    | lookup leaseKey =>
      refine (routine_rests.query (.store .list)).bind fun reply => ?_
      cases reply <;> trivial
    | _ => cases calm
  | background job =>
    suffices stays : (Worker.perform job).Stays Act.Rests by
      refine (lifted stays).bind fun next => ?_
      cases next <;> trivial
    cases job with
    | coordinator job => exact (routine_rests.keeping (Coordinator.perform_goesOn job)).bind fun _ => trivial
    | consume number =>
      refine Script.Stays.bind (routine_rests.step (fun _ => rfl) fun _ => ?_) fun _ => trivial
      refine Script.step_only (fun worker _ => worker.rests_finishConsumer number) fun found _ => ?_
      split
      · exact routine_rests.record _
      · trivial
    | captureLoop => exact routine_rests.sampling (.inl rfl)
    | reportLoop => exact routine_rests.sampling (.inr rfl)
  | run | process => cases calm

/-! ## What the threads at a place have left -/

/-- Every thread keeps to its duty, with some loops left to it, and calm ones leave the consumers alone. -/
structure Watched (s : FleetState) (left : Nat → Nat) : Prop where
  minds : ∀ {id thread}, s.threads.get? id = some thread → thread.job.Minds thread.script (left id)
  rests : ∀ {id thread}, s.threads.get? id = some thread → thread.job.isCalm = true →
    thread.script.Stays Act.Rests
  fresh : ∀ {id thread}, s.threads.get? id = some thread → id < s.started

/-- What a thread has left, if it is at a place. -/
def FleetState.charge (place : String) (s : FleetState) (left : Nat → Nat) (id : Nat) : Nat :=
  (s.threads.get? id).elim 0 fun thread => if thread.place = place then left id else 0

/-- What all threads at a place have left. -/
def FleetState.owed (place : String) (s : FleetState) (left : Nat → Nat) : Nat :=
  ∑ id ∈ Finset.range s.started, s.charge place left id

namespace FleetState

variable {place there : String} {s : FleetState} {left : Nat → Nat} {id rest : Nat}
  {thread : Thread Worker Duty Outcome}

theorem charge_of_found (found : s.threads.get? id = some thread) :
    s.charge place left id = if thread.place = place then left id else 0 := by
  rw [charge, found, Option.elim_some]

theorem charge_le_owed (old : id < s.started) : s.charge place left id ≤ s.owed place left :=
  Finset.single_le_sum (f := s.charge place left) (fun _ _ => Nat.zero_le _) (Finset.mem_range.2 old)

theorem owed_of_same_threads {other : FleetState} (threads : other.threads = s.threads)
    (started : other.started = s.started) : owed place other left = s.owed place left := by
  unfold owed charge
  rw [threads, started]

/-- A thread goes on with something else left to it. -/
theorem owed_goOn (place : String) (left : Nat → Nat) (thread : Thread Worker Duty Outcome) (rest : Nat)
    (old : id < s.started) :
    owed place (s.goOn id thread) (setMark left id rest) + s.charge place left id =
      s.owed place left + if thread.place = place then rest else 0 := by
  have here : id ∈ Finset.range s.started := Finset.mem_range.2 old
  have others : ∑ other ∈ (Finset.range s.started).erase id,
        charge place (s.goOn id thread) (setMark left id rest) other =
      ∑ other ∈ (Finset.range s.started).erase id, s.charge place left other := by
    refine Finset.sum_congr rfl fun other mem => ?_
    have ne := Finset.ne_of_mem_erase mem
    rw [charge, charge, setMark_of_ne left ne, Interleaving.goOn, SortedMap.get?_insert_of_ne _ ne]
  have now : charge place (s.goOn id thread) (setMark left id rest) id =
      if thread.place = place then rest else 0 := by
    rw [charge_of_found (SortedMap.get?_insert_self ..), setMark_self]
  have total := Finset.add_sum_erase _ (charge place (s.goOn id thread) (setMark left id rest)) here
  have before := Finset.add_sum_erase _ (s.charge place left) here
  rw [others, now] at total
  have sameRange : owed place (s.goOn id thread) (setMark left id rest) =
      ∑ other ∈ Finset.range s.started, charge place (s.goOn id thread) (setMark left id rest) other := rfl
  rw [sameRange, owed]
  omega

theorem owed_launch (duty : Duty) :
    owed place (s.launch Duty.behaviour there duty) (setMark left s.started rest) =
      s.owed place left + if there = place then rest else 0 := by
  have now : charge place (s.launch Duty.behaviour there duty) (setMark left s.started rest) s.started =
      if there = place then rest else 0 := by
    rw [charge_of_found (SortedMap.get?_insert_self ..), setMark_self]
  have started : (s.launch Duty.behaviour there duty).started = s.started + 1 := rfl
  rw [owed, started, Finset.sum_range_succ, now, owed]
  refine congrArg (· + _) (Finset.sum_congr rfl fun other mem => ?_)
  have ne := Nat.ne_of_lt (Finset.mem_range.1 mem)
  rw [charge, charge, setMark_of_ne left ne, Interleaving.launch, SortedMap.get?_insert_of_ne _ ne]

theorem owed_drop_le : owed place (s.drop id) left ≤ s.owed place left := by
  refine Finset.sum_le_sum fun other _ => ?_
  unfold charge
  cases found : (s.drop id).threads.get? other with
  | none => exact Nat.zero_le _
  | some thread => rw [(SortedMap.get?_erase_eq_some_iff.1 found).2]

end FleetState

/-! ## What the action of a thread comes to -/

namespace Watched

variable {s after : FleetState} {left : Nat → Nat} {id rest : Nat} {thread old : Thread Worker Duty Outcome}
  {event : Event Duty Outcome} {place : String}

theorem of_same_threads {other : FleetState} (watched : Watched s left) (threads : other.threads = s.threads)
    (started : other.started = s.started) : Watched other left where
  minds found := watched.minds (threads ▸ found)
  rests found := watched.rests (threads ▸ found)
  fresh found := started ▸ watched.fresh (threads ▸ found)

/-- What is to be known of a thread with something left to it. -/
structure Knows (thread : Thread Worker Duty Outcome) (rest : Nat) : Prop where
  minds : thread.job.Minds thread.script rest
  rests : thread.job.isCalm = true → thread.script.Stays Act.Rests

theorem knows_of_behaviour (place : String) (duty : Duty) (pending : List Nat) :
    Knows { place, job := duty, script := duty.behaviour, pending } duty.loops :=
  ⟨duty.minds, fun calm => behaviour_rests calm⟩

theorem knows (watched : Watched s left) (found : s.threads.get? id = some thread) : Knows thread (left id) :=
  ⟨watched.minds found, watched.rests found⟩

theorem goOn (watched : Watched s left) (isOld : id < s.started) (knows : Knows thread rest) :
    Watched (s.goOn id thread) (setMark left id rest) := by
  have all {other : Nat} {there : Thread Worker Duty Outcome}
      (here : (s.goOn id thread).threads.get? other = some there) : Knows there (setMark left id rest other) :=
    forall_threads_insert (P := Knows) knows (fun _ found => watched.knows found) here
  refine ⟨fun here => (all here).minds, fun here => (all here).rests, fun here => ?_⟩
  exact SortedMap.forall_insert (P := fun other _ => other < s.started) isOld (fun _ => watched.fresh) here

theorem launch (watched : Watched s left) (place : String) (duty : Duty) :
    Watched (s.launch Duty.behaviour place duty) (setMark left s.started duty.loops) := by
  have all {other : Nat} {there : Thread Worker Duty Outcome}
      (here : (s.launch Duty.behaviour place duty).threads.get? other = some there) :
      Knows there (setMark left s.started duty.loops other) :=
    forall_threads_insert (P := Knows) (knows_of_behaviour place duty []) (fun _ found => watched.knows found) here
  refine ⟨fun here => (all here).minds, fun here => (all here).rests, fun here => ?_⟩
  exact SortedMap.forall_insert (P := fun other _ => other < s.started + 1) (Nat.lt_succ_self _)
    (fun _ here => Nat.lt_succ_of_lt (watched.fresh here)) here

theorem drop (watched : Watched s left) : Watched (s.drop id) left where
  minds found := watched.minds (SortedMap.get?_erase_eq_some_iff.1 found).2
  rests found := watched.rests (SortedMap.get?_erase_eq_some_iff.1 found).2
  fresh found := watched.fresh (SortedMap.get?_erase_eq_some_iff.1 found).2

/-- New threads have what their duties have at first. -/
theorem launchAll (watched : Watched s left) (there : String) (duties : List Duty) :
    ∃ remaining, Watched (s.launchAll Duty.behaviour there duties) remaining ∧ ∀ place,
      FleetState.owed place (s.launchAll Duty.behaviour there duties) remaining =
        s.owed place left + if there = place then (duties.map Duty.loops).sum else 0 := by
  induction duties generalizing s left with
  | nil => exact ⟨left, watched, fun place => by simp [Interleaving.launchAll]⟩
  | cons duty others ih =>
    obtain ⟨remaining, watchedNow, owed⟩ := ih (watched.launch there duty)
    refine ⟨remaining, watchedNow, fun place => ?_⟩
    have first := (owed place).trans (congrArg (· + _) (FleetState.owed_launch duty))
    refine first.trans ?_
    by_cases same : there = place <;> simp [same, Nat.add_assoc]

end Watched

/-- What the action of a thread comes to. Nothing is left that was not there before, and the place of the
thread changes as its duty allows. What it starts and what follows on it is as calm as it is. -/
structure Moves (s : FleetState) (left : Nat → Nat) (id : Nat) (thread : Thread Worker Duty Outcome)
    (event : Event Duty Outcome) (after : FleetState) (remaining : Nat → Nat) : Prop where
  watched : Watched after remaining
  elsewhere : ∀ {place}, place ≠ thread.place → after.places.get? place = s.places.get? place ∧
    after.owed place remaining ≤ s.owed place left
  here : after.places.get? thread.place = s.places.get? thread.place ∧
      after.owed thread.place remaining ≤ s.owed thread.place left ∨
    ∃ found now rest, s.places.get? thread.place = some found ∧ after.places.get? thread.place = some now ∧
      Coordinator.Turns thread.job (left id) found.coordinator now.coordinator rest ∧
      after.owed thread.place remaining + left id = s.owed thread.place left + rest ∧
      (thread.job.isCalm = true → found.Rests now)
  threads : ∀ {other there}, after.threads.get? other = some there → s.threads.get? other = some there ∨
    there.place = thread.place ∧ (thread.job.isCalm = true → there.job.isCalm = true)
  calls : ∀ {place duty call reply}, event = .called place duty call reply →
    place = thread.place ∧ duty = thread.job ∧ duty.MayCall (left id) call

section

variable {s mid after : FleetState} {left : Nat → Nat} {id rest : Nat} {thread : Thread Worker Duty Outcome}
  {event : Event Duty Outcome}

/-- A thread goes on, and may start others, and its place stays as it is. -/
theorem moves_of_goOn (watched : Watched s left) (found : s.threads.get? id = some thread)
    (threads : mid.threads = s.threads) (started : mid.started = s.started) (places : mid.places = s.places)
    (now : Thread Worker Duty Outcome) (atPlace : now.place = thread.place) (knows : Watched.Knows now rest)
    (duties : List Duty)
    (passesOn : rest + (duties.map Duty.loops).sum ≤ left id)
    (calm : thread.job.isCalm = true → now.job.isCalm = true ∧ ∀ duty ∈ duties, duty.isCalm = true)
    (calls : ∀ {place duty call reply}, event = .called place duty call reply →
      place = thread.place ∧ duty = thread.job ∧ duty.MayCall (left id) call) :
    ∃ remaining, Moves s left id thread event
      ((mid.goOn id now).launchAll Duty.behaviour thread.place duties) remaining := by
  have isOld : id < mid.started := started ▸ watched.fresh found
  have there : mid.threads.get? id = some thread := threads ▸ found
  have onTheWay := (watched.of_same_threads threads started).goOn isOld knows
  obtain ⟨remaining, watchedNow, owed⟩ := onTheWay.launchAll thread.place duties
  have total (place : String) := FleetState.owed_goOn place left now rest isOld
  have sameOwed (place : String) : mid.owed place left = s.owed place left :=
    FleetState.owed_of_same_threads threads started
  have samePlaces (place : String) :
      ((mid.goOn id now).launchAll Duty.behaviour thread.place duties).places.get? place =
        s.places.get? place := by
    rw [Interleaving.launchAll_places, ← places]
    rfl
  refine ⟨remaining, watchedNow, fun elsewhere => ⟨samePlaces _, ?_⟩, .inl ⟨samePlaces _, ?_⟩, fun here => ?_,
    calls⟩
  · rename_i place
    have here := total place
    rw [FleetState.charge_of_found there, atPlace, if_neg elsewhere.symm, if_neg elsewhere.symm, sameOwed] at here
    rw [owed, if_neg elsewhere.symm]
    exact Nat.le_of_eq here
  · have here := total thread.place
    rw [FleetState.charge_of_found there, atPlace, if_pos rfl, if_pos rfl, sameOwed] at here
    rw [owed, if_pos rfl]
    omega
  · rcases Interleaving.job_of_launchAll here with earlier | ⟨isThere, started⟩
    · rcases SortedMap.get?_insert_eq_some_iff.1 earlier with ⟨rfl, rfl⟩ | ⟨_, earlier⟩
      · exact .inr ⟨atPlace, fun isCalm => (calm isCalm).1⟩
      · exact .inl (threads ▸ earlier)
    · exact .inr ⟨isThere, fun isCalm => (calm isCalm).2 _ started⟩

theorem moves_of_acts (watched : Watched s left) (found : s.threads.get? id = some thread)
    (acts : Interleaving.Acts Duty.behaviour s id thread event after) :
    ∃ remaining, Moves s left id thread event after remaining := by
  have isOld := watched.fresh found
  have minds := watched.minds found
  have rests := watched.rests found
  cases acts with
  | @ask answered query next reply here answers =>
    rw [here] at minds rests
    obtain ⟨rest, ⟨rfl, may⟩, minds⟩ := minds reply trivial
    refine moves_of_goOn watched found answers.threads answers.started answers.places
      { thread with script := next reply } rfl ⟨minds, fun calm => ?_⟩ [] (Nat.le_refl _)
      (fun calm => ⟨calm, by simp⟩) fun shown => ?_
    · obtain ⟨_, _, rests⟩ := rests calm reply trivial
      exact rests
    · cases query with
      | store call =>
        cases shown
        exact ⟨rfl, rfl, may _ rfl⟩
      | _ => cases shown
  | @change permits change next state here atPlace permitted =>
    rw [here] at minds rests
    obtain ⟨rest, turns, minds⟩ := minds state trivial permitted
    have knows : Watched.Knows { thread with script := next state } rest := by
      refine ⟨minds, fun calm => ?_⟩
      obtain ⟨_, _, rests⟩ := rests calm state trivial permitted
      exact rests
    have moved : Watched (s.setPlace thread.place (change state)) left := watched.of_same_threads rfl rfl
    have total (place : String) : FleetState.owed place ((s.setPlace thread.place (change state)).goOn id
        { thread with script := next state }) (setMark left id rest) + s.charge place left id =
          s.owed place left + if thread.place = place then rest else 0 :=
      FleetState.owed_goOn place left _ rest (s := s.setPlace thread.place (change state)) isOld
    refine ⟨setMark left id rest, moved.goOn isOld knows, fun elsewhere => ⟨?_, ?_⟩, .inr ?_, fun here => ?_,
      nofun⟩
    · exact SortedMap.get?_insert_of_ne _ elsewhere _
    · rename_i place
      have here := total place
      rw [FleetState.charge_of_found found, if_neg elsewhere.symm, if_neg elsewhere.symm] at here
      exact Nat.le_of_eq here
    · have here := total thread.place
      rw [FleetState.charge_of_found found, if_pos rfl, if_pos rfl] at here
      refine ⟨state, change state, rest, atPlace, SortedMap.get?_insert_self .., turns, here, fun calm => ?_⟩
      obtain ⟨_, rests, _⟩ := rests calm state trivial permitted
      exact rests
    · rcases SortedMap.get?_insert_eq_some_iff.1 here with ⟨rfl, rfl⟩ | ⟨_, earlier⟩
      · exact .inr ⟨rfl, id⟩
      · exact .inl earlier
  | @sleep millis stopped next state complete here =>
    rw [here] at minds rests
    exact moves_of_goOn watched found rfl rfl rfl { thread with script := next complete } rfl
      ⟨minds complete, fun calm => rests calm complete⟩ [] (Nat.le_refl _) (fun calm => ⟨calm, by simp⟩) nofun
  | @spawn job next here =>
    rw [here] at minds rests
    obtain ⟨child, rest, starts, minds⟩ := minds
    obtain ⟨same, calmToo⟩ := Duty.starts_cases starts
    refine moves_of_goOn watched found rfl rfl rfl { thread with script := next } rfl ⟨minds, fun calm => ?_⟩ [job]
      (by simp [same]) (fun calm => ⟨calm, by simpa using calmToo (Duty.mayRelease_of_calm calm)⟩) nofun
    obtain ⟨_, _, _, rests⟩ := rests calm
    exact rests
  | @gather jobs next here =>
    rw [here] at minds rests
    obtain ⟨children, rest, starts, minds⟩ := minds
    obtain ⟨same, calmToo⟩ := Duty.startsAll_cases starts
    refine moves_of_goOn watched found rfl rfl rfl
      { thread with script := next, pending := s.nextIds jobs } rfl ⟨minds, fun calm => ?_⟩ jobs
      (Nat.le_of_eq same.symm) (fun calm => ⟨calm, calmToo (Duty.mayRelease_of_calm calm)⟩) nofun
    obtain ⟨_, _, _, rests⟩ := rests calm
    exact rests
  | @follow job here =>
    rw [here] at minds
    obtain ⟨rest, calmToo⟩ := minds
    exact moves_of_goOn watched found rfl rfl rfl { thread with job, script := Duty.behaviour job } rfl
      (Watched.knows_of_behaviour thread.place job thread.pending) [] (by simpa using rest)
      (fun calm => ⟨calmToo calm, by simp⟩) nofun
  | @finish result here =>
    refine ⟨left, watched.drop, fun _ => ⟨rfl, FleetState.owed_drop_le⟩, .inl ⟨rfl, FleetState.owed_drop_le⟩,
      fun here => ?_, nofun⟩
    exact .inl (SortedMap.get?_erase_eq_some_iff.1 here).2

end

/-! ## The balance of a coordinator -/

/-- As many loops are left to some threads, of a coordinator in this state. -/
structure Coordinator.Balances (state : Coordinator) (owed : Nat) : Prop where
  owed : owed ≤ state.running
  before : state.started = false → state.running = 0

theorem Coordinator.Balances.turns {duty : Duty} {found now : Coordinator} {left rest owed nowOwed : Nat}
    (balances : found.Balances owed) (turns : Turns duty left found now rest)
    (same : nowOwed + left = owed + rest) :
    now.Balances nowOwed := by
  have fits := balances.owed
  cases turns with
  | stay loops held =>
    refine ⟨by rw [loops.running]; omega, fun notStarted => ?_⟩
    exact loops.running ▸ balances.before (loops.started ▸ notStarted)
  | start can =>
    have notStarted : found.started = false := by simpa using (Bool.and_eq_true_iff.1 can).1
    have none := balances.before notStarted
    have started : found.markStarted = { found with started := true, running := loops.length } := if_pos can
    rw [started]
    exact ⟨by simp only; omega, nofun⟩
  | stop may => exact ⟨by simp only; omega, balances.before⟩
  | finish =>
    refine ⟨by simp only; omega, fun notStarted => ?_⟩
    simp [balances.before notStarted]

theorem Coordinator.Balances.weaken {state : Coordinator} {owed nowOwed : Nat} (balances : state.Balances owed)
    (fewer : nowOwed ≤ owed) : state.Balances nowOwed :=
  ⟨Nat.le_trans fewer balances.owed, balances.before⟩

/-- Every thread keeps to its duty, and the coordinators know of all loops that are left. -/
structure Balanced (s : FleetState) (left : Nat → Nat) : Prop extends Watched s left where
  balances : ∀ {place worker}, s.places.get? place = some worker →
    worker.coordinator.Balances (s.owed place left)

namespace Balanced

variable {s after answered : FleetState} {left : Nat → Nat} {id : Nat} {thread : Thread Worker Duty Outcome}
  {event : Event Duty Outcome} {trace : List (Event Duty Outcome)}

theorem act (balanced : Balanced s left) (found : s.threads.get? id = some thread)
    (acts : Interleaving.Acts Duty.behaviour s id thread event after) :
    ∃ remaining, Moves s left id thread event after remaining ∧ Balanced after remaining := by
  obtain ⟨remaining, moves⟩ := moves_of_acts balanced.toWatched found acts
  refine ⟨remaining, moves, moves.watched, fun {place worker} here => ?_⟩
  by_cases atPlace : place = thread.place
  · subst atPlace
    rcases moves.here with ⟨same, fewer⟩ | ⟨before, now, rest, there, isNow, turns, same, _⟩
    · exact (balanced.balances (same ▸ here)).weaken fewer
    · obtain rfl := Option.some.inj (isNow.symm.trans here)
      exact (balanced.balances there).turns turns same
  · obtain ⟨same, fewer⟩ := moves.elsewhere atPlace
    exact (balanced.balances (same ▸ here)).weaken fewer

theorem launch (balanced : Balanced s left) (place : String) {duty : Duty} (asked : duty.background? = none) :
    Balanced (s.launch Duty.behaviour place duty) (setMark left s.started duty.loops) := by
  have nothing : duty.loops = 0 := by
    cases duty with
    | background job => cases asked
    | _ => rfl
  refine ⟨balanced.toWatched.launch place duty, fun {there worker} here => ?_⟩
  rw [FleetState.owed_launch, nothing, ite_self, Nat.add_zero]
  exact balanced.balances here

theorem outside (balanced : Balanced s left) {call : StoreCall} {reply : call.Reply}
    (answers : s.Answers (.store call) reply answered) : Balanced (answered.keepCopies call reply) left := by
  have threads : (answered.keepCopies call reply).threads = s.threads := by
    rw [Interleaving.keepCopies_threads, answers.threads]
  have started : (answered.keepCopies call reply).started = s.started := by
    rw [Interleaving.keepCopies_started, answers.started]
  refine ⟨balanced.toWatched.of_same_threads threads started, fun {place worker} here => ?_⟩
  rw [FleetState.owed_of_same_threads threads started]
  rw [Interleaving.keepCopies_places, answers.places] at here
  exact balanced.balances here

theorem step (balanced : Balanced s left) (step : FleetStep s event after) :
    ∃ remaining, Balanced after remaining := by
  rcases step.acts with ⟨id, thread, ready, acts⟩ | ⟨place, duty, rfl, rfl, asked⟩ |
    ⟨call, reply, answered, rfl, rfl, answers⟩
  · obtain ⟨remaining, _, balanced⟩ := balanced.act ready.1 acts
    exact ⟨remaining, balanced⟩
  · exact ⟨_, balanced.launch place asked⟩
  · exact ⟨left, balanced.outside answers⟩

end Balanced

theorem balanced_of_run {leases : List Lease} {setups : List WorkerSetup} {trace : List (Event Duty Outcome)}
    {s : FleetState} (run : FleetRun (fleetStart leases setups) trace s) : ∃ left, Balanced s left := by
  generalize isFirst : fleetStart leases setups = first at run
  induction run with
  | refl =>
    subst isFirst
    refine ⟨fun _ => 0, ⟨nofun, nofun, nofun⟩, fun here => ?_⟩
    obtain ⟨setup, _, rfl⟩ := places_fleetStart here
    exact ⟨Nat.le_refl _, fun _ => rfl⟩
  | snoc _ step ih =>
    obtain ⟨left, balanced⟩ := ih
    exact balanced.step step

end LeaseFleet
