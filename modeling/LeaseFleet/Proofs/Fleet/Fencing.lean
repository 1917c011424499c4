import LeaseFleet.Proofs.Interleaving.Schedules
import LeaseFleet.Proofs.Fleet.LeaseVersions
import LeaseFleet.Simulation.Fleet

/-!
# Fencing

Whatever copies of leases are around in a fleet, with a worker that holds them, with a thread that
has read them or with somebody else, are versions that the table has held (`Fenced`), and every step
keeps this as long as no lease is deleted (`Fenced.move`). So a held lease with the stored counter
is the stored lease, which names its holder, and there is one such holder at most
(`held_exclusively`).
-/

namespace LeaseFleet

/-- A fleet as a set of threads around the table. -/
abbrev FleetState := Interleaving Worker Duty Outcome

/-- A fleet at its start: the given leases in the table, and workers that have done nothing yet. -/
def fleetStart (leases : List Lease) (setups : List WorkerSetup) : FleetState where
  table := .ofLeases leases
  places := setups.foldl (fun places setup => places.insert setup.workerId setup.worker) .empty

/-- The steps of a fleet: its workers can be asked for everything but background work. -/
abbrev FleetStep := Interleaving.Step Duty.behaviour fun duty => duty.background? = none

/-- The runs of a fleet. -/
abbrev FleetRun := Interleaving.Run Duty.behaviour fun duty => duty.background? = none

/-- All copies of leases are versions that the table has held, and workers hold only what names them
as the owner. -/
structure Fenced (past : Lease → Prop) (s : FleetState) (marks : Nat → Knowledge) : Prop where
  versions : Versions s.table past
  copies : ∀ {lease}, lease ∈ s.copies → past lease
  known : ∀ {id thread}, s.threads.get? id = some thread → ∀ {lease}, marks id lease → past lease
  holds : ∀ {place worker}, s.places.get? place = some worker → worker.coordinator.HoldsOwn place
  held : ∀ {place worker leaseKey held}, s.places.get? place = some worker →
    worker.coordinator.held.get? leaseKey = some held → past held.lease

/-- What somebody else may call is honest, if all copies are known: only moves update leases. -/
theorem honest_of_mayCall {past : Knowledge} {s : FleetState} {call : StoreCall}
    (copies : ∀ {lease}, lease ∈ s.copies → past lease) (may : s.MayCall call) :
    Honest (fun deed _ => ∃ target, deed = .move target) past (.store call) := by
  cases may with
  | list | create | delete => trivial
  | move read => exact ⟨.move _, _, copies read, ⟨_, rfl⟩, rfl, rfl⟩

/-! ## What the parts of a step keep -/

namespace Fenced

variable {past later : Lease → Prop} {s : FleetState} {marks : Nat → Knowledge} {mark : Knowledge}

/-- The table may get another state, of which all versions so far are versions still. -/
theorem withTable {table : LeaseTable} (fenced : Fenced past s marks) (versions : Versions table later)
    (keeps : ∀ lease, past lease → later lease) : Fenced later { s with table } marks where
  versions
  copies mem := keeps _ (fenced.copies mem)
  known found _ mem := keeps _ (fenced.known found mem)
  holds := fenced.holds
  held found here := keeps _ (fenced.held found here)

/-- A thread may get another mark that covers versions only. -/
theorem remark (fenced : Fenced past s marks) (id : Nat) (known : ∀ lease, mark lease → past lease) :
    Fenced past s (setMark marks id mark) where
  versions := fenced.versions
  copies := fenced.copies
  known {other} _ found lease mem := by
    by_cases same : other = id
    · subst same
      exact known lease (by simpa using mem)
    · rw [setMark_of_ne marks same] at mem
      exact fenced.known found mem
  holds := fenced.holds
  held := fenced.held

theorem goOn (fenced : Fenced past s marks) (id : Nat) (thread : Thread Worker Duty Outcome)
    (known : ∀ lease, mark lease → past lease) :
    Fenced past (s.goOn id thread) (setMark marks id mark) where
  versions := fenced.versions
  copies := fenced.copies
  known {other _} found _ mem := by
    have inAll : ∀ lease, setMark marks id mark other lease → past lease :=
      forall_threads_insert (P := fun _ (mark : Knowledge) => ∀ lease, mark lease → past lease) known
        (fun _ here _ mem => fenced.known here mem) found
    exact inAll _ mem
  holds := fenced.holds
  held := fenced.held

theorem stay {id : Nat} {old : Thread Worker Duty Outcome} (fenced : Fenced past s marks)
    (found : s.threads.get? id = some old) (thread : Thread Worker Duty Outcome) :
    Fenced past (s.goOn id thread) marks := by
  have known : ∀ lease, marks id lease → past lease := fun _ => fenced.known found
  have same := fenced.goOn id thread known
  rwa [Discipline.setMark_same] at same

theorem launch (fenced : Fenced past s marks) (place : String) (duty : Duty)
    (known : ∀ lease, mark lease → past lease) :
    Fenced past (s.launch Duty.behaviour place duty) (setMark marks s.started mark) where
  versions := fenced.versions
  copies := fenced.copies
  known := (fenced.goOn _ _ known).known
  holds := fenced.holds
  held := fenced.held

theorem drop {id : Nat} (fenced : Fenced past s marks) : Fenced past (s.drop id) marks where
  versions := fenced.versions
  copies := fenced.copies
  known found := fenced.known (SortedMap.get?_erase_eq_some_iff.1 found).2
  holds := fenced.holds
  held := fenced.held

/-- A thread may learn less, and what its place holds. -/
theorem relearn {id : Nat} {thread : Thread Worker Duty Outcome} {worker : Worker}
    (fenced : Fenced past s marks) (found : s.threads.get? id = some thread)
    (here : s.places.get? thread.place = some worker)
    (learnt : ∀ lease, mark lease → marks id lease ∨ ∃ leaseKey held,
      worker.coordinator.held.get? leaseKey = some held ∧ held.lease = lease) :
    ∀ lease, mark lease → past lease := by
  intro lease mem
  rcases learnt lease mem with known | ⟨leaseKey, held, inMap, rfl⟩
  · exact fenced.known found known
  · exact fenced.held here inMap

/-- A worker may gain what is known to be a version. -/
theorem setPlace {place : String} {worker after : Worker} (fenced : Fenced past s marks)
    (here : s.places.get? place = some worker) (known : ∀ lease, mark lease → past lease)
    (gains : worker.coordinator.Gains place mark after.coordinator) :
    Fenced past (s.setPlace place after) marks where
  versions := fenced.versions
  copies := fenced.copies
  known := fenced.known
  holds {other} _ found := by
    rcases SortedMap.get?_insert_eq_some_iff.1 found with ⟨rfl, rfl⟩ | ⟨_, found⟩
    · exact (fenced.holds here).gains gains
    · exact fenced.holds found
  held {other} _ _ _ found inMap := by
    rcases SortedMap.get?_insert_eq_some_iff.1 found with ⟨rfl, rfl⟩ | ⟨_, found⟩
    · rcases gains.held inMap with before | ⟨_, new⟩
      · exact fenced.held here before
      · exact known _ new
    · exact fenced.held found inMap

theorem keepCopies (fenced : Fenced past s marks) {call : StoreCall} {reply : call.Reply}
    (told : ∀ lease, Tells (.store call) reply lease → past lease) :
    Fenced past (s.keepCopies call reply) marks := by
  unfold Interleaving.keepCopies
  split
  · refine ⟨fenced.versions, fun {lease} mem => ?_, fenced.known, fenced.holds, fenced.held⟩
    exact (List.mem_append.1 mem).elim (told lease) fenced.copies
  · exact fenced

/-- Every move that deletes nothing keeps the copies versions. -/
theorem move {asked : Duty → Prop} {event : Event Duty Outcome} {after : FleetState}
    {remarked : Nat → Knowledge} (fenced : Fenced past s marks)
    (move : fleetDiscipline.Move Duty.behaviour asked s marks event after remarked)
    (kept : ¬event.Deletes) : ∃ later, Fenced later after remarked := by
  cases move with
  | ask script found answers isOpen =>
    obtain ⟨honest, learnt⟩ := isOpen
    have known : ∀ lease, _ → past lease := fun _ => fenced.known found
    cases answers with
    | stored call =>
      obtain ⟨later, keeps, versions, told⟩ := fenced.versions.perform (honest.imp known) kept
      refine ⟨later, (fenced.withTable versions keeps).goOn _ _ fun lease mem => ?_⟩
      exact (learnt lease mem).elim (keeps _ ∘ known lease) (told lease)
    | failed call error =>
      exact ⟨past, fenced.goOn _ _ fun lease mem =>
        (learnt lease mem).elim (known lease) (absurd · not_tells_failed)⟩
    | token =>
      have same : Fenced past { s with tokens := s.tokens + 1 } marks :=
        ⟨fenced.versions, fenced.copies, fenced.known, fenced.holds, fenced.held⟩
      exact ⟨past, same.goOn _ _ fun lease mem => (learnt lease mem).elim (known lease) False.elim⟩
    | other notCall =>
      exact ⟨past, fenced.goOn _ _ fun lease mem =>
        (learnt lease mem).elim (known lease) (absurd · (not_tells_of_not_call notCall))⟩
  | change script found here isOpen =>
    obtain ⟨gains, learnt⟩ := isOpen
    refine ⟨past, (fenced.setPlace here (fun _ => fenced.known found) gains).goOn _ _ ?_⟩
    exact fenced.relearn found here learnt
  | stay script pending found =>
    exact ⟨past, fenced.stay found _⟩
  | spawn thread found isOpen =>
    obtain ⟨learnt, kept⟩ := starts_subset isOpen
    have known : ∀ lease, _ → past lease := fun _ => fenced.known found
    refine ⟨past, (fenced.remark _ fun lease mem => ?_).launch _ _ fun lease mem => ?_⟩
    · exact known lease (kept lease mem)
    · exact known lease (learnt lease mem)
  | follow found isOpen =>
    exact ⟨past, fenced.goOn _ _ fun lease mem => fenced.known found ((starts_subset isOpen).1 lease mem)⟩
  | finish found isOpen => exact ⟨past, fenced.drop⟩
  | begin known may => exact ⟨past, fenced.launch _ _ fun _ => False.elim⟩
  | outside may answers =>
    have honest := honest_of_mayCall fenced.copies may
    cases answers with
    | stored call =>
      obtain ⟨later, keeps, versions, told⟩ := fenced.versions.perform honest kept
      exact ⟨later, (fenced.withTable versions keeps).keepCopies told⟩
    | failed call error =>
      exact ⟨past, fenced.keepCopies fun lease told => absurd told not_tells_failed⟩
    | other notCall => exact absurd rfl (notCall _)

end Fenced

/-! ## Runs -/

section

variable {leases : List Lease} {setups : List WorkerSetup} {s : FleetState}
  {trace : List (Event Duty Outcome)}

theorem places_fleetStart {place : String} {worker : Worker}
    (found : (fleetStart leases setups).places.get? place = some worker) :
    ∃ setup : WorkerSetup, setup.workerId = place ∧ setup.worker = worker := by
  have along (rest : List WorkerSetup) (places : SortedMap String Worker)
      (known : ∀ {worker}, places.get? place = some worker →
        ∃ setup : WorkerSetup, setup.workerId = place ∧ setup.worker = worker)
      (found : (rest.foldl (fun places setup => places.insert setup.workerId setup.worker)
        places).get? place = some worker) :
      ∃ setup : WorkerSetup, setup.workerId = place ∧ setup.worker = worker := by
    induction rest generalizing places with
    | nil => exact known found
    | cons setup rest ih =>
      refine ih (places.insert setup.workerId setup.worker) (fun here => ?_) found
      rcases SortedMap.get?_insert_eq_some_iff.1 here with ⟨rfl, rfl⟩ | ⟨_, here⟩
      · exact ⟨setup, rfl, rfl⟩
      · exact known here
  exact along setups .empty (by simp) found

theorem fenced_fleetStart (leases : List Lease) (setups : List WorkerSetup) :
    Fenced (fun lease => (LeaseTable.ofLeases leases).get? lease.leaseKey = some lease)
      (fleetStart leases setups) fun _ => fleetDiscipline.idle where
  versions := .of_ofLeases leases
  copies mem := by simp [fleetStart] at mem
  known found := by simp [fleetStart] at found
  holds found := by
    obtain ⟨setup, rfl, rfl⟩ := places_fleetStart found
    exact ⟨rfl, fun {leaseKey held} inMap => by
      simp [WorkerSetup.worker, Coordinator.ofSettings] at inMap⟩
  held found inMap := by
    obtain ⟨setup, rfl, rfl⟩ := places_fleetStart found
    simp [WorkerSetup.worker, Coordinator.ofSettings] at inMap

/-- The answer to an update says what was written. -/
theorem faithful_of_answers {answered : FleetState} {query : Query} {reply : query.Reply}
    (answers : s.Answers query reply answered) : Faithful query reply := by
  cases answers with
  | stored call =>
    cases call with
    | update proposal expected =>
      have reply : (s.table.perform (.update proposal expected)).1 =
          .ok (s.table.update proposal expected).1 := rfl
      rw [reply]
      cases outcome : (s.table.update proposal expected).1 with
      | updated written => exact (LeaseTable.update_updated.1 outcome).2
      | _ => trivial
    | _ => trivial
  | failed call error => cases call <;> trivial
  | token => trivial
  | other notCall =>
    cases query with
    | store call => exact absurd rfl (notCall call)
    | _ => trivial

theorem fleet_obeys :
    fleetDiscipline.Obeyed Duty.behaviour fun duty => duty.background? = none :=
  fleetDiscipline_obeyed fun _ => id

/-- After a run without deletions the fleet is fenced. -/
theorem fenced_of_run (run : FleetRun (fleetStart leases setups) trace s)
    (kept : ∀ event ∈ trace, ¬event.Deletes) :
    ∃ marks, fleetDiscipline.Marked s marks ∧ ∃ past, Fenced past s marks := by
  refine Discipline.Run.keeps_marked (fun _ s marks => ∃ past, Fenced past s marks)
    (fun event => ¬event.Deletes) fleet_obeys ?_ (fun held => held) ?_ ?_
    (Discipline.marked_of_no_threads _ rfl) ⟨_, fenced_fleetStart leases setups⟩ run kept
  · exact fun ⟨past, fenced⟩ move kept => fenced.move move kept
  · exact fun job ⟨past, fenced⟩ found => fenced.holds found
  · exact fun _ answers => faithful_of_answers answers

/-- In every state of a run without deletions, what a worker holds under a key is a version of that
lease that names the worker as its owner, and its counter is at most the stored one. With the stored
counter it is the stored lease, and at most one worker holds that. With a smaller one, every
conditional write from it is refused from then on. -/
theorem held_exclusively (run : FleetRun (fleetStart leases setups) trace s)
    (kept : ∀ event ∈ trace, ¬event.Deletes) {place leaseKey : String} {worker : Worker}
    {held : HeldLease} (here : s.places.get? place = some worker)
    (holds : worker.coordinator.held.get? leaseKey = some held) :
    worker.coordinator.workerId = place ∧ held.lease.Belongs place leaseKey ∧
      ∃ stored, s.table.get? leaseKey = some stored ∧ held.lease.counter ≤ stored.counter ∧
        (held.lease.counter = stored.counter → stored = held.lease ∧
          ∀ {other otherWorker otherHeld}, s.places.get? other = some otherWorker →
            otherWorker.coordinator.held.get? leaseKey = some otherHeld →
              otherHeld.lease.counter = stored.counter → other = place) ∧
        (held.lease.counter ≠ stored.counter →
          ∀ {moreTrace later}, FleetRun s moreTrace later → (∀ event ∈ moreTrace, ¬event.Deletes) →
            ∀ proposal : Lease, proposal.leaseKey = leaseKey →
              later.table.update proposal held.lease.counter = (.versionConflict, later.table)) := by
  obtain ⟨marks, _, past, fenced⟩ := fenced_of_run run kept
  have belongs := (fenced.holds here).held holds
  obtain ⟨stored, found, le⟩ := fenced.versions.below (fenced.held here holds)
  rw [belongs.key] at found
  refine ⟨(fenced.holds here).worker_eq, belongs, stored, found, le, fun same => ?_, fun differs => ?_⟩
  · have isStored {place worker held} (here : s.places.get? place = some worker)
        (holds : worker.coordinator.held.get? leaseKey = some held)
        (same : held.lease.counter = stored.counter) :
        stored = held.lease ∧ held.lease.owner = some place := by
      have belongs := (fenced.holds here).held holds
      refine ⟨fenced.versions.stored_of_counter (fenced.held here holds) ?_ same.symm, belongs.owner⟩
      rwa [belongs.key]
    obtain ⟨equal, owner⟩ := isStored here holds same
    refine ⟨equal, fun hereToo holdsToo sameToo => ?_⟩
    obtain ⟨equalToo, ownerToo⟩ := isStored hereToo holdsToo sameToo
    rw [← equalToo, equal, owner] at ownerToo
    exact (Option.some.inj ownerToo).symm
  · intro moreTrace later more keptOn proposal aboutKey
    obtain ⟨now, there, atLeast⟩ := more.counter_le keptOn found
    have passed : now.counter ≠ held.lease.counter := by omega
    exact LeaseTable.update_of_stale (aboutKey ▸ there) passed

end

/-- A fleet of two workers, the first of which owns the only lease. -/
def pairStart : FleetState :=
  fleetStart [{ leaseKey := "a", shardId := "a", owner := some "w1" }]
    [{ workerId := "w1", region := "r", account := "c" },
      { workerId := "w2", region := "r", account := "c" }]

/-- What happens when a schedule is played to the pair. -/
def pairPlays (choices : List (Interleaving.Choice Duty)) : List (Event Duty Outcome) × FleetState :=
  Interleaving.play Duty.behaviour (fun duty => duty.background? = none) choices ([], pairStart)

theorem pairPlays_run (choices : List (Interleaving.Choice Duty)) :
    FleetRun pairStart (pairPlays choices).1 (pairPlays choices).2 :=
  Interleaving.run_play choices (.refl _)

/-- The first worker adopts the lease, somebody moves it, and the second worker takes it. -/
def handover : List (Event Duty Outcome) × FleetState :=
  pairPlays (List.flatten [
    [.begin "w1" (.request .adopt)], Interleaving.acts 0 40,
    [.list, .move { lease := { leaseKey := "a", shardId := "a", owner := some "w1", counter := 1 }
                    source := "w1", target := "w2" }],
    [.begin "w2" (.request .take)], Interleaving.acts 1 40])

/-- After the handover both workers hold the lease; the second one holds the stored version, and the
first one cannot write any more. -/
theorem held_exclusively_after_handover : ∃ first second stale current stored,
    handover.2.places.get? "w1" = some first ∧ first.coordinator.held.get? "a" = some stale ∧
    handover.2.places.get? "w2" = some second ∧ second.coordinator.held.get? "a" = some current ∧
    handover.2.table.get? "a" = some stored ∧ stored = current.lease ∧
    stored.owner = some "w2" ∧ ∀ proposal : Lease, proposal.leaseKey = "a" →
      handover.2.table.update proposal stale.lease.counter = (.versionConflict, handover.2.table) := by
  have heldBy (place : String) (counter : Nat)
      (plays : ((handover.2.places.get? place).bind (·.coordinator.held.get? "a")).map
        (·.lease.counter) = some counter) :
      ∃ worker held, handover.2.places.get? place = some worker ∧
        worker.coordinator.held.get? "a" = some held ∧ held.lease.counter = counter := by
    obtain ⟨held, inPlace, same⟩ := Option.map_eq_some_iff.1 plays
    obtain ⟨worker, here, holds⟩ := Option.bind_eq_some_iff.1 inPlace
    exact ⟨worker, held, here, holds, same⟩
  have run : FleetRun pairStart handover.1 handover.2 := pairPlays_run _
  have kept : ∀ event ∈ handover.1, ¬event.Deletes := by decide +kernel
  have table : (handover.2.table.get? "a").map Lease.counter = some 3 := by decide +kernel
  obtain ⟨first, stale, here, holds, old⟩ := heldBy "w1" 1 (by decide +kernel)
  obtain ⟨second, current, hereToo, holdsToo, new⟩ := heldBy "w2" 3 (by decide +kernel)
  obtain ⟨_, _, stored, found, _, _, refused⟩ := held_exclusively run kept here holds
  obtain ⟨_, belongs, storedToo, foundToo, _, exclusive, _⟩ :=
    held_exclusively run kept hereToo holdsToo
  obtain rfl : stored = storedToo := Option.some.inj (found.symm.trans foundToo)
  have counter : stored.counter = 3 := by simpa [found] using table
  obtain ⟨isCurrent, _⟩ := exclusive (by omega)
  refine ⟨first, second, stale, current, stored, here, holds, hereToo, holdsToo, found, isCurrent,
    isCurrent ▸ belongs.owner, ?_⟩
  exact refused (by omega) (.refl _) (by simp)

end LeaseFleet
