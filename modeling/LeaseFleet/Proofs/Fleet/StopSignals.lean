import LeaseFleet.Proofs.Fleet.Fencing
import LeaseFleet.Proofs.Worker.Lifetime
import LeaseFleet.Proofs.Interleaving.ThreadActions

/-!
# Being told to stop

Who was told to stop is never told otherwise: in any run of a fleet, a worker and a coordinator that are
stopping stay so (`told_of_run`). Whoever starts loops, or stops or shuts down, at a worker that is
stopping with its coordinator does one thing only, which changes nothing (`idle_of_told`).
-/

namespace LeaseFleet

/-- Worker and coordinator were told to stop. -/
structure Worker.Told (worker : Worker) : Prop where
  stopping : worker.stopping = true
  coordinator : worker.coordinator.stopping = true

/-- A question, or a change after which the coordinator is stopping if it was. -/
def Act.Minds : Act Coordinator → Prop
  | asked _ _ => True
  | changed found now => found.stopping = true → now.stopping = true

/-- A question, or a change after which worker and coordinator are stopping if they were. -/
def Act.Heeds : Act Worker → Prop
  | asked _ _ => True
  | changed found now => (found.stopping = true → now.stopping = true) ∧
      (found.coordinator.stopping = true → now.coordinator.stopping = true)

theorem working_heeds : Working Act.Heeds where
  asked _ _ := trivial
  kept same := ⟨fun stopping => same.stopping.trans stopping, fun stopping => by rwa [same.coordinator]⟩
  coordinator _ _ same := ⟨id, same.trans⟩
  entered worker phase := by
    have ages := worker.ages_enter phase
    exact ⟨ages.stopping.trans, ages.coordinator.trans⟩
  engaged worker shard := by
    have ages := (worker.sameLife_engaged shard).ages
    exact ⟨ages.stopping.trans, ages.coordinator.trans⟩
  dismiss _ _ := ⟨id, id⟩
  serve worker := by
    have ages := worker.sameLife_serve.ages
    exact ⟨ages.stopping.trans, ages.coordinator.trans⟩
  finishConsumer worker number := by
    have ages := (worker.sameLife_finishConsumer number).ages
    exact ⟨ages.stopping.trans, ages.coordinator.trans⟩

theorem Coordinator.stop_minds : Coordinator.stop.Stays Act.Minds := by
  refine Script.step_only (fun _ _ _ => rfl) fun found _ => ?_
  split
  · trivial
  · refine Script.step_only (fun _ _ => id) fun _ _ => Script.step_only (fun _ _ => id) fun _ _ => ?_
    exact Script.gather_only _ (Script.query_only fun _ => trivial)

theorem Worker.stop_heeds : (Worker.keeping Coordinator.stop).Stays Act.Heeds :=
  Script.Stays.embed (fun _ _ => trivial) (fun _ _ keeps => ⟨id, keeps⟩) Coordinator.stop_minds

theorem behaviour_heeds (duty : Duty) : (Duty.behaviour duty).Stays Act.Heeds := by
  have lifted {α : Type} {script : WorkerScript α} (stays : script.Stays Act.Heeds) :
      (Duty.script script).Stays Act.Heeds :=
    Script.Stays.embed (fun _ _ => trivial) (fun _ _ => id) stays
  cases duty with
  | request asked =>
    suffices stays : asked.perform.Stays Act.Heeds from (lifted stays).bind fun _ => trivial
    by_cases isShutdown : asked = .shutdown
    · subst isShutdown
      refine Script.Stays.bind (Script.step_only (fun worker _ => ?_) fun found _ => ?_) fun _ => trivial
      · exact ⟨fun _ => worker.stopping_beginShutdown, fun stopping => by rwa [worker.beginShutdown_coordinator]⟩
      · split
        · trivial
        · refine Worker.stop_heeds.bind fun _ => ?_
          refine Script.step_only (fun _ _ => ⟨id, id⟩) fun _ _ => ?_
          exact Script.step_only (fun worker _ => working_heeds.entered worker .shutDown) fun _ _ => trivial
    · by_cases isStop : asked = .stopLoops
      · subst isStop
        exact Worker.stop_heeds.bind fun _ => trivial
      · exact working_heeds.request isShutdown isStop
  | background job =>
    refine (lifted (working_heeds.perform job)).bind fun next => ?_
    cases next <;> trivial
  | run =>
    refine (lifted working_heeds.bringUp).bind fun result => ?_
    cases result <;> trivial
  | process =>
    refine (lifted working_heeds.processOnce).bind fun _ => ?_
    refine Script.step_only (fun _ _ => ⟨id, id⟩) fun _ _ => Script.sleep_stays fun complete => ?_
    cases complete <;> trivial

section

variable {leases : List Lease} {setups : List WorkerSetup} {trace more : List (Event Duty Outcome)}
  {event : Event Duty Outcome} {s after last : FleetState} {place : String} {worker : Worker} {id : Nat}
  {thread : Thread Worker Duty Outcome}

theorem told_of_step (run : FleetRun (fleetStart leases setups) trace s) (step : FleetStep s event after)
    (found : s.places.get? place = some worker) (told : worker.Told) :
    ∃ now, after.places.get? place = some now ∧ now.Told := by
  rcases step.acts with ⟨id, thread, ready, acts⟩ | ⟨there, duty, rfl, rfl, _⟩ |
    ⟨call, reply, answered, rfl, rfl, answers⟩
  · rcases acts.places with same | ⟨permits, change, next, state, here, atPlace, permitted, same⟩
    · exact ⟨worker, same ▸ found, told⟩
    · obtain ⟨past, unfolds⟩ := run.unfolds (by simp [fleetStart]) ready.1
      obtain ⟨heeds, _⟩ := (behaviour_heeds thread.job).unfolds unfolds fun _ _ => trivial
      rw [here] at heeds
      obtain ⟨_, keeps, _⟩ := heeds state trivial permitted
      by_cases isPlace : place = thread.place
      · subst isPlace
        obtain rfl := Option.some.inj (atPlace.symm.trans found)
        refine ⟨change state, ?_, keeps.1 told.stopping, keeps.2 told.coordinator⟩
        rw [same]
        exact SortedMap.get?_insert_self ..
      · refine ⟨worker, ?_, told⟩
        rwa [same, SortedMap.get?_insert_of_ne _ isPlace]
  · exact ⟨worker, found, told⟩
  · refine ⟨worker, ?_, told⟩
    rwa [Interleaving.keepCopies_places, answers.places]

/-- Who was told to stop is so for good. -/
theorem told_of_run (run : FleetRun (fleetStart leases setups) trace s) (since : FleetRun s more last)
    (found : s.places.get? place = some worker) (told : worker.Told) :
    ∃ now, last.places.get? place = some now ∧ now.Told := by
  induction since with
  | refl => exact ⟨worker, found, told⟩
  | snoc before step ih =>
    obtain ⟨between, here, toldThen⟩ := ih
    exact told_of_step (run.trans before) step here toldThen

end

/-! ## Once more -/

/-- Whether a duty comes too late at a worker that was told to stop. -/
def Duty.isLate : Duty → Bool
  | request .bringUp | request .shutdown | run => true
  | _ => false

/-- These duties find so by one change, which changes nothing. -/
theorem Duty.behaviour_of_isLate {duty : Duty} (late : duty.isLate = true) : ∃ change next,
    duty.behaviour = .step (fun _ => true) change next ∧ ∀ found : Worker, found.stopping = true →
      change found = found ∧ ∃ outcome, next found = .done (.inr outcome) := by
  have cannotBegin {found : Worker} (stopping : found.stopping = true) : found.canBegin = false := by
    simp [Worker.canBegin, stopping]
  have stays {found : Worker} (stopping : found.stopping = true) : found.beginBringUp = found :=
    if_neg (by simp [cannotBegin stopping])
  unfold isLate at late
  split at late
  · refine ⟨_, _, rfl, fun found stopping => ⟨stays stopping, ?_⟩⟩
    simp only [Script.done_bind, id_eq, cannotBegin stopping]
    exact ⟨_, rfl⟩
  · obtain ⟨next, begins, goesOn⟩ := behaviour_shutdown
    refine ⟨_, next, begins, fun found stopping => ?_⟩
    exact ⟨found.beginShutdown_of_stopping stopping, .nothing, (goesOn found).1 stopping⟩
  · refine ⟨_, _, rfl, fun found stopping => ⟨stays stopping, ?_⟩⟩
    simp only [Script.done_bind, id_eq, cannotBegin stopping]
    exact ⟨_, rfl⟩
  · cases late

/-- Whether a duty starts loops, or stops or shuts down. -/
def Duty.startsOrStops : Duty → Bool
  | request .startLoops | request .stopLoops | request .shutdown => true
  | _ => false

/-- At a worker that was told to stop, these duties are done with one change, which changes nothing. -/
theorem behaviour_of_startsOrStops {duty : Duty} (again : duty.startsOrStops = true) : ∃ change next,
    duty.behaviour = .step (fun _ => true) change next ∧
      ∀ found : Worker, found.Told → change found = found ∧ next found = .done (.inr .nothing) := by
  unfold Duty.startsOrStops at again
  split at again
  · refine ⟨_, _, rfl, fun found told => ?_⟩
    have cannot : found.coordinator.canStart = false := by simp [Coordinator.canStart, told.coordinator]
    have same : found.coordinator.markStarted = found.coordinator := if_neg (by simp [cannot])
    refine ⟨congrArg (fun coordinator => { found with coordinator }) same, ?_⟩
    simp only [Script.done_bind, Worker.coordinatorPart, id_eq, cannot, Bool.false_eq_true, if_false]
    rfl
  · refine ⟨_, _, rfl, fun found told => ⟨?_, ?_⟩⟩
    · show { found with coordinator := { found.coordinator with stopping := true } } = found
      rw [← told.coordinator]
    · simp only [Script.done_bind, Worker.coordinatorPart, id_eq, told.coordinator, if_true]
      rfl
  · obtain ⟨next, begins, goesOn⟩ := behaviour_shutdown
    refine ⟨_, next, begins, fun found told => ?_⟩
    exact ⟨found.beginShutdown_of_stopping told.stopping, (goesOn found).1 told.stopping⟩
  · cases again

/-- From when on a worker was told to stop with its coordinator, whoever begins to start loops, or to stop or
shut down, changes nothing and starts nothing. -/
theorem idle_of_told {leases : List Lease} {setups : List WorkerSetup} {trace more : List (Event Duty Outcome)}
    {event : Event Duty Outcome} {s last next : FleetState} {id : Nat} {thread : Thread Worker Duty Outcome}
    {worker : Worker} (run : FleetRun (fleetStart leases setups) trace s) (since : FleetRun s more last)
    (found : s.places.get? thread.place = some worker) (told : worker.Told) (new : s.threads.get? id = none)
    (again : thread.job.startsOrStops = true) (ready : last.Ready id thread)
    (acts : Interleaving.Acts Duty.behaviour last id thread event next) :
    next.places = last.places ∧ next.table = last.table ∧ next.started = last.started := by
  obtain ⟨change, cont, begins, changes⟩ := behaviour_of_startsOrStops again
  have ends (ended : thread.script = .done (.inr .nothing)) :
      next.places = last.places ∧ next.table = last.table ∧ next.started = last.started := by
    obtain ⟨rfl, rfl⟩ := acts.of_done ended
    exact ⟨rfl, rfl, rfl⟩
  obtain ⟨past, unfolds⟩ := since.unfolds (by simp [new]) ready.1
  rw [begins] at unfolds
  rcases unfolds.of_step with ⟨_, notBegun⟩ | ⟨met, late, ⟨_, between, _, before, _, here⟩, _, goesOn, _⟩
  · obtain ⟨state, atPlace, _, rfl, rfl⟩ := acts.of_step notBegun
    obtain ⟨now, isNow, toldNow⟩ := told_of_run run since found told
    obtain rfl := Option.some.inj (atPlace.symm.trans isNow)
    refine ⟨?_, rfl, rfl⟩
    show last.places.insert thread.place (change state) = last.places
    rw [(changes state toldNow).1]
    exact SortedMap.insert_of_found atPlace
  · obtain ⟨now, isThen, toldThen⟩ := told_of_run run before found told
    obtain rfl := Option.some.inj (here.symm.trans isThen)
    rw [(changes met toldThen).2] at goesOn
    exact ends goesOn.of_done.2

end LeaseFleet
