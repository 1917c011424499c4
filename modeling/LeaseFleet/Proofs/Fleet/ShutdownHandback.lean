import LeaseFleet.Proofs.Fleet.StopSignals
import LeaseFleet.Proofs.Fleet.ShutdownDescent

/-!
# Handing leases back

The first call to shut a worker down hands back what its coordinator holds (`shutdown_hands_back`). A lease
that has moved on is left to whoever has it, no other lease is touched, and nobody who starts or stops
anything at the worker later on makes a difference. A coordinator that is used by hand meanwhile, or was
stopped by hand before, may keep leases (`held_after_shutdown_by_hand`).
-/

namespace LeaseFleet

/-! ## Giving a lease back -/

/-- What a call does to the table that gives a lease back. -/
structure GivesBack (held : HeldLease) (call : StoreCall) (reply : call.Reply) (table now : LeaseTable) :
    Prop where
  isUpdate : call = .update (Coordinator.released held.lease) held.lease.counter
  /-- As long as nobody has written the lease since it was read, it is given back as it was held. -/
  current : ∀ {stored}, table.get? held.lease.leaseKey = some stored → stored.counter = held.lease.counter →
    (∀ error, reply ≠ call.failed error) →
      now.get? held.lease.leaseKey = some { held.lease with owner := none, counter := held.lease.counter + 1 }
  /-- A lease that has moved on is not touched. -/
  moved : (∀ stored, table.get? held.lease.leaseKey = some stored → stored.counter ≠ held.lease.counter) →
    now = table
  failed : ∀ error, reply = call.failed error → now = table
  others : ∀ {leaseKey}, leaseKey ≠ held.lease.leaseKey → now.get? leaseKey = table.get? leaseKey

section

variable {s after : FleetState} {left : Nat → Nat} {place : String} {duty : Duty} {call : StoreCall}
  {reply : call.Reply} {held : HeldLease}

theorem mayCall_of_step (balanced : Balanced s left) (step : FleetStep s (.called place duty call reply) after) :
    ∃ rest, duty.MayCall rest call := by
  rcases step.acts with ⟨id, thread, ready, acts⟩ | ⟨_, _, shown, _⟩ | ⟨_, _, _, shown, _⟩
  · obtain ⟨_, moves, _⟩ := balanced.act ready.1 acts
    exact ⟨_, (moves.calls rfl).2.2⟩
  · cases shown
  · cases shown

theorem givesBack_of_step (balanced : Balanced s left)
    (step : FleetStep s (.called place (.background (.coordinator (.release held))) call reply) after) :
    GivesBack held call reply s.table after.table := by
  obtain ⟨_, isUpdate⟩ := mayCall_of_step balanced step
  have isUpdate : call = .update (Coordinator.released held.lease) held.lease.counter := isUpdate
  subst isUpdate
  rcases step.performed with ⟨same, fruitless⟩ | ⟨other, performed, shown⟩
  · obtain ⟨error, hasFailed⟩ := fruitless _ reply (.inr ⟨_, _, rfl⟩)
    exact ⟨rfl, fun _ _ goesWell => absurd hasFailed (goesWell error), fun _ => same, fun _ _ => same,
      fun _ => by rw [same]⟩
  · obtain rfl := Event.Shows.call_eq (.inr ⟨_, _, rfl⟩) shown
    obtain rfl := Event.Shows.reply_eq (.inr ⟨_, _, rfl⟩) shown
    have updated : after.table =
        (s.table.update (Coordinator.released held.lease) held.lease.counter).2 := performed
    have sameKey : (Coordinator.released held.lease).leaseKey = held.lease.leaseKey := rfl
    refine ⟨rfl, fun found current _ => ?_, fun stale => ?_, fun error hasFailed => (nomatch hasFailed),
      fun ne => ?_⟩
    · rw [updated, LeaseTable.update_of_current (sameKey ▸ found) current]
      exact SortedMap.get?_insert_self ..
    · rw [updated]
      cases found : s.table.get? held.lease.leaseKey with
      | none => rw [LeaseTable.update_of_absent (sameKey ▸ found)]
      | some stored => rw [LeaseTable.update_of_stale (sameKey ▸ found) (stale stored found)]
    · rw [updated]
      exact LeaseTable.get?_update_of_ne ne

end

/-! ## Runs that are played -/

/-- What a check of all that begins at a place says of each duty. -/
theorem check_of_begun {place : String} {trace : List (Event Duty Outcome)} (check : Duty → Bool)
    (all : (trace.filterMap (·.begunAt? place)).all check = true) {duty : Duty}
    (begun : .begun place duty ∈ trace) : check duty = true :=
  List.all_eq_true.1 all duty (List.mem_filterMap.2 ⟨_, begun, if_pos rfl⟩)

/-- What a check of all threads says of each of them. -/
theorem check_of_thread {s : FleetState} (check : Duty → Bool)
    (all : s.threads.values.all (fun thread => check thread.job) = true) {id : Nat}
    {thread : Thread Worker Duty Outcome} (found : s.threads.get? id = some thread) : check thread.job = true :=
  List.all_eq_true.1 all thread (SortedMap.mem_values.2 ⟨id, found⟩)

/-- A worker, alone with these leases, does what the choices say. -/
def playedAlone (leases : List Lease) (choices : List (Interleaving.Choice Duty)) :
    List (Event Duty Outcome) × FleetState :=
  Interleaving.play Duty.behaviour (fun duty => duty.background? = none) choices
    ([], fleetStart leases [{ workerId := "w1", multi := false, region := "r", account := "c" }])

/-- The choices are played from here on. -/
def FleetState.playOn (s : FleetState) (choices : List (Interleaving.Choice Duty)) :
    List (Event Duty Outcome) × FleetState :=
  Interleaving.play Duty.behaviour (fun duty => duty.background? = none) choices ([], s)

/-- The worker is asked to shut down. -/
abbrev FleetState.askedDown (s : FleetState) : FleetState := s.launch Duty.behaviour "w1" (.request .shutdown)

/-- A call to shut the worker down that is new begins by its first action. -/
theorem resigns_of_asked {s : FleetState} {worker : Worker} (found : s.places.get? "w1" = some worker)
    (first : worker.stopping = false) (goesOn : worker.coordinator.stopping = false)
    (calm : s.threads.values.all (fun thread => thread.job.isCalm) = true) :
    Resigns "w1" worker s.askedDown s.started (s.askedDown.playOn [.act s.started]).2 := by
  obtain ⟨next, begins, _⟩ := behaviour_shutdown
  have there : s.askedDown.threads.get? s.started =
      some (calling "w1" (Duty.behaviour (.request .shutdown)) []) := SortedMap.get?_insert_self ..
  have ready : s.askedDown.ready? s.started = some (calling "w1" (Duty.behaviour (.request .shutdown)) []) := by
    rw [Interleaving.ready?, there]
    rfl
  have played : s.askedDown.playOn [.act s.started] = ([.inner],
      (s.askedDown.setPlace "w1" worker.beginShutdown).goOn s.started (calling "w1" (next worker) [])) := by
    have here : s.askedDown.places.get? "w1" = some worker := found
    simp only [FleetState.playOn, Interleaving.play, Interleaving.choose?, ready, Option.bind_some,
      Interleaving.act?, calling, begins, here, if_true]
    rfl
  rw [played]
  refine ⟨found, first, goesOn, there, .change begins found rfl, fun here _ isOther => .inl ?_⟩
  exact check_of_thread Duty.isCalm calm ((SortedMap.get?_insert_of_ne _ isOther _).symm.trans here)

/-- The worker has adopted two leases and put a consumer to work for each, and then somebody else has taken the
second lease away. -/
def robbed : FleetState :=
  (playedAlone [{ leaseKey := "a", shardId := "a", owner := some "w1" },
      { leaseKey := "b", shardId := "b", owner := some "w1" }]
    (List.flatten [
      [.begin "w1" (.request .adopt)], Interleaving.acts 0 40,
      [.begin "w1" (.request .processOnce)], Interleaving.acts 1 60,
      [.list, .move {
        lease := { leaseKey := "b", shardId := "b", owner := some "w1", counter := 1 }
        source := "w1"
        target := "w2" }]])).2

/-! ## What a shutdown comes to -/

/-- What has become of a worker, between a call to shut it down and its return. -/
structure HandsBack (place : String) (worker : Worker) (called : FleetState) (more : List (Event Duty Outcome))
    (after : FleetState) : Prop where
  /-- It holds nothing and is shut down. Each of its consumers was asked to stop, and whoever was asked before
  has kept the reason. -/
  worker : ∃ now, after.places.get? place = some now ∧ now.coordinator.held = .empty ∧ now.phase = .shutDown ∧
    now.consumers = worker.consumers ∧ ∀ {key number}, worker.consumers.get? key = some number →
      now.crew.reasonOf number = some ((worker.crew.reasonOf number).getD .requested)
  /-- What it held when it ceased to hold anything has been offered back, one lease at a time. -/
  release : HasReleased place called more after []
  /-- An offer gives back what has not moved on, and touches nothing else. -/
  offers : ∀ {early late held call reply before next},
    more = early ++ .called place (.background (.coordinator (.release held))) call reply :: late →
    FleetRun called early before →
    FleetStep before (.called place (.background (.coordinator (.release held))) call reply) next →
      GivesBack held call reply before.table next.table
  /-- Nothing else is written by the call. -/
  silent : ∀ call reply, .called place (.request .shutdown) call reply ∉ more
  /-- Who starts loops, or stops or shuts down, from then on, changes nothing and starts nothing. -/
  forGood : ∀ {later last id thread event next}, FleetRun after later last → last.Ready id thread →
    Interleaving.Acts Duty.behaviour last id thread event next → after.threads.get? id = none →
    thread.place = place → thread.job.startsOrStops = true →
      next.places = last.places ∧ next.table = last.table ∧ next.started = last.started

/-- The first call to shut a worker down begins, at a coordinator that was not stopped before. Until it returns
nobody at its place is about to take leases up or to give leases back, to look after consumers, or to stop the
coordinator, except that other calls may come too late; other places may do what they like. When the call returns,
all consumers were asked to stop and all leases were handed back, and so it stays. -/
theorem shutdown_hands_back {leases : List Lease} {setups : List WorkerSetup}
    {trace more : List (Event Duty Outcome)} {s called after : FleetState} {place : String} {worker : Worker}
    {caller : Nat} (run : FleetRun (fleetStart leases setups) trace s)
    (resigns : Resigns place worker s caller called) (since : FleetRun called more after)
    (gently : ∀ duty, .begun place duty ∈ more → duty.isCalm = true ∨ duty.isLate = true)
    (returned : after.threads.get? caller = none) : HandsBack place worker called more after := by
  have toCalled := run.snoc resigns.step
  obtain ⟨stage, pending, descends⟩ := resigns.descends_of_run run since gently
  obtain ⟨rfl, _⟩ : stage = .returned ∧ after.threads.get? caller = none := by
    rcases descends.thread with hasReturned | ⟨_, _, there⟩
    · exact hasReturned
    · cases returned.symm.trans there
  obtain ⟨now, isNow, holds⟩ := descends.worker
  refine ⟨⟨now, isNow, holds.empty (by decide), holds.phase (by decide), holds.consumers, holds.reasons⟩,
    descends.told, fun _ before step => ?_, fun call reply mem => ?_, fun later ready acts new atPlace again => ?_⟩
  · obtain ⟨_, balanced⟩ := balanced_of_run (toCalled.trans before)
    exact givesBack_of_step balanced step
  · obtain ⟨early, late, split⟩ := List.append_of_mem mem
    obtain ⟨_, _, before, step, _⟩ := since.at_event split
    obtain ⟨_, balanced⟩ := balanced_of_run (toCalled.trans before)
    obtain ⟨_, may⟩ := mayCall_of_step balanced step
    exact may
  · subst atPlace
    exact idle_of_told (toCalled.trans since) later isNow ⟨holds.stopping, holds.coordinator⟩ new again ready acts

/-- It gives the first lease back and leaves the second to its new owner. Meanwhile it is asked once more. -/
theorem shutdown_hands_back_of_robbed : ∃ worker called played,
    called = (robbed.askedDown.playOn (Interleaving.acts 2 1)).2 ∧
    played = called.playOn (List.flatten [[.begin "w1" (.request .shutdown)], Interleaving.acts 2 5,
      Interleaving.acts 3 2, Interleaving.acts 4 4, Interleaving.acts 5 4, Interleaving.acts 2 6]) ∧
    robbed.places.get? "w1" = some worker ∧ worker.consumers.values = [0, 1] ∧
    worker.coordinator.heldLeases.map Lease.leaseKey = ["a", "b"] ∧
    (played.2.table.leases.map fun lease => (lease.leaseKey, lease.owner, lease.counter)) =
      [("a", none, 2), ("b", some "w2", 2)] ∧
    HandsBack "w1" worker called played.1 played.2 := by
  have facts : (robbed.places.get? "w1").map (fun worker => (worker.consumers.values,
      worker.coordinator.heldLeases.map Lease.leaseKey, worker.stopping, worker.coordinator.stopping)) =
        some ([0, 1], ["a", "b"], false, false) := by decide +kernel
  obtain ⟨worker, found, same⟩ := Option.map_eq_some_iff.1 facts
  simp only [Prod.mk.injEq] at same
  obtain ⟨consumers, held, first, goesOn⟩ := same
  refine ⟨worker, _, _, rfl, rfl, found, consumers, held, by decide +kernel, ?_⟩
  have run : FleetRun _ _ robbed := Interleaving.run_play _ (.refl _)
  have asked : FleetStep robbed _ robbed.askedDown := .begin (by simp [SortedMap.contains, found]) rfl
  refine shutdown_hands_back (run.snoc asked) (resigns_of_asked found first goesOn (by decide +kernel))
    (Interleaving.run_play _ (.refl _)) (fun duty begun => ?_) (by decide +kernel)
  exact Bool.or_eq_true_iff.1
    (check_of_begun (fun duty => duty.isCalm || duty.isLate) (by decide +kernel) begun)

/-! ## Coordinators that are used by hand -/

/-- Whether a duty initializes a worker or its coordinator, processes, or writes a checkpoint. -/
def Duty.isUpkeep : Duty → Bool
  | request .adopt | request .bringUp | run | request .processOnce | process
  | request (.checkpoint _ _ _) => true
  | _ => false

/-- The consumers of a worker that were not asked to stop. -/
def Worker.unasked (worker : Worker) : List Nat :=
  worker.consumers.values.filter fun number => !worker.crew.isAsked number

/-- The first call to shut the worker at a place down may return while leases are held there, or while a consumer
was not asked to stop, although nobody initializes it, or processes, or writes checkpoints. -/
structure FleetState.MayKeep (s : FleetState) (place : String) : Prop where
  reachable : ∃ leases setups trace, FleetRun (fleetStart leases setups) trace s
  first : ∃ worker, s.places.get? place = some worker ∧ worker.stopping = false
  quiet : ∀ {id thread}, s.threads.get? id = some thread → thread.job.isUpkeep = false
  keeps : ∃ more after now, FleetRun (s.launch Duty.behaviour place (.request .shutdown)) more after ∧
    (∀ duty, .begun place duty ∉ more) ∧ after.threads.get? s.started = none ∧
    after.places.get? place = some now ∧ (now.coordinator.held ≠ .empty ∨ now.unasked ≠ [])

theorem mayKeep_of_played {leases : List Lease} {choices : List (Interleaving.Choice Duty)} {s : FleetState}
    (isPlayed : (playedAlone leases choices).2 = s) (more : List (Interleaving.Choice Duty))
    (before : (s.places.get? "w1").map Worker.stopping = some false ∧
      s.threads.values.all (fun thread => !thread.job.isUpkeep) = true)
    (after : (s.askedDown.playOn more).1.filterMap (·.begunAt? "w1") = [] ∧
      (s.askedDown.playOn more).2.threads.get? s.started = none ∧
      ((s.askedDown.playOn more).2.places.get? "w1").map (fun worker =>
        worker.coordinator.held.keys.isEmpty && worker.unasked.isEmpty) = some false) : s.MayKeep "w1" := by
  obtain ⟨first, quiet⟩ := before
  obtain ⟨begun, returned, keeps⟩ := after
  obtain ⟨now, isNow, keeps⟩ := Option.map_eq_some_iff.1 keeps
  refine ⟨⟨_, _, _, isPlayed ▸ Interleaving.run_play _ (.refl _)⟩, Option.map_eq_some_iff.1 first, fun there => ?_,
    _, _, now, Interleaving.run_play more (.refl _), fun duty mem => ?_, returned, isNow, ?_⟩
  · simpa using check_of_thread (fun duty => !duty.isUpkeep) quiet there
  · have nothing : ((s.askedDown.playOn more).1.filterMap (·.begunAt? "w1")).all (fun _ => false) = true := by
      rw [begun]
      rfl
    cases check_of_begun (fun _ => false) nothing mem
  · refine (Bool.and_eq_false_iff.1 keeps).imp (fun holds nothing => ?_) fun unasked nobody => ?_
    · rw [nothing] at holds
      cases holds
    · rw [nobody] at unasked
      cases unasked

/-- Nothing is handed back if the coordinator was stopped by hand before, and has taken a lease up since. Nor is
what a cycle by hand takes up while the call is under way, and a consumer that is put to work by hand meanwhile is
not asked to stop. -/
theorem held_after_shutdown_by_hand :
    (playedAlone [{ leaseKey := "a", shardId := "a" }] (List.flatten [
      [.begin "w1" (.request .stopLoops)], Interleaving.acts 0 10,
      [.begin "w1" (.request .take)], Interleaving.acts 1 40])).2.MayKeep "w1" ∧
    (playedAlone [{ leaseKey := "a", shardId := "a" }] (List.flatten [
      [.begin "w1" (.request .take)], Interleaving.acts 0 5])).2.MayKeep "w1" ∧
    (playedAlone [] [.begin "w1" (.request (.engage {
      leaseKey := "a", stream := none, shardId := "a", token := ⟨0⟩, parentLeaseKeys := [],
      checkpoint := .trimHorizon }))]).2.MayKeep "w1" := by
  refine ⟨?_, ?_, ?_⟩
  · exact mayKeep_of_played rfl (Interleaving.acts 2 20) (by decide +kernel) (by decide +kernel)
  · exact mayKeep_of_played rfl
      (List.flatten [Interleaving.acts 1 4, Interleaving.acts 0 40, Interleaving.acts 1 10])
      (by decide +kernel) (by decide +kernel)
  · exact mayKeep_of_played rfl
      (List.flatten [Interleaving.acts 1 2, Interleaving.acts 0 5, Interleaving.acts 1 10])
      (by decide +kernel) (by decide +kernel)

end LeaseFleet
