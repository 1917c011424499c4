import LeaseFleet.Proofs.Fleet.ShutdownStages
import LeaseFleet.Proofs.Consumer.StaffedFleets

/-!
# Down the stair

Each action of a call to shut a worker down takes it to the next stage, and so a call comes down all of
them, whatever happens meanwhile (`descends_of_run`).
-/

namespace LeaseFleet

/-- The releases of some leases are started. -/
abbrev Interleaving.launchReleases (place : String) (s : FleetState) (held : List HeldLease) : FleetState :=
  s.launchAll Duty.behaviour place (held.map fun one => .background (.coordinator (.release one)))

/-- New threads, one for each lease, give leases back. All other threads were there before. -/
theorem launchAll_releases (place : String) (held : List HeldLease) (s : FleetState) :
    (∀ pair ∈ (List.range' s.started held.length).zip held,
      (s.launchReleases place held).threads.get? pair.1 = some (releasing place pair.2)) ∧
    ∀ {id thread}, (s.launchReleases place held).threads.get? id = some thread →
      s.threads.get? id = some thread ∨
        ∃ one, (id, one) ∈ (List.range' s.started held.length).zip held ∧ thread = releasing place one := by
  induction held generalizing s with
  | nil => exact ⟨by simp, fun found => .inl found⟩
  | cons first rest ih =>
    let launched : FleetState := s.launch Duty.behaviour place (.background (.coordinator (.release first)))
    have here : launched.threads.get? s.started = some (releasing place first) := SortedMap.get?_insert_self ..
    obtain ⟨given, others⟩ := ih launched
    rw [List.length_cons, List.range'_succ, List.zip_cons_cons]
    refine ⟨List.forall_mem_cons.2 ⟨?_, given⟩, fun found => ?_⟩
    · rw [← here]
      exact Interleaving.get?_launchAll (s := launched) (Nat.lt_succ_self s.started)
    · rcases others found with earlier | ⟨one, mem, same⟩
      · rcases SortedMap.get?_insert_eq_some_iff.1 earlier with ⟨rfl, rfl⟩ | ⟨_, earlier⟩
        · exact .inr ⟨first, List.mem_cons_self, rfl⟩
        · exact .inl earlier
      · exact .inr ⟨one, List.mem_cons_of_mem _ mem, same⟩

namespace Descends

variable {place : String} {before : Worker} {called s after : FleetState} {caller : Nat}
  {trace : List (Event Duty Outcome)} {event : Event Duty Outcome} {stage next : Descent} {pending : List Nat}
  {thread : Thread Worker Duty Outcome}

theorem caller_eq (descends : Descends place before called caller trace s stage pending)
    (ready : s.Ready caller thread) : ∃ script, stage.IsScript script ∧
      thread = calling place script pending := by
  rcases descends.thread with ⟨_, gone⟩ | ⟨script, isScript, found⟩
  · cases gone.symm.trans ready.1
  · exact ⟨script, isScript, Option.some.inj (ready.1.symm.trans found)⟩

/-- While the call can go on, no release is under way. -/
theorem alone (descends : Descends place before called caller trace s stage pending)
    (ready : s.Ready caller thread) : stage.left = [] ∧
      ∀ {id there}, s.threads.get? id = some there → there.place = place → id ≠ caller →
        there.job.isCalm = true ∨ IsLate there := by
  obtain ⟨_, _, rfl⟩ := descends.caller_eq ready
  refine ⟨List.eq_nil_iff_forall_not_mem.2 fun pair mem => ?_, fun found atPlace isOther => ?_⟩
  · obtain ⟨found, isTheirs⟩ := descends.left pair mem
    cases found.symm.trans (ready.2 _ isTheirs)
  · refine (descends.others found atPlace isOther).imp_right fun others => others.resolve_right ?_
    rintro ⟨_, isTheirs, _⟩
    cases found.symm.trans (ready.2 _ isTheirs)

/-- The call goes on to a stage at which no release is under way. -/
theorem onward (descends : Descends place before called caller trace s stage pending)
    (ready : s.Ready caller thread)
    (acts : Interleaving.Acts Duty.behaviour s caller thread event after)
    (others : ∀ {other}, other ≠ caller → after.threads.get? other = s.threads.get? other)
    (isNext : next = .returned ∧ after.threads.get? caller = none ∨ ∃ script, next.IsScript script ∧
      after.threads.get? caller = some (calling place script pending))
    (worker : ∃ now, after.places.get? place = some now ∧ next.Holds before now) (none : next.left = [])
    (told : next.Told place called (trace ++ [event]) after) :
    Descends place before called caller (trace ++ [event]) after next pending where
  run := descends.run.snoc (acts.step ready)
  balanced := by
    obtain ⟨left, balanced⟩ := descends.balanced
    exact balanced.step (acts.step ready)
  old := Nat.lt_of_lt_of_le descends.old (Interleaving.Step.started_le (acts.step ready : FleetStep s event after))
  thread := isNext
  worker := worker
  others found atPlace isOther :=
    ((descends.alone ready).2 (others isOther ▸ found) atPlace isOther).imp_right .inl
  left pair mem := by rw [none] at mem; cases mem
  distinct := by rw [none]; exact List.nodup_nil
  told := told

/-- The call changes its worker. -/
theorem turn (descends : Descends place before called caller trace s stage pending)
    (ready : s.Ready caller thread)
    (acts : Interleaving.Acts Duty.behaviour s caller thread event after) {permits : Worker → Bool}
    {change : Worker → Worker} {cont : Worker → Descent.Rest} (here : thread.script = .step permits change cont)
    (none : next.left = [])
    (goes : ∀ found, s.places.get? place = some found → stage.Holds before found → permits found = true →
      event = .inner → after.places.get? place = some (change found) →
        next.IsScript (cont found) ∧ next.Holds before (change found) ∧
          next.Told place called (trace ++ [event]) after) :
    Descends place before called caller (trace ++ [event]) after next pending := by
  obtain ⟨_, _, rfl⟩ := descends.caller_eq ready
  obtain ⟨found, atPlace, permitted, inner, same⟩ := acts.of_step here
  obtain ⟨before, there, holds⟩ := descends.worker
  obtain rfl := Option.some.inj (atPlace.symm.trans there)
  have isNow : after.places.get? place = some (change found) := by
    rw [same]
    exact SortedMap.get?_insert_self ..
  obtain ⟨isScript, holdsNow, told⟩ := goes found atPlace holds permitted inner isNow
  refine descends.onward ready acts (fun ne => ?_) (.inr ⟨cont found, isScript, ?_⟩) ⟨_, isNow, holdsNow⟩ none told
  · rw [same]
    exact SortedMap.get?_insert_of_ne _ ne _
  · rw [same]
    exact SortedMap.get?_insert_self ..

/-- The call starts the releases. -/
theorem give {held : List HeldLease}
    (descends : Descends place before called caller trace s (.giving held) pending) (ready : s.Ready caller thread)
    (acts : Interleaving.Acts Duty.behaviour s caller thread event after) :
    Descends place before called caller (trace ++ [event]) after
      (.given ((List.range' s.started held.length).zip held)) (List.range' s.started held.length) := by
  obtain ⟨_, alone⟩ := descends.alone ready
  obtain ⟨script, rfl, rfl⟩ := descends.caller_eq ready
  obtain ⟨rfl, same⟩ := acts.of_gather rfl
  have step : FleetStep s .inner after := acts.step ready
  obtain ⟨left, balanced⟩ := descends.balanced
  rw [Interleaving.nextIds, List.length_map] at same
  obtain ⟨releases, others⟩ := launchAll_releases place held
    (s.goOn caller (calling place Descent.records (List.range' s.started held.length)))
  have lengths : (List.range' s.started held.length).length = held.length := List.length_range'
  refine ⟨descends.run.snoc step, balanced.step step, Nat.lt_of_lt_of_le descends.old step.started_le,
    .inr ⟨Descent.records, rfl, ?_⟩, ?_, fun found atPlace isOther => ?_, fun pair mem => ⟨?_, ?_⟩, ?_, ?_⟩
  · rw [same]
    exact (Interleaving.get?_launchAll (s := s.goOn caller _) descends.old).trans (SortedMap.get?_insert_self ..)
  · obtain ⟨now, here, holds⟩ := descends.worker
    refine ⟨now, ?_, holds.onward (Nat.le_refl 3) (Nat.le_succ 3) fun late => absurd late (show ¬7 ≤ 4 by decide)⟩
    rw [same, Interleaving.launchAll_places]
    exact here
  · rw [same] at found
    rcases others found with earlier | ⟨one, mem, isReleasing⟩
    · rw [Interleaving.goOn, SortedMap.get?_insert_of_ne _ isOther] at earlier
      exact (alone earlier atPlace isOther).imp_right .inl
    · exact .inr (.inr ⟨rfl, (List.of_mem_zip mem).1, .inr ⟨one, mem, isReleasing⟩⟩)
  · rw [same]
    exact releases pair mem
  · exact (List.of_mem_zip mem).1
  · rw [Descent.left, List.map_fst_zip (Nat.le_of_eq lengths)]
    exact List.nodup_range'
  · refine descends.told.goesOn step rfl (iff_of_false (Nat.lt_irrefl 3) (show ¬4 < 3 by decide)) ?_
    rw [Descent.owing, Descent.owing, List.map_snd_zip (Nat.le_of_eq lengths.symm)]

/-- The call itself acts. -/
theorem own (descends : Descends place before called caller trace s stage pending)
    (ready : s.Ready caller thread) (acts : Interleaving.Acts Duty.behaviour s caller thread event after) :
    ∃ next pending, Descends place before called caller (trace ++ [event]) after next pending := by
  obtain ⟨script, isScript, rfl⟩ := descends.caller_eq ready
  have step : FleetStep s event after := acts.step ready
  have none := (descends.alone ready).1
  cases stage with
  | begun =>
    obtain ⟨cont, stops, follows⟩ := isScript
    refine ⟨.waiting, pending, descends.turn ready acts stops rfl ?_⟩
    rintro found - holds - rfl -
    exact ⟨follows found holds.coordinator, holds.stops, descends.told.goesOn step rfl (by decide) rfl⟩
  | waiting =>
    refine ⟨.clearing, pending, descends.turn ready acts isScript rfl ?_⟩
    rintro found - holds idle rfl -
    exact ⟨rfl, holds.waits (of_decide_eq_true idle), descends.told.goesOn step rfl (by decide) rfl⟩
  | clearing =>
    obtain ⟨now, isNow, _⟩ := descends.worker
    refine ⟨.giving now.coordinator.held.values, pending, descends.turn ready acts isScript rfl ?_⟩
    rintro found here holds - rfl cleared
    obtain rfl := Option.some.inj (isNow.symm.trans here)
    -- from this step on it is counted what has been offered of all that was held
    have unoffered : offers place trace = [] := descends.told
    refine ⟨rfl, holds.clears _, ?_⟩
    exact ⟨trace, s, after, [], now, rfl, descends.run, step, .refl _, here, cleared, unoffered, .refl _⟩
  | giving held => exact ⟨_, _, descends.give ready acts⟩
  | given waiting =>
    obtain rfl : waiting = [] := none
    obtain rfl : script = Descent.records := isScript
    obtain ⟨reply, answered, answers, rfl, same⟩ := acts.of_ask rfl
    refine ⟨.sampling, pending, descends.onward ready acts (fun ne => ?_) (.inr ⟨_, rfl, ?_⟩) ?_ rfl ?_⟩
    · rw [same, ← answers.threads]
      exact SortedMap.get?_insert_of_ne _ ne _
    · rw [same]
      exact SortedMap.get?_insert_self ..
    · obtain ⟨now, here, holds⟩ := descends.worker
      refine ⟨now, ?_, holds.onward (by decide) (by decide) (absurd · (by decide))⟩
      rw [same]
      exact (congrArg (·.get? place) answers.places).trans here
    · exact descends.told.goesOn step rfl (by decide) rfl
  | sampling =>
    refine ⟨.ending, pending, descends.turn ready acts isScript rfl ?_⟩
    rintro found - holds - rfl -
    exact ⟨rfl, holds.onward (by decide) (by decide) (absurd · (by decide)),
      descends.told.goesOn step rfl (by decide) rfl⟩
  | ending =>
    refine ⟨.ended, pending, descends.turn ready acts isScript rfl ?_⟩
    rintro found - holds - rfl -
    exact ⟨rfl, holds.enters, descends.told.goesOn step rfl (by decide) rfl⟩
  | ended =>
    obtain rfl : script = .done (.inr .nothing) := isScript
    obtain ⟨rfl, rfl⟩ := acts.of_done rfl
    obtain ⟨now, here, holds⟩ := descends.worker
    refine ⟨.returned, pending, descends.onward ready acts (fun ne => ?_) (.inl ⟨rfl, ?_⟩) ⟨now, here, ?_⟩ rfl ?_⟩
    · exact (SortedMap.get?_erase ..).trans (if_neg fun equal => ne (Std.LawfulEqCmp.eq_of_compare equal))
    · exact (SortedMap.get?_erase ..).trans (if_pos Std.ReflCmp.compare_self)
    · exact holds.onward (by decide) (by decide) fun _ => holds.phase (by decide)
    · exact descends.told.goesOn step rfl (by decide) rfl
  | returned => exact isScript.elim

/-- Whatever happens, as long as all that begins at the place is calm or comes too late. -/
theorem step (descends : Descends place before called caller trace s stage pending)
    (step : FleetStep s event after)
    (gently : ∀ duty, event = .begun place duty → duty.isCalm = true ∨ duty.isLate = true) :
    ∃ next pending, Descends place before called caller (trace ++ [event]) after next pending := by
  rcases step.acts with ⟨id, thread, ready, acts⟩ | ⟨there, duty, rfl, rfl, asked⟩ |
    ⟨call, reply, answered, rfl, rfl, answers⟩
  · by_cases isCaller : id = caller
    · subst isCaller
      exact descends.own ready acts
    · by_cases atPlace : thread.place = place
      · obtain ⟨next, descends⟩ := descends.besides ready acts isCaller atPlace
        exact ⟨next, pending, descends⟩
      · exact ⟨stage, pending, descends.elsewhere ready acts isCaller atPlace⟩
  · refine ⟨stage, pending, descends.begin step asked ?_⟩
    rintro rfl
    exact gently duty rfl
  · exact ⟨stage, pending, descends.outside step answers⟩

end Descends

/-- A call to shut down the worker at a place begins, which nobody has told to stop before, nor its coordinator.
The other threads at the place are calm or come too late. -/
structure Resigns (place : String) (worker : Worker) (s : FleetState) (caller : Nat) (called : FleetState) :
    Prop where
  found : s.places.get? place = some worker
  first : worker.stopping = false
  goesOn : worker.coordinator.stopping = false
  isCall : s.threads.get? caller = some (calling place (Duty.behaviour (.request .shutdown)) [])
  begins : Interleaving.Acts Duty.behaviour s caller
    (calling place (Duty.behaviour (.request .shutdown)) []) .inner called
  others : ∀ {id thread}, s.threads.get? id = some thread → thread.place = place → id ≠ caller →
    thread.job.isCalm = true ∨ thread.job.isLate = true ∧ thread.script = Duty.behaviour thread.job

section

variable {leases : List Lease} {setups : List WorkerSetup} {trace more : List (Event Duty Outcome)}
  {s called after : FleetState} {place : String} {worker : Worker} {caller : Nat}

theorem Resigns.step (resigns : Resigns place worker s caller called) : FleetStep s .inner called :=
  resigns.begins.step ⟨resigns.isCall, by simp⟩

/-- The call that comes first tells the worker to stop. -/
theorem Resigns.descends (resigns : Resigns place worker s caller called)
    (run : FleetRun (fleetStart leases setups) trace s) :
    Descends place worker called caller [] called .begun [] := by
  obtain ⟨next, begins, follows⟩ := Descent.behaviour_eq
  obtain ⟨left, balanced⟩ := balanced_of_run run
  obtain ⟨remaining, balancedNow⟩ := balanced.step resigns.step
  obtain ⟨found, here, _, _, rfl⟩ := resigns.begins.of_step begins
  obtain rfl := Option.some.inj (here.symm.trans resigns.found)
  refine ⟨.refl _, ⟨_, balancedNow⟩, balanced.fresh resigns.isCall,
    .inr ⟨next found, follows found resigns.first, SortedMap.get?_insert_self ..⟩,
    ⟨_, SortedMap.get?_insert_self .., Descent.holds_begun (staffed_of_run run here) resigns.first resigns.goesOn⟩,
    fun there atPlace isOther => ?_, List.forall_mem_nil _, List.nodup_nil, rfl⟩
  rw [Interleaving.goOn, SortedMap.get?_insert_of_ne _ isOther] at there
  exact (resigns.others there atPlace isOther).imp_right fun late => .inl ⟨late.1, .inl late.2⟩

/-- From then on the call comes down all its stages. -/
theorem Resigns.descends_of_run (resigns : Resigns place worker s caller called)
    (run : FleetRun (fleetStart leases setups) trace s) (since : FleetRun called more after)
    (gently : ∀ duty, .begun place duty ∈ more → duty.isCalm = true ∨ duty.isLate = true) :
    ∃ stage pending, Descends place worker called caller more after stage pending := by
  induction since with
  | refl => exact ⟨.begun, [], resigns.descends run⟩
  | snoc before step ih =>
    obtain ⟨stage, pending, descends⟩ := ih fun duty mem => gently duty (List.mem_append_left _ mem)
    refine descends.step step ?_
    rintro duty rfl
    exact gently duty (List.mem_append_right _ List.mem_cons_self)

end

end LeaseFleet
