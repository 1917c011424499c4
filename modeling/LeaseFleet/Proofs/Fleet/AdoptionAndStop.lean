import LeaseFleet.Proofs.Fleet.AdoptionAccounts
import LeaseFleet.Proofs.Interleaving.StepEffects
import LeaseFleet.Proofs.Store.InMemoryMap

/-!
# Parting from leases

An adoption and a stop of one coordinator come across each other in any way. After both have returned,
each lease that the adoption has acquired is held or was offered back, and something is held only if the
adoption has ended with a failure of the store (`held_only_after_failed_adoption`). The early end on a
failed acquisition is the one way out of an adoption that does not look whether the coordinator was
stopped.
-/

namespace LeaseFleet

/-! ## Runs of a fleet -/

/-- A listing that is shown names every lease once. -/
def Event.ListsOnce : Event Duty Outcome → Prop
  | called _ _ call reply => LeaseFleet.ListsOnce (.store call) reply
  | _ => True

/-- After one adoption and one stop at most, the account of a place is right. -/
def FleetState.Accounted (place : String) (trace : List (Event Duty Outcome)) (s : FleetState)
    (marks : Nat → Burden) : Prop :=
  (trace.filterMap (·.begunAt? place)).Subperm [.request .adopt, .request .stopLoops] →
    ∀ {worker}, s.places.get? place = some worker →
      Account (trace.filterMap (·.begunAt? place)) (trace.filterMap (·.adopted? place))
        (trace.filterMap (·.offered? place))
        (∃ cause, .ended place (.request .adopt) (.failed (.store cause)) ∈ trace) worker.coordinator s.started
        (s.roll place marks)

section

variable {place : String} {trace : List (Event Duty Outcome)} {event : Event Duty Outcome}
  {s after : FleetState} {marks remarked : Nat → Burden}

/-- What is adopted or offered at a place is shown as a call there. -/
theorem Event.called_of_moved {lease : Lease}
    (moved : event.adopted? place = some lease ∨ event.offered? place = some lease) :
    ∃ duty call reply, event = .called place duty call reply := by
  rcases moved with moved | moved
  · unfold adopted? at moved
    split at moved
    · split at moved
      · rename_i atPlace
        subst atPlace
        exact ⟨_, _, _, rfl⟩
      · cases moved
    · cases moved
  · unfold offered? at moved
    split at moved
    · split at moved
      · rename_i same
        obtain ⟨rfl, _⟩ := same
        exact ⟨_, _, _, rfl⟩
      · cases moved
    · cases moved

/-- Nothing is adopted or offered by what is not a call at the place. -/
theorem Event.quiet_of_no_call (other : ∀ duty call reply, event ≠ .called place duty call reply) :
    event.adopted? place = none ∧ event.offered? place = none := by
  constructor <;> refine Option.eq_none_iff_forall_ne_some.2 fun lease moved => ?_
  · obtain ⟨duty, call, reply, same⟩ := called_of_moved (.inl moved)
    exact other duty call reply same
  · obtain ⟨duty, call, reply, same⟩ := called_of_moved (.inr moved)
    exact other duty call reply same

theorem Event.ofAnswer_ne_called {there : String} {duty otherDuty : Duty} {query : Query} (reply : query.Reply)
    (elsewhere : there ≠ place) (call : StoreCall) (otherReply : call.Reply) :
    (Event.ofAnswer there duty query reply : Event Duty Outcome) ≠ .called place otherDuty call otherReply := by
  cases query <;> simp [Event.ofAnswer, elsewhere]

theorem Event.begunAt?_ofAnswer {there : String} {duty : Duty} {query : Query} (reply : query.Reply) :
    (Event.ofAnswer there duty query reply : Event Duty Outcome).begunAt? place = none := by
  cases query <;> rfl

theorem filterMap_snoc {α β : Type} (f : α → Option β) (list : List α) (last : α) :
    (list ++ [last]).filterMap f = list.filterMap f ++ (f last).toList := by
  rw [List.filterMap_append]
  cases shown : f last <;> simp [shown]

/-- What is shown by a step that moves no lease and begins nothing at the place. -/
theorem FleetState.Accounted.quiet (accounted : s.Accounted place trace marks)
    (moves : event.adopted? place = none ∧ event.offered? place = none) (begins : event.begunAt? place = none)
    (calls : ((trace ++ [event]).filterMap (·.begunAt? place)).Subperm [.request .adopt, .request .stopLoops])
    {worker : Worker} (here : s.places.get? place = some worker) :
    Account ((trace ++ [event]).filterMap (·.begunAt? place)) ((trace ++ [event]).filterMap (·.adopted? place))
      ((trace ++ [event]).filterMap (·.offered? place))
      (∃ cause, .ended place (.request .adopt) (.failed (.store cause)) ∈ trace ++ [event]) worker.coordinator
      s.started (s.roll place marks) := by
  simp only [filterMap_snoc, moves, begins, Option.toList_none, List.append_nil] at calls ⊢
  exact (accounted calls here).weaken (Exists.imp fun _ => List.mem_append_left _)

section

variable {id : Nat} {thread : Thread Worker Duty Outcome} {mark : Burden} {script : Script Worker Duty (Duty ⊕ Outcome)}
  (accounted : s.Accounted place trace marks) (found : s.threads.get? id = some thread)

include accounted found

theorem FleetState.Accounted.ask {query : Query} {reply : query.Reply} {answered : FleetState}
    (answers : s.Answers query reply answered)
    (isOpen : ((carryingDiscipline place).rules thread.place thread.job).asks (marks id) query reply mark)
    (once : (Event.ofAnswer thread.place thread.job query reply : Event Duty Outcome).ListsOnce) :
    FleetState.Accounted place (trace ++ [.ofAnswer thread.place thread.job query reply])
      (answered.goOn id { thread with script }) (setMark marks id mark) := by
  intro calls worker here
  have here : s.places.get? place = some worker := answers.places ▸ here
  have sameRoll : FleetState.roll place answered marks = s.roll place marks := by
    unfold FleetState.roll
    rw [answers.threads]
  rw [FleetState.roll_goOn, sameRoll, Interleaving.goOn, answers.started]
  have begins : (Event.ofAnswer thread.place thread.job query reply : Event Duty Outcome).begunAt? place = none :=
    Event.begunAt?_ofAnswer reply
  by_cases atPlace : thread.place = place
  · subst atPlace
    rw [if_pos rfl]
    simp only [filterMap_snoc, begins, Option.toList_none, List.append_nil] at calls ⊢
    have account := accounted calls here
    have onRoll := FleetState.roll_here marks found
    rw [carryingDiscipline_rules _ (account.sound onRoll).handsOver] at isOpen
    have listed : LeaseFleet.ListsOnce query reply := by
      cases query with
      | store call => exact once
      | _ => trivial
    exact (account.ask onRoll answers listed isOpen).weaken (Exists.imp fun _ => List.mem_append_left _)
  · rw [if_neg atPlace, FleetState.roll_elsewhere found atPlace]
    exact accounted.quiet (Event.quiet_of_no_call fun _ => Event.ofAnswer_ne_called reply atPlace) begins calls here

theorem FleetState.Accounted.change {state now : Worker} (known : s.places.get? thread.place = some state)
    (isOpen : ((carryingDiscipline place).rules thread.place thread.job).steps (marks id) state now mark) :
    FleetState.Accounted place (trace ++ [.inner])
      ((s.setPlace thread.place now).goOn id { thread with script }) (setMark marks id mark) := by
  intro calls worker here
  rw [FleetState.roll_goOn]
  by_cases atPlace : thread.place = place
  · subst atPlace
    obtain rfl : now = worker := by
      simpa [Interleaving.goOn, Interleaving.setPlace] using here
    have account := accounted.quiet ⟨rfl, rfl⟩ rfl calls known
    have onRoll := FleetState.roll_here marks found
    rw [carryingDiscipline_rules _ (account.sound onRoll).handsOver] at isOpen
    rw [if_pos rfl]
    exact account.change onRoll isOpen
  · have here : s.places.get? place = some worker := by
      simpa [Interleaving.goOn, Interleaving.setPlace, SortedMap.get?_insert_of_ne _ (Ne.symm atPlace)] using here
    have rolled : FleetState.roll place (s.setPlace thread.place now) marks = s.roll place marks := rfl
    rw [if_neg atPlace, rolled, FleetState.roll_elsewhere found atPlace]
    exact accounted.quiet ⟨rfl, rfl⟩ rfl calls here

theorem FleetState.Accounted.spawn {job : Duty} {child : Burden}
    (isOpen : ((carryingDiscipline place).rules thread.place thread.job).starts (marks id) job child mark) :
    FleetState.Accounted place (trace ++ [.inner]) (s.launch Duty.behaviour thread.place job)
      (setMark (setMark marks id mark) s.started child) := by
  intro calls worker here
  have account := accounted.quiet ⟨rfl, rfl⟩ rfl calls here
  rw [FleetState.roll_launch, FleetState.roll_remark found]
  by_cases atPlace : thread.place = place
  · subst atPlace
    have onRoll := FleetState.roll_here marks found
    rw [carryingDiscipline_rules _ (account.sound onRoll).handsOver] at isOpen
    obtain ⟨_, rfl, inner, rfl, starts⟩ := isOpen
    rw [if_pos rfl, if_pos rfl]
    generalize marks id = before at onRoll starts
    cases starts
    exact account.handBack onRoll
  · obtain ⟨nobody, more⟩ := account.more
    rw [if_neg atPlace, if_neg atPlace, FleetState.roll_elsewhere found atPlace,
      Function.update_eq_self_iff.2 nobody.symm]
    exact more

theorem FleetState.Accounted.follow {job : Duty}
    (isOpen : ((carryingDiscipline place).rules thread.place thread.job).starts (marks id) job mark mark) :
    FleetState.Accounted place (trace ++ [.inner])
      (s.goOn id { thread with job, script := Duty.behaviour job }) (setMark marks id mark) := by
  intro calls worker here
  have account := accounted.quiet ⟨rfl, rfl⟩ rfl calls here
  rw [FleetState.roll_goOn]
  by_cases atPlace : thread.place = place
  · subst atPlace
    have onRoll := FleetState.roll_here marks found
    rw [carryingDiscipline_rules _ (account.sound onRoll).handsOver] at isOpen
    obtain ⟨_, rfl, inner, rfl, starts⟩ := isOpen
    generalize marks id = before at starts
    cases starts
  · rw [if_neg atPlace, FleetState.roll_elsewhere found atPlace]
    exact account

theorem FleetState.Accounted.finish {result : Outcome}
    (isOpen : (carryingDiscipline place).finishes thread.place thread.job (marks id) result) :
    FleetState.Accounted place (trace ++ [.ended thread.place thread.job result]) (s.drop id) marks := by
  intro calls worker here
  have account := accounted.quiet ⟨rfl, rfl⟩ rfl calls here
  rw [FleetState.roll_drop]
  by_cases atPlace : thread.place = place
  · subst atPlace
    have onRoll := FleetState.roll_here marks found
    have sound := account.sound onRoll
    have finishes : (marks id).Finishes thread.job result := isOpen rfl sound.handsOver
    refine account.finish onRoll finishes.leases ?_ (fun failed => failed) fun onTheWay => ?_
    · intro isStop isIdle
      rw [isIdle, isStop] at finishes
      cases finishes
    · obtain ⟨cause, adopts, rfl⟩ := finishes.cause sound onTheWay
      exact ⟨cause, by simp [adopts]⟩
  · rw [FleetState.roll_elsewhere found atPlace]
    exact account

end

theorem FleetState.Accounted.begin (accounted : s.Accounted place trace marks) (there : String) (duty : Duty) :
    FleetState.Accounted place (trace ++ [.begun there duty]) (s.launch Duty.behaviour there duty)
      (setMark marks s.started .idle) := by
  intro calls worker here
  rw [FleetState.roll_launch]
  by_cases atPlace : there = place
  · subst atPlace
    have shown : (Event.begun there duty : Event Duty Outcome).begunAt? there = some duty := if_pos rfl
    rw [if_pos rfl]
    simp only [filterMap_snoc, shown, Event.adopted?, Event.offered?, Option.toList_some, Option.toList_none,
      List.append_nil] at calls ⊢
    have account := (accounted ((List.sublist_append_left ..).subperm.trans calls) here).begin calls
    exact account.weaken (Exists.imp fun _ => List.mem_append_left _)
  · have silent : (Event.begun there duty : Event Duty Outcome).begunAt? place = none := if_neg atPlace
    have account := accounted.quiet ⟨rfl, rfl⟩ silent calls here
    obtain ⟨nobody, more⟩ := account.more
    rw [if_neg atPlace, Function.update_eq_self_iff.2 nobody.symm]
    exact more

theorem FleetState.Accounted.outside (accounted : s.Accounted place trace marks) {call : StoreCall} {reply : call.Reply}
    {answered : FleetState} (answers : s.Answers (.store call) reply answered) :
    FleetState.Accounted place (trace ++ [.outside call reply]) (answered.keepCopies call reply) marks := by
  intro calls worker here
  have here : s.places.get? place = some worker := by
    rwa [Interleaving.keepCopies_places, answers.places] at here
  have sameRoll : FleetState.roll place (answered.keepCopies call reply) marks = s.roll place marks := by
    unfold FleetState.roll
    rw [Interleaving.keepCopies_threads, answers.threads]
  rw [sameRoll, Interleaving.keepCopies_started, answers.started]
  exact accounted.quiet (Event.quiet_of_no_call (by simp)) rfl calls here

/-- Every move keeps the account right. -/
theorem FleetState.Accounted.move {asked : Duty → Prop} (accounted : s.Accounted place trace marks)
    (move : (carryingDiscipline place).Move Duty.behaviour asked s marks event after remarked)
    (once : event.ListsOnce) : after.Accounted place (trace ++ [event]) remarked := by
  cases move with
  | ask script found answers isOpen => exact accounted.ask found answers isOpen once
  | change script found known isOpen => exact accounted.change found known isOpen
  | stay script pending found =>
    intro calls worker here
    rw [FleetState.roll_stay found]
    exact accounted.quiet ⟨rfl, rfl⟩ rfl calls here
  | spawn thread found isOpen => exact accounted.spawn found isOpen
  | follow found isOpen => exact accounted.follow found isOpen
  | finish found isOpen => exact accounted.finish found isOpen
  | begin known may => exact accounted.begin _ _
  | outside may answers => exact accounted.outside answers

theorem FleetState.Accounted.of_inner (accounted : s.Accounted place (trace ++ [.inner]) marks) :
    s.Accounted place trace marks := by
  intro calls worker here
  have same {α : Type} (f : Event Duty Outcome → Option α) (silent : f .inner = none) :
      (trace ++ [Event.inner]).filterMap f = trace.filterMap f := by
    rw [filterMap_snoc, silent, Option.toList_none, List.append_nil]
  have account := accounted (by rwa [same _ rfl]) here
  rw [same _ rfl, same _ rfl, same _ rfl] at account
  exact account.weaken (Exists.imp fun _ mem => by simpa using mem)

/-- A fleet at its start has adopted nothing and offered nothing back. -/
theorem accounted_fleetStart (leases : List Lease) (setups : List WorkerSetup) (marks : Nat → Burden) :
    (fleetStart leases setups).Accounted place [] marks := by
  intro _ worker here
  obtain ⟨setup, _, rfl⟩ := places_fleetStart here
  have nobody (id : Nat) : (fleetStart leases setups).roll place marks id = none := rfl
  have onHands : ((fleetStart leases setups).roll place marks).leases 0 = 0 := rfl
  exact {
    fresh := fun there => by simp [nobody] at there
    sound := fun there => by simp [nobody] at there
    alone := fun there => by simp [nobody] at there
    adopting := fun there => by simp [nobody] at there
    adopted_begun := fun some => absurd rfl some
    keyed := fun found => by cases found
    distinct := List.nodup_nil
    balance := rfl
    stopping := fun mem => by cases mem
    parting := fun isStopping => by cases isStopping }

/-- The table lists every lease once, in every state of a run. -/
theorem listsOnce_of_run {leases : List Lease} {setups : List WorkerSetup}
    (run : FleetRun (fleetStart leases setups) trace s) : s.table.Keyed ∧ ∀ event ∈ trace, event.ListsOnce := by
  generalize first : fleetStart leases setups = start at run
  induction run with
  | refl =>
    subst first
    exact ⟨LeaseTable.Keyed.ofLeases leases, by simp⟩
  | @snoc last after trace event before step ih =>
    obtain ⟨keyed, listed⟩ := ih
    refine ⟨?_, ?_⟩
    · rcases step.table with same | ⟨call, performed, _⟩
      · exact same ▸ keyed
      · exact performed ▸ keyed.perform call
    · intro shown mem
      rcases List.mem_append.1 mem with earlier | now
      · exact listed shown earlier
      · obtain rfl := List.mem_singleton.1 now
        cases shown with
        | called there duty call reply =>
          cases call with
          | list =>
            cases reply with
            | error error => trivial
            | ok leases =>
              have carriedOut := step.answered (.inr ⟨there, duty, rfl⟩)
              obtain rfl : last.table.leases = leases := Except.ok.inj (congrArg Prod.fst carriedOut)
              exact keyed.lists.keys_nodup
          | _ => cases reply <;> trivial
        | _ => trivial

end

section

variable {leases : List Lease} {setups : List WorkerSetup} {trace : List (Event Duty Outcome)} {s : FleetState}
  {place : String} {worker : Worker}

theorem accounted_of_run (run : FleetRun (fleetStart leases setups) trace s) :
    ∃ marks, (carryingDiscipline place).Marked s marks ∧ FleetState.Accounted place trace s marks := by
  refine Discipline.Run.keeps_marked (FleetState.Accounted place) Event.ListsOnce
    carryingDiscipline_obeyed FleetState.Accounted.move FleetState.Accounted.of_inner ?_ ?_
    (Discipline.marked_of_no_threads (fun _ => .idle) rfl) (accounted_fleetStart leases setups _) run
    (listsOnce_of_run run).2
  · intro trace s marks there state duty _ _
    by_cases ours : there = place ∧ duty.handsOver = true
    · obtain ⟨rfl, hands⟩ := ours
      rw [carryingDiscipline_rules there hands]
      trivial
    · rw [carryingDiscipline_rules_free ours]
      trivial
  · intro s answered there duty query reply once _
    by_cases ours : there = place ∧ duty.handsOver = true
    · obtain ⟨rfl, hands⟩ := ours
      rw [carryingDiscipline_rules there hands]
      cases query with
      | store call => exact once
      | _ => trivial
    · rw [carryingDiscipline_rules_free ours]
      trivial

/-- Once an adoption and a stop of one coordinator have returned, whatever they have come across, each
lease that the adoption has acquired is held or was offered back, and none is counted twice. The
coordinator holds something only if the adoption has ended with a failure of the store. -/
theorem held_only_after_failed_adoption (run : FleetRun (fleetStart leases setups) trace s)
    (calls : (trace.filterMap (·.begunAt? place)).Perm [.request .adopt, .request .stopLoops])
    (returned : ∀ {id thread}, s.threads.get? id = some thread → thread.place ≠ place)
    (here : s.places.get? place = some worker) :
    (trace.filterMap (·.adopted? place)).Perm
        (worker.coordinator.heldLeases ++ trace.filterMap (·.offered? place)) ∧
      (worker.coordinator.held ≠ .empty →
        ∃ cause, .ended place (.request .adopt) (.failed (.store cause)) ∈ trace) := by
  obtain ⟨marks, _, accounted⟩ := accounted_of_run run
  have account := accounted calls.subperm here
  have nobody (id : Nat) : s.roll place marks id = none := by
    cases found : s.threads.get? id with
    | none => simp [FleetState.roll, found]
    | some thread => rw [FleetState.roll_of_found found, if_neg (returned found)]
  have onHands : (s.roll place marks).leases s.started = 0 := by
    simp [Roll.leases, nobody, Roll.onHands]
  constructor
  · have balance := account.balance
    rw [onHands, add_zero, Multiset.coe_add] at balance
    exact Multiset.coe_eq_coe.1 balance
  · intro holds
    have stopping : worker.coordinator.stopping = true :=
      (account.stopping (calls.mem_iff.2 (by simp))).resolve_left (by simp [nobody])
    refine ((account.parting stopping).resolve_left holds).resolve_right ?_
    rintro ⟨id, duty, mark, there, _⟩
    simp [nobody] at there

end

/-- A worker that owns both leases of the table adopts them. It has listed them when it is asked to stop,
which takes its course, and then the given choices follow. -/
def parting (choices : List (Interleaving.Choice Duty)) : List (Event Duty Outcome) × FleetState :=
  Interleaving.play Duty.behaviour (fun duty => duty.background? = none)
    (List.flatten [
      [.begin "w1" (.request .adopt)], Interleaving.acts 0 6,
      [.begin "w1" (.request .stopLoops)], Interleaving.acts 1 10, choices])
    ([], fleetStart [{ leaseKey := "a", shardId := "a", owner := some "w1" },
        { leaseKey := "b", shardId := "b", owner := some "w1" }]
      [{ workerId := "w1", multi := false, region := "r", account := "c" }])

/-- The adoption and the stop have returned, the worker still holds the leases of these keys, and what was
adopted is accounted for. -/
def PartsWith (played : List (Event Duty Outcome) × FleetState) (kept : List String) : Prop :=
  ∃ worker, played.2.places.get? "w1" = some worker ∧
    (played.1.filterMap (·.begunAt? "w1")).Perm [.request .adopt, .request .stopLoops] ∧
    (∀ {id thread}, played.2.threads.get? id = some thread → thread.place ≠ "w1") ∧
    worker.coordinator.heldLeases.map Lease.leaseKey = kept ∧
    (played.1.filterMap (·.adopted? "w1")).Perm
      (worker.coordinator.heldLeases ++ played.1.filterMap (·.offered? "w1")) ∧
    (worker.coordinator.held ≠ .empty →
      ∃ cause, .ended "w1" (.request .adopt) (.failed (.store cause)) ∈ played.1)

/-- If the second acquisition fails, the first lease is held for good. If both succeed, both leases are
handed back. -/
theorem held_only_after_failed_adoption_when_crossed :
    PartsWith (parting (Interleaving.acts 0 7 ++ [.refuse 0 (.transient "")] ++ Interleaving.acts 0 5)) ["a"] ∧
      PartsWith (parting (Interleaving.acts 0 20 ++ Interleaving.acts 2 5 ++ Interleaving.acts 3 5 ++
        Interleaving.acts 0 5)) [] := by
  have parts (choices : List (Interleaving.Choice Duty)) (kept : List String)
      (played : (((parting choices).2.places.get? "w1").map fun worker =>
          worker.coordinator.heldLeases.map Lease.leaseKey) = some kept ∧
        (parting choices).1.filterMap (·.begunAt? "w1") = [.request .adopt, .request .stopLoops] ∧
        (parting choices).2.threads.keys = []) : PartsWith (parting choices) kept := by
    obtain ⟨holds, begun, ended⟩ := played
    obtain ⟨worker, here, isKept⟩ := Option.map_eq_some_iff.1 holds
    have calls : ((parting choices).1.filterMap (·.begunAt? "w1")).Perm [.request .adopt, .request .stopLoops] := by
      rw [begun]
    have returned {id thread} (found : (parting choices).2.threads.get? id = some thread) : thread.place ≠ "w1" := by
      have listed : id ∈ (parting choices).2.threads.keys := SortedMap.mem_keys.2 (by simp [SortedMap.contains, found])
      rw [ended] at listed
      cases listed
    have run : FleetRun _ (parting choices).1 (parting choices).2 := Interleaving.run_play _ (.refl _)
    exact ⟨worker, here, calls, returned, isKept, held_only_after_failed_adoption run calls returned here⟩
  exact ⟨parts _ _ (by decide +kernel), parts _ _ (by decide +kernel)⟩

end LeaseFleet
