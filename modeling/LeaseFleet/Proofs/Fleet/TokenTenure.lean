import LeaseFleet.Proofs.Fleet.AcquisitionHistory
import LeaseFleet.Proofs.Fleet.Fencing
import LeaseFleet.Proofs.Interleaving.StepEffects

/-!
# Tenure

The time in which a lease is written under one token and by nobody else. There is something behind every
title of a thread and behind every lease that is held (`Tenured`), and every step keeps this as long as
no lease is deleted (`Tenured.move`). So what is written under a token is written before anybody else
has written the lease since the acquisition for which the token was given
(`checkpoints_fenced_by_token`).
-/

namespace LeaseFleet

/-- The archive of a fleet. -/
def FleetState.archive (s : FleetState) (origin : Token → Lease)
    (trace : List (Event Duty Outcome)) : Archive :=
  { origin, tokens := s.tokens, table := s.table, trace }

/-- Whatever is held and every title goes back to an acquisition. -/
structure Tenured (origin : Token → Lease) (trace : List (Event Duty Outcome)) (s : FleetState)
    (marks : Nat → Titles) : Prop where
  chronicle : Chronicle s.table trace
  keyed : ∀ {place worker}, s.places.get? place = some worker → worker.coordinator.Keyed
  held : ∀ {place worker leaseKey held}, s.places.get? place = some worker →
    worker.coordinator.held.get? leaseKey = some held →
      (s.archive origin trace).Tenure place held.token held.lease
  backed : ∀ {id thread}, s.threads.get? id = some thread → ∀ {title}, marks id title →
    title.Backed (s.archive origin trace) thread.place

/-! ## What the parts of a step keep -/

namespace Tenured

variable {origin later : Token → Lease} {trace : List (Event Duty Outcome)} {s now : FleetState}
  {marks : Nat → Titles} {titles : Titles} {event : Event Duty Outcome}

/-- The surroundings may move on. -/
theorem advance (tenured : Tenured origin trace s marks) (threads : now.threads = s.threads)
    (places : now.places = s.places)
    (more : (s.archive origin trace).Extends (now.archive later (trace ++ [event])) event) :
    Tenured later (trace ++ [event]) now marks where
  chronicle := tenured.chronicle.snoc more.progress
  keyed found := tenured.keyed (places ▸ found)
  held found inMap := (tenured.held (places ▸ found) inMap).extends more
  backed found _ mem := (tenured.backed (threads ▸ found) mem).extends more

/-- A step that shows no call leaves everything behind the titles as it was. -/
theorem silent (tenured : Tenured origin trace s marks) (notApplied : event.applied? = none) :
    Tenured origin (trace ++ [event]) s marks :=
  tenured.advance rfl rfl ⟨fun _ => rfl, Nat.le_refl _, rfl, .of_same notApplied⟩

/-- A thread may get other titles, if there is something behind them. -/
theorem goOn (tenured : Tenured origin trace s marks) (id : Nat) (thread : Thread Worker Duty Outcome)
    (backed : ∀ title, titles title → title.Backed (s.archive origin trace) thread.place) :
    Tenured origin trace (s.goOn id thread) (setMark marks id titles) where
  chronicle := tenured.chronicle
  keyed := tenured.keyed
  held := tenured.held
  backed {other _} found title mem := by
    have inAll := forall_threads_insert
      (P := fun (there : Thread Worker Duty Outcome) (mark : Titles) =>
        ∀ title, mark title → title.Backed (s.archive origin trace) there.place)
      backed (fun _ here _ mem => tenured.backed here mem) found
    exact inAll title mem

theorem remark (tenured : Tenured origin trace s marks) {id : Nat} {thread : Thread Worker Duty Outcome}
    (found : s.threads.get? id = some thread)
    (backed : ∀ title, titles title → title.Backed (s.archive origin trace) thread.place) :
    Tenured origin trace s (setMark marks id titles) where
  chronicle := tenured.chronicle
  keyed := tenured.keyed
  held := tenured.held
  backed {other there} here title mem := by
    by_cases same : other = id
    · subst same
      obtain rfl := Option.some.inj (here.symm.trans found)
      exact backed title (by simpa using mem)
    · rw [setMark_of_ne marks same] at mem
      exact tenured.backed here mem

theorem stay (tenured : Tenured origin trace s marks) {id : Nat} {old : Thread Worker Duty Outcome}
    (found : s.threads.get? id = some old) (thread : Thread Worker Duty Outcome)
    (place : thread.place = old.place) : Tenured origin trace (s.goOn id thread) marks := by
  have backed : ∀ title, marks id title → title.Backed (s.archive origin trace) thread.place :=
    fun title mem => place ▸ tenured.backed found mem
  have kept := tenured.goOn id thread backed
  rwa [Discipline.setMark_same] at kept

theorem launch (tenured : Tenured origin trace s marks) (place : String) (duty : Duty)
    (backed : ∀ title, titles title → title.Backed (s.archive origin trace) place) :
    Tenured origin trace (s.launch Duty.behaviour place duty) (setMark marks s.started titles) where
  chronicle := tenured.chronicle
  keyed := tenured.keyed
  held := tenured.held
  backed := (tenured.goOn s.started { place, job := duty, script := Duty.behaviour duty } backed).backed

theorem drop (tenured : Tenured origin trace s marks) (id : Nat) : Tenured origin trace (s.drop id) marks where
  chronicle := tenured.chronicle
  keyed := tenured.keyed
  held := tenured.held
  backed found := tenured.backed (SortedMap.get?_erase_eq_some_iff.1 found).2

theorem keepCopies (tenured : Tenured origin trace s marks) (call : StoreCall) (reply : call.Reply) :
    Tenured origin trace (s.keepCopies call reply) marks := by
  unfold Interleaving.keepCopies
  split
  · exact ⟨tenured.chronicle, tenured.keyed, tenured.held, tenured.backed⟩
  · exact tenured

/-- A worker may change what it holds as its titles have it. -/
theorem setPlace (tenured : Tenured origin trace s marks) {id : Nat} {thread : Thread Worker Duty Outcome}
    {worker after : Worker} (found : s.threads.get? id = some thread)
    (here : s.places.get? thread.place = some worker)
    (changes : worker.coordinator.Changes thread.job.office (marks id) after.coordinator) :
    Tenured origin trace (s.setPlace thread.place after) marks where
  chronicle := tenured.chronicle
  keyed := SortedMap.forall_insert (P := fun _ (worker : Worker) => worker.coordinator.Keyed)
    (Coordinator.Keyed.changes (tenured.keyed here) changes) fun _ => tenured.keyed
  held {place _ leaseKey held} there inMap := by
    rcases SortedMap.get?_insert_eq_some_iff.1 there with ⟨rfl, rfl⟩ | ⟨_, there⟩
    · rcases changes.held inMap with before | ⟨_, granted | ⟨_, copy, _⟩⟩
      · exact tenured.held here before
      · exact (tenured.backed found granted).2
      · exact tenured.backed found copy
    · exact tenured.held there inMap
  backed := tenured.backed

/-- An answer that gives nothing and shows no applied update. -/
theorem unanswered (tenured : Tenured origin trace s marks) {id : Nat} {thread : Thread Worker Duty Outcome}
    {query : Query} {reply : query.Reply} (found : s.threads.get? id = some thread)
    (earns : Earns thread.job.office (marks id) query reply titles)
    (nothing : ∀ {title}, ¬Gives thread.job.office (marks id) query reply title)
    (notApplied : event.applied? = none) (script : Script Worker Duty (Duty ⊕ Outcome)) :
    Tenured origin (trace ++ [event]) (s.goOn id { thread with script }) (setMark marks id titles) := by
  obtain ⟨given, gives, earned⟩ := earns
  have silent : Tenured origin (trace ++ [event]) s marks := tenured.silent notApplied
  refine silent.goOn id { thread with script } fun title mem => silent.backed found ?_
  exact (earned title mem).resolve_right fun same => nothing (gives title same)

/-- What a call of a thread brings about. -/
theorem stored (tenured : Tenured origin trace s marks) {id : Nat} {thread : Thread Worker Duty Outcome}
    {call : StoreCall} (found : s.threads.get? id = some thread)
    (entitled : Entitled thread.job.office (marks id) (.store call))
    (earns : Earns thread.job.office (marks id) (.store call) (s.table.perform call).1 titles)
    (kept : ¬call.Deletes (s.table.perform call).1) (script : Script Worker Duty (Duty ⊕ Outcome)) :
    Tenured origin (trace ++ [.called thread.place thread.job call (s.table.perform call).1])
      (Interleaving.goOn { s with table := (s.table.perform call).2 } id { thread with script })
      (setMark marks id titles) := by
  obtain ⟨given, gives, earned⟩ := earns
  have more : (s.archive origin trace).Extends
      (FleetState.archive { s with table := (s.table.perform call).2 } origin
        (trace ++ [.called thread.place thread.job call (s.table.perform call).1]))
      (.called thread.place thread.job call (s.table.perform call).1) :=
    ⟨fun _ => rfl, Nat.le_refl _, rfl, .of_perform kept rfl⟩
  have moved : Tenured origin _ { s with table := (s.table.perform call).2 } marks :=
    tenured.advance rfl rfl more
  refine moved.goOn id { thread with script } fun title mem => ?_
  rcases earned title mem with before | same
  · exact (tenured.backed found before).extends more
  · exact .of_write (fun _ => tenured.backed found) tenured.chronicle more entitled (gives title same)

/-- What a new token brings about. -/
theorem granted (tenured : Tenured origin trace s marks) {id : Nat} {thread : Thread Worker Duty Outcome}
    (found : s.threads.get? id = some thread)
    (earns : Earns thread.job.office (marks id) .token ⟨s.tokens⟩ titles)
    (script : Script Worker Duty (Duty ⊕ Outcome)) :
    ∃ later : Token → Lease, (∀ {token}, token.serial < s.tokens → later token = origin token) ∧
      Tenured later (trace ++ [.inner])
        (Interleaving.goOn { s with tokens := s.tokens + 1 } id { thread with script })
        (setMark marks id titles) := by
  obtain ⟨given, gives, earned⟩ := earns
  cases given with
  | none =>
    have more : (s.archive origin trace).Extends
        (FleetState.archive { s with tokens := s.tokens + 1 } origin (trace ++ [.inner])) .inner :=
      ⟨fun _ => rfl, Nat.le_succ _, rfl, .of_same rfl⟩
    have moved : Tenured origin _ { s with tokens := s.tokens + 1 } marks := tenured.advance rfl rfl more
    refine ⟨origin, fun _ => rfl, moved.goOn id { thread with script } fun title mem => ?_⟩
    exact moved.backed found ((earned title mem).resolve_right nofun)
  | some title =>
    obtain ⟨stored, won, rfl⟩ := gives title rfl
    have more := (s.archive origin trace).extends_give stored
    have moved : Tenured ((s.archive origin trace).give stored).origin (trace ++ [.inner])
        { s with tokens := s.tokens + 1 } marks := tenured.advance rfl rfl more
    refine ⟨_, more.origin, moved.goOn id { thread with script } fun title mem => ?_⟩
    rcases earned title mem with before | same
    · exact moved.backed found before
    · obtain rfl := Option.some.inj same
      exact .of_grant (tenured.backed found won)

/-- Every move that deletes nothing keeps something behind all titles. -/
theorem move {asked : Duty → Prop} {after : FleetState} {remarked : Nat → Titles}
    (tenured : Tenured origin trace s marks)
    (move : titleDiscipline.Move Duty.behaviour asked s marks event after remarked) (kept : ¬event.Deletes) :
    ∃ later : Token → Lease, (∀ {token}, token.serial < s.tokens → later token = origin token) ∧
      s.tokens ≤ after.tokens ∧ Tenured later (trace ++ [event]) after remarked := by
  cases move with
  | @ask answered marks id thread query reply titles script found answers isOpen =>
    obtain ⟨entitled, earns⟩ := isOpen
    cases answers with
    | stored call => exact ⟨origin, fun _ => rfl, Nat.le_refl _, tenured.stored found entitled earns kept script⟩
    | failed call error =>
      have notApplied : (Event.called thread.place thread.job call (call.failed error) :
          Event Duty Outcome).applied? = none := call.applied?_failed error
      exact ⟨origin, fun _ => rfl, Nat.le_refl _,
        tenured.unanswered found earns not_gives_failed notApplied script⟩
    | token =>
      obtain ⟨later, same, moved⟩ := tenured.granted found earns script
      exact ⟨later, same, Nat.le_succ _, moved⟩
    | other notCall notToken =>
      have notApplied : (Event.ofAnswer thread.place thread.job query reply : Event Duty Outcome).applied? =
          none := by
        cases query with
        | store call => exact absurd rfl (notCall call)
        | _ => rfl
      exact ⟨origin, fun _ => rfl, Nat.le_refl _,
        tenured.unanswered found earns (not_gives_of_other notCall notToken) notApplied script⟩
  | change script found here isOpen =>
    obtain ⟨changes, copied⟩ := isOpen
    have silent : Tenured origin (trace ++ [.inner]) s marks := tenured.silent rfl
    refine ⟨origin, fun _ => rfl, Nat.le_refl _, (silent.setPlace found here changes).goOn _ _
      fun title mem => ?_⟩
    rcases copied title mem with before | ⟨leaseKey, held, inMap, rfl⟩
    · exact silent.backed found before
    · exact silent.held here inMap
  | stay script pending found =>
    exact ⟨origin, fun _ => rfl, Nat.le_refl _, (tenured.silent rfl).stay found _ rfl⟩
  | spawn thread found isOpen =>
    obtain ⟨_, fewer, left⟩ := starts_titling isOpen
    have silent : Tenured origin (trace ++ [.inner]) s marks := tenured.silent rfl
    refine ⟨origin, fun _ => rfl, Nat.le_refl _, (silent.remark found fun title mem => ?_).launch _ _
      fun title mem => ?_⟩
    · exact silent.backed found (left title mem)
    · exact silent.backed found (fewer title mem)
  | follow found isOpen =>
    have silent : Tenured origin (trace ++ [.inner]) s marks := tenured.silent rfl
    refine ⟨origin, fun _ => rfl, Nat.le_refl _, silent.goOn _ _ fun title mem => ?_⟩
    exact silent.backed found ((starts_titling isOpen).2.1 title mem)
  | finish found isOpen => exact ⟨origin, fun _ => rfl, Nat.le_refl _, (tenured.silent rfl).drop _⟩
  | begin known may =>
    exact ⟨origin, fun _ => rfl, Nat.le_refl _, (tenured.silent rfl).launch _ _ fun _ => False.elim⟩
  | @outside answered marks call reply may answers =>
    cases answers with
    | stored call =>
      have more : (s.archive origin trace).Extends
          (FleetState.archive { s with table := (s.table.perform call).2 } origin
            (trace ++ [.outside call (s.table.perform call).1])) (.outside call (s.table.perform call).1) :=
        ⟨fun _ => rfl, Nat.le_refl _, rfl, .of_perform kept rfl⟩
      have moved : Tenured origin (trace ++ [.outside call (s.table.perform call).1])
          { s with table := (s.table.perform call).2 } marks := tenured.advance rfl rfl more
      exact ⟨origin, fun _ => rfl, by simp, moved.keepCopies _ _⟩
    | failed call error =>
      have notApplied : (Event.outside call (call.failed error) : Event Duty Outcome).applied? = none :=
        call.applied?_failed error
      exact ⟨origin, fun _ => rfl, by simp, (tenured.silent notApplied).keepCopies _ _⟩
    | other notCall => exact absurd rfl (notCall _)

theorem of_inner (tenured : Tenured origin (trace ++ [.inner]) s marks) : Tenured origin trace s marks where
  chronicle := tenured.chronicle.of_inner
  keyed := tenured.keyed
  held found inMap := (tenured.held found inMap).of_inner
  backed found _ mem := (tenured.backed found mem).of_inner

/-- After a run without deletions there is still something behind all titles, and the tokens stand for
the same acquisitions. -/
theorem run {last : FleetState} {more : List (Event Duty Outcome)} (tenured : Tenured origin trace s marks)
    (marked : titleDiscipline.Marked s marks) (run : FleetRun s more last)
    (kept : ∀ event ∈ more, ¬event.Deletes) :
    ∃ (later : Token → Lease) (remarked : Nat → Titles),
      (∀ {token}, token.serial < s.tokens → later token = origin token) ∧
        titleDiscipline.Marked last remarked ∧ Tenured later (trace ++ more) last remarked := by
  let holds (more : List (Event Duty Outcome)) (now : FleetState) (remarked : Nat → Titles) : Prop :=
    ∃ later : Token → Lease, (∀ {token}, token.serial < s.tokens → later token = origin token) ∧
      s.tokens ≤ now.tokens ∧ Tenured later (trace ++ more) now remarked
  have ended : ∃ remarked, titleDiscipline.Marked last remarked ∧ holds more last remarked := by
    refine Discipline.Run.keeps_marked holds (fun event => ¬event.Deletes) titleDiscipline_obeyed ?_ ?_ ?_ ?_
      marked ⟨origin, fun _ => rfl, Nat.le_refl _, by simpa using tenured⟩ run kept
    · rintro past now marks event after remarked ⟨between, same, le, tenured⟩ move kept
      obtain ⟨later, still, le', moved⟩ := tenured.move move kept
      refine ⟨later, fun known => ?_, Nat.le_trans le le', by rwa [← List.append_assoc]⟩
      exact (still (Nat.lt_of_lt_of_le known le)).trans (same known)
    · rintro past now marks ⟨between, same, le, tenured⟩
      rw [← List.append_assoc] at tenured
      exact ⟨between, same, le, tenured.of_inner⟩
    · rintro past now marks place worker duty ⟨between, _, _, tenured⟩ found
      exact tenured.keyed found
    · exact fun _ answers => faithful_of_answers answers
  obtain ⟨remarked, markedNow, later, same, _, tenuredNow⟩ := ended
  exact ⟨later, remarked, same, markedNow, tenuredNow⟩

end Tenured

/-! ## Runs -/

section

variable {leases : List Lease} {setups : List WorkerSetup} {s after : FleetState}
  {trace : List (Event Duty Outcome)} {event : Event Duty Outcome} {place leaseKey : String} {token : Token}

theorem tenured_fleetStart (leases : List Lease) (setups : List WorkerSetup) (origin : Token → Lease) :
    Tenured origin [] (fleetStart leases setups) fun _ => titleDiscipline.idle where
  chronicle := .nil _
  keyed found _ _ inMap := by
    obtain ⟨setup, rfl, rfl⟩ := places_fleetStart found
    simp [WorkerSetup.worker, Coordinator.ofSettings] at inMap
  held found inMap := by
    obtain ⟨setup, rfl, rfl⟩ := places_fleetStart found
    simp [WorkerSetup.worker, Coordinator.ofSettings] at inMap
  backed found := by simp [fleetStart] at found

/-- After a run without deletions there is something behind all titles. -/
theorem tenured_of_run (run : FleetRun (fleetStart leases setups) trace s)
    (kept : ∀ event ∈ trace, ¬event.Deletes) :
    ∃ (origin : Token → Lease) (marks : Nat → Titles),
      titleDiscipline.Marked s marks ∧ Tenured origin trace s marks := by
  have start := tenured_fleetStart leases setups fun _ => { leaseKey := "", shardId := "" }
  obtain ⟨origin, marks, _, marked, tenured⟩ :=
    start.run (Discipline.marked_of_no_threads _ rfl) run kept
  exact ⟨origin, marks, marked, tenured⟩

/-- The worker at the place holds the lease under the token. -/
def FleetState.HoldsUnder (s : FleetState) (place leaseKey : String) (token : Token) : Prop :=
  ∃ worker, s.places.get? place = some worker ∧ worker.coordinator.holds leaseKey token = true

theorem Coordinator.holds_of_get? {state : Coordinator} {held : HeldLease}
    (found : state.held.get? leaseKey = some held) : state.holds leaseKey held.token = true := by
  simp [holds, found]

theorem Coordinator.get?_of_holds {state : Coordinator} (holds : state.holds leaseKey token = true) :
    ∃ held, state.held.get? leaseKey = some held ∧ held.token = token := by
  unfold Coordinator.holds at holds
  obtain ⟨held, found, same⟩ := (Option.any_eq_true ..).1 holds
  exact ⟨held, found, of_decide_eq_true same⟩

/-- A lease comes to be held under a token as the version for whose acquisition the token was given. -/
theorem Tenured.begins {origin : Token → Lease} {marks : Nat → Titles} {worker : Worker} {held : HeldLease}
    (tenured : Tenured origin trace s marks) (marked : titleDiscipline.Marked s marks)
    (step : FleetStep s event after) (notYet : ¬FleetState.HoldsUnder s place leaseKey held.token)
    (found : after.places.get? place = some worker)
    (inMap : worker.coordinator.held.get? leaseKey = some held) :
    event = .inner ∧ origin held.token = held.lease ∧
      (s.archive origin trace).Tenure place held.token held.lease := by
  have notHeld {before : Worker} (here : s.places.get? place = some before) :
      before.coordinator.holds leaseKey held.token ≠ true := fun holds => notYet ⟨before, here, holds⟩
  rcases Discipline.Step.place_cases marked (fun _ here => tenured.keyed here) step found with
    same | ⟨rfl, id, thread, before, titles, isThread, rfl, here, changes, _⟩
  · exact absurd (Coordinator.holds_of_get? inMap) (notHeld same)
  · rcases changes.held inMap with already | ⟨_, granted | ⟨_, _, holds⟩⟩
    · exact absurd (Coordinator.holds_of_get? already) (notHeld here)
    · exact ⟨rfl, tenured.backed isThread granted⟩
    · exact absurd holds (notHeld here)

/-- A request to store a checkpoint first looks at what is held, and ends with `false` if that is not
the lease under the token. -/
theorem checkpoint_looks (leaseKey : String) (token : Token) (position : Checkpoint) :
    ∃ next, Duty.behaviour (.request (.checkpoint leaseKey token position)) =
        .step (fun _ => true) id next ∧
      ∀ {worker : Worker}, worker.coordinator.holds leaseKey token = false →
        next worker = .done (.inr (.truth false)) := by
  refine ⟨_, rfl, fun {worker} without => ?_⟩
  simp only [Script.done_bind, id]
  cases found : (Worker.coordinatorPart.get worker).held.get? leaseKey with
  | none => rfl
  | some held =>
    have differs : held.token ≠ token := by
      rintro rfl
      cases (Coordinator.holds_of_get? found).symm.trans without
    simp only [differs, if_false]
    rfl

/-- Before a request to store a checkpoint goes on from its first look, the lease was held under its
token. -/
theorem held_of_request {id : Nat} {thread : Thread Worker Duty Outcome} {position : Checkpoint}
    (run : FleetRun (fleetStart leases setups) trace s) (found : s.threads.get? id = some thread)
    (request : thread.job = .request (.checkpoint leaseKey token position)) :
    thread.script = Duty.behaviour thread.job ∨ thread.script = .done (.inr (.truth false)) ∨
      ∃ early between late, FleetRun (fleetStart leases setups) early between ∧ FleetRun between late s ∧
        trace = early ++ late ∧ FleetState.HoldsUnder between thread.place leaseKey token := by
  induction run generalizing thread with
  | refl => simp [fleetStart] at found
  | @snoc s after trace event before step ih =>
    have goesOn {place : String} : (∃ early between late, FleetRun (fleetStart leases setups) early between ∧
        FleetRun between late s ∧ trace = early ++ late ∧
          FleetState.HoldsUnder between place leaseKey token) →
        ∃ early between late, FleetRun (fleetStart leases setups) early between ∧
          FleetRun between late after ∧ trace ++ [event] = early ++ late ∧
            FleetState.HoldsUnder between place leaseKey token := by
      rintro ⟨early, between, late, upTo, since, rfl, holds⟩
      exact ⟨early, between, late ++ [event], upTo, since.snoc step, by simp, holds⟩
    rcases step.thread_cases found with same | new | ⟨old, there, atPlace, sameJob, acted⟩
    · exact (ih same request).imp_right (Or.imp_right goesOn)
    · exact .inl new
    · obtain ⟨next, looks, refuses⟩ := checkpoint_looks leaseKey token position
      rcases ih there (sameJob.trans request) with begins | refused | seen
      · rw [sameJob, request, looks] at begins
        rcases acted with ⟨permits, change, goes, worker, here, atWorker, isNext⟩ | ⟨notStep, _⟩
        · obtain ⟨_, _, rfl⟩ := Script.step.inj (begins.symm.trans here)
          cases holds : worker.coordinator.holds leaseKey token with
          | true =>
            have looked : FleetState.HoldsUnder s thread.place leaseKey token := ⟨worker, atPlace ▸ atWorker, holds⟩
            exact .inr (.inr (goesOn ⟨trace, s, [], before, .refl _, by simp, looked⟩))
          | false => exact .inr (.inl (isNext.trans (refuses holds)))
        · exact absurd begins (notStep _ _ _)
      · rcases acted with ⟨permits, change, goes, worker, here, _⟩ | ⟨_, notDone⟩
        · cases refused.symm.trans here
        · exact absurd refused (notDone _)
      · exact .inr (.inr (goesOn (atPlace ▸ seen)))

/-- Who makes a call. -/
theorem caller_of_step {duty : Duty} {call : StoreCall} {reply : call.Reply}
    (step : FleetStep s (.called place duty call reply) after) : ∃ id thread next answered,
      s.threads.get? id = some thread ∧ thread.place = place ∧ thread.job = duty ∧
        thread.script = .ask (.store call) next ∧ s.Answers (.store call) reply answered := by
  generalize isEvent : Event.called place duty call reply = event at step
  cases step with
  | @ask answered id thread query next there ready here answers =>
    cases query with
    | store asked =>
      cases isEvent
      exact ⟨id, thread, next, answered, ready.1, rfl, rfl, here, answers⟩
    | _ => cases isEvent
  | _ => cases isEvent

/-- An applied update was made against the counter of the stored version. -/
theorem current_of_answers {call : StoreCall} {reply : call.Reply} {answered : FleetState}
    {applied : AppliedUpdate} (answers : s.Answers (.store call) reply answered)
    (isApplied : call.applied? reply = some applied) :
    call = .update applied.proposal applied.expected ∧
      applied.stored = { applied.proposal with counter := applied.expected + 1 } ∧
        ∃ stored, s.table.get? applied.proposal.leaseKey = some stored ∧ stored.counter = applied.expected := by
  cases answers with
  | failed call error => simp [call.applied?_failed error] at isApplied
  | other notCall => exact absurd rfl (notCall _)
  | stored call =>
    obtain ⟨isUpdate, written, _, current⟩ := LeaseTable.perform_updated isApplied
    exact ⟨isUpdate, written, current⟩

/-- The step by which a worker comes to hold a lease under a token, as the given version. -/
structure Accession (place leaseKey : String) (token : Token) (first : Lease) (before now : FleetState) :
    Prop where
  step : FleetStep before .inner now
  notYet : ¬before.HoldsUnder place leaseKey token
  holds : ∃ worker held, now.places.get? place = some worker ∧
    worker.coordinator.held.get? leaseKey = some held ∧ held.token = token ∧ held.lease = first

/-- Whatever has been held under a token on the way to a state goes back to an accession. -/
theorem exists_accession (run : FleetRun (fleetStart leases setups) trace s)
    (kept : ∀ event ∈ trace, ¬event.Deletes) (holds : FleetState.HoldsUnder s place leaseKey token) :
    ∃ early before now late first, FleetRun (fleetStart leases setups) early before ∧
      Accession place leaseKey token first before now ∧ FleetRun now late s ∧
        trace = early ++ .inner :: late := by
  have notAtFirst : ¬(fleetStart leases setups).HoldsUnder place leaseKey token := by
    rintro ⟨worker, found, holds⟩
    obtain ⟨setup, rfl, rfl⟩ := places_fleetStart found
    simp [WorkerSetup.worker, Coordinator.ofSettings, Coordinator.holds] at holds
  obtain ⟨early, before, event, now, late, upTo, step, since, rfl, notYet, worker, found, holdsNow⟩ :=
    run.begins (FleetState.HoldsUnder · place leaseKey token) notAtFirst holds
  obtain ⟨held, inMap, rfl⟩ := Coordinator.get?_of_holds holdsNow
  obtain ⟨origin, marks, marked, tenured⟩ := tenured_of_run upTo fun event mem => kept event (by simp [mem])
  obtain ⟨rfl, _, _⟩ := tenured.begins marked step notYet found inMap
  exact ⟨early, before, now, late, held.lease, upTo, ⟨step, notYet, worker, held, found, inMap, rfl, rfl⟩,
    since, rfl⟩

/-- What a worker comes to hold names it as the owner. -/
theorem Accession.belongs {before now : FleetState} {first : Lease}
    (accession : Accession place leaseKey token first before now)
    (upTo : FleetRun (fleetStart leases setups) trace before) (kept : ∀ event ∈ trace, ¬event.Deletes) :
    first.Belongs place leaseKey := by
  obtain ⟨worker, held, found, inMap, _, rfl⟩ := accession.holds
  have keptNow : ∀ event ∈ trace ++ [.inner], ¬event.Deletes := by
    intro event mem
    rcases List.mem_append.1 mem with earlier | last
    · exact kept event earlier
    · obtain rfl := List.mem_singleton.1 last
      exact id
  obtain ⟨_, _, _, fenced⟩ := fenced_of_run (upTo.snoc accession.step) keptNow
  exact (fenced.holds found).held inMap

/-- What is written under a token while the version that it was made from is the stored one: the lease
has been written under the token only since the acquisition for which the token was given. -/
theorem Accession.undisturbed {early late : List (Event Duty Outcome)} {before now : FleetState}
    {first : Lease} (accession : Accession place leaseKey token first before now)
    (upTo : FleetRun (fleetStart leases setups) early before) (since : FleetRun now late s)
    (kept : ∀ event ∈ early ++ .inner :: late, ¬event.Deletes) {id : Nat}
    {thread : Thread Worker Duty Outcome} (found : s.threads.get? id = some thread)
    (atPlace : thread.place = place) (office : thread.job.office = .tends leaseKey token)
    {proposal : Lease} {expected : Nat}
    {next : (StoreCall.update proposal expected).Reply → Script Worker Duty (Duty ⊕ Outcome)}
    (here : thread.script = .ask (.store (.update proposal expected)) next) :
    proposal.leaseKey = leaseKey ∧ ∃ earlier acquisition rest, early = earlier ++ acquisition :: rest ∧
      acquisition.Acquires place first ∧
      ∀ {stored}, s.table.get? leaseKey = some stored → stored.counter = expected →
        ∀ other ∈ rest ++ .inner :: late, ∀ {write}, other.applied? = some write →
          write.stored.leaseKey = leaseKey → other.IsUnder place leaseKey token := by
  subst atPlace
  obtain ⟨origin, marks, marked, tenured⟩ := tenured_of_run upTo fun event mem => kept event (by simp [mem])
  obtain ⟨worker, held, inPlace, inMap, rfl, rfl⟩ := accession.holds
  obtain ⟨_, isOrigin, tenure⟩ := tenured.begins marked accession.step accession.notYet inPlace inMap
  have goesOn : FleetRun before (.inner :: late) s :=
    ((Interleaving.Run.refl before).snoc accession.step).trans since
  obtain ⟨later, remarked, same, markedNow, tenuredNow⟩ := tenured.run marked goesOn
    fun event mem => kept event (List.mem_append_right _ mem)
  -- the thread goes by a copy of the token, which goes back to the same acquisition
  have keeps := markedNow.keeps found
  rw [Discipline.Keeps, here] at keeps
  obtain ⟨_, ⟨entitled, _⟩, _⟩ := keeps (.ok .notFound) trivial
  obtain ⟨isKey, base, copy, baseKey, isBase⟩ := entitled leaseKey held.token office
  subst baseKey isBase
  have tenureNow : (s.archive later (early ++ .inner :: late)).Tenure thread.place held.token base :=
    tenuredNow.backed found copy
  have sameOrigin : later held.token = held.lease := (same tenure.known).trans isOrigin
  obtain ⟨acquisition, mem, acquires⟩ := tenure.acquired
  rw [show (before.archive origin early).origin held.token = held.lease from isOrigin] at acquires
  obtain ⟨earlier, rest, rfl⟩ := List.append_of_mem mem
  refine ⟨isKey, earlier, acquisition, rest, rfl, acquires, fun {stored} stays current other memRest {write}
    isApplied sameKey => ?_⟩
  have split : earlier ++ acquisition :: rest ++ .inner :: late =
      earlier ++ acquisition :: (rest ++ .inner :: late) := by simp
  exact tenureNow.undisturbed tenuredNow.chronicle split (by rw [← sameOrigin] at acquires; exact acquires)
    stays current memRest isApplied sameKey

/-- A checkpoint that is stored under a token is stored before anybody else has written the lease since
the acquisition for which the token was given: all writes of the lease since then were writes of the
same worker under the same token. A request whose token is not the one under which the lease is held
ends with `false` and without any call. Whatever a duty does that writes a lease under a token, it
leaves alone what is held under another one. -/
theorem checkpoints_fenced_by_token (run : FleetRun (fleetStart leases setups) trace s)
    (kept : ∀ event ∈ trace, ¬event.Deletes) :
    (∀ {after place leaseKey token position call reply applied},
      FleetStep s (.called place (.request (.checkpoint leaseKey token position)) call reply) after →
      call.applied? reply = some applied → applied.stored.leaseKey = leaseKey ∧
        ∃ earlier acquisition rest before now late first,
          FleetRun (fleetStart leases setups) (earlier ++ acquisition :: rest) before ∧
          acquisition.Acquires place first ∧ first.Belongs place leaseKey ∧
          Accession place leaseKey token first before now ∧ FleetRun now late s ∧
          trace = (earlier ++ acquisition :: rest) ++ .inner :: late ∧
          ∀ other ∈ rest ++ .inner :: late, ∀ {write}, other.applied? = some write →
            write.stored.leaseKey = leaseKey → other.IsUnder place leaseKey token) ∧
    (∀ leaseKey token position, ∃ next, Duty.behaviour (.request (.checkpoint leaseKey token position)) =
        .step (fun _ => true) id next ∧
      ∀ {worker : Worker}, worker.coordinator.holds leaseKey token = false →
        next worker = .done (.inr (.truth false))) ∧
    ∀ {id thread permits change next worker leaseKey token other held},
      s.threads.get? id = some thread → thread.script = .step permits change next →
      thread.job.office = .tends leaseKey token →
      s.places.get? thread.place = some worker → permits worker = true →
      worker.coordinator.held.get? other = some held → other ≠ leaseKey ∨ held.token ≠ token →
        (change worker).coordinator.held.get? other = some held := by
  refine ⟨fun {after place leaseKey token position call reply applied} step isApplied => ?_,
    checkpoint_looks, fun {id thread permits change next worker leaseKey token other held} found here office
      atPlace permitted inMap differs => ?_⟩
  · obtain ⟨id, thread, next, answered, found, atPlace, isJob, here, answers⟩ := caller_of_step step
    -- the thread is past its first look, at which the lease was held under the token
    rcases held_of_request run found isJob with
      begins | refused | ⟨early, between, late, upTo, since, rfl, holds⟩
    · rw [isJob, here] at begins
      cases begins
    · rw [here] at refused
      cases refused
    · obtain ⟨sooner, before, now, more, first, toIt, accession, fromIt, rfl⟩ := exists_accession upTo
        (fun event mem => kept event (by simp [mem])) holds
      rw [atPlace] at accession
      obtain ⟨rfl, written, stored, inTable, current⟩ := current_of_answers answers isApplied
      have office : thread.job.office = .tends leaseKey token := by
        rw [isJob]
        rfl
      have path : sooner ++ .inner :: more ++ late = sooner ++ .inner :: (more ++ late) := by simp
      rw [path] at kept ⊢
      have belongs := accession.belongs toIt fun event mem => kept event (List.mem_append_left _ mem)
      obtain ⟨isKey, earlier, acquisition, rest, rfl, acquires, undisturbed⟩ :=
        accession.undisturbed toIt (fromIt.trans since) kept found atPlace office here
      rw [isKey] at inTable
      exact ⟨by rw [written]; exact isKey, earlier, acquisition, rest, before, now, more ++ late, first, toIt,
        acquires, belongs, accession, fromIt.trans since, rfl, undisturbed inTable current⟩
  · obtain ⟨origin, marks, marked, tenured⟩ := tenured_of_run run kept
    have keeps := marked.keeps found
    rw [Discipline.Keeps, here] at keeps
    obtain ⟨_, ⟨changes, _⟩, _⟩ := keeps worker (tenured.keyed atPlace) permitted
    rcases changes.spares office inMap with ⟨rfl, rfl⟩ | stays
    · exact absurd rfl (differs.resolve_left fun ne => ne rfl)
    · exact stays

end

/-! ### After a second adoption -/

/-- The checkpoint that a request has stored: where, of which lease, under which token, and as what. -/
def Event.checkpointed? : Event Duty Outcome → Option (String × String × Token × Lease)
  | called place (.request (.checkpoint leaseKey token _)) call reply =>
    (call.applied? reply).map fun applied => (place, leaseKey, token, applied.stored)
  | _ => none

theorem Event.of_checkpointed? {event : Event Duty Outcome} {place leaseKey : String} {token : Token}
    {stored : Lease} (shown : event.checkpointed? = some (place, leaseKey, token, stored)) :
    ∃ position call reply applied, event = .called place (.request (.checkpoint leaseKey token position)) call
      reply ∧ call.applied? reply = some applied ∧ applied.stored = stored := by
  unfold checkpointed? at shown
  split at shown
  · obtain ⟨applied, isApplied, same⟩ := Option.map_eq_some_iff.1 shown
    cases same
    exact ⟨_, _, _, applied, rfl, isApplied, rfl⟩
  · cases shown

/-- The first worker adopts its lease twice, renews it, and is about to store a checkpoint under its
second token. -/
def readopting : List (Event Duty Outcome) × FleetState :=
  pairPlays (List.flatten [
    [.begin "w1" (.request .adopt)], Interleaving.acts 0 40,
    [.begin "w1" (.request .adopt)], Interleaving.acts 1 40,
    [.begin "w1" (.request .renew)], Interleaving.acts 2 10, Interleaving.acts 3 40,
    [.begin "w1" (.request (.checkpoint "a" ⟨1⟩ (.sequence "7")))], Interleaving.acts 4 2])

/-- The checkpoint is stored, and since the second adoption the lease has been written under the second
token only. -/
theorem checkpoints_fenced_by_token_after_readopting : ∃ position call reply applied after earlier
    acquisition rest before now late first,
    FleetStep readopting.2 (.called "w1" (.request (.checkpoint "a" ⟨1⟩ position)) call reply) after ∧
    call.applied? reply = some applied ∧ applied.stored.counter = 4 ∧
    acquisition.Acquires "w1" first ∧ Accession "w1" "a" ⟨1⟩ first before now ∧
    readopting.1 = (earlier ++ acquisition :: rest) ++ .inner :: late ∧
    ∀ other ∈ rest ++ .inner :: late, ∀ {write}, other.applied? = some write →
      write.stored.leaseKey = "a" → other.IsUnder "w1" "a" ⟨1⟩ := by
  have run : FleetRun pairStart readopting.1 readopting.2 := pairPlays_run _
  have kept : ∀ event ∈ readopting.1, ¬event.Deletes := by decide +kernel
  have acts : (readopting.2.choose? Duty.behaviour (fun duty => duty.background? = none) (.act 4)).bind
      (·.1.checkpointed?) = some ("w1", "a", ⟨1⟩,
        { leaseKey := "a", shardId := "a", owner := some "w1", counter := 4, checkpoint := .sequence "7" }) := by
    decide +kernel
  obtain ⟨⟨event, after⟩, chosen, shown⟩ := Option.bind_eq_some_iff.1 acts
  obtain ⟨position, call, reply, applied, rfl, isApplied, stored⟩ := Event.of_checkpointed? shown
  have step := Interleaving.step_of_choose? chosen
  obtain ⟨fenced, _⟩ := checkpoints_fenced_by_token run kept
  obtain ⟨_, earlier, acquisition, rest, before, now, late, first, _, acquires, _, accession, _, split, own⟩ :=
    fenced step isApplied
  exact ⟨position, call, reply, applied, after, earlier, acquisition, rest, before, now, late, first, step,
    isApplied, by rw [stored], acquires, accession, split, own⟩

end LeaseFleet
