import LeaseFleet.Proofs.Fleet.RemainingLoops
import LeaseFleet.Proofs.Fleet.StopSignals
import LeaseFleet.Proofs.Fleet.AdoptionAndStop

/-!
# How a worker is shut down

A call to shut a worker down comes down a stair (`Descent`): the worker is told to stop, then its
coordinator; the loops end; the coordinator ceases to hold anything; what it held is given back by threads
of their own; the worker is shut down. Of each stage it is said what is left of the call, what holds of the
worker (`Descent.Holds`), and what has been offered back (`Descent.Told`). As long as the other threads at
the place are calm, whatever they do, and whatever happens elsewhere, leaves the call where it is.
-/

namespace LeaseFleet

/-! ## Asking all consumers -/

namespace Crew

variable {number other : Nat}

/-- Whoever was asked before keeps the reason. -/
theorem reasonOf_askOnce {crew : Crew} {reason : ShutdownReason} (known : number < crew.members.length) :
    (crew.askOnce number reason).reasonOf other =
      if other = number then some ((crew.reasonOf other).getD reason) else crew.reasonOf other := by
  obtain ⟨consumer, found⟩ := Option.isSome_iff_exists.1 (member?_isSome.2 known)
  unfold askOnce
  split
  · rename_i asked
    split
    · rename_i same
      subst same
      rw [isAsked, found, Option.any_some] at asked
      obtain ⟨earlier, isReason⟩ := Option.isSome_iff_exists.1 asked
      rw [reasonOf, found, Option.bind_some, isReason, Option.getD_some]
    · rfl
  · rename_i notAsked
    unfold reasonOf
    rw [member?_ask]
    split
    · rename_i same
      subst same
      rw [isAsked, found, Option.any_some, Consumer.isAsked, Bool.not_eq_true, Option.isSome_eq_false_iff,
        Option.isNone_iff_eq_none] at notAsked
      simp [found, Consumer.ask, notAsked]
    · rfl

/-- All of some consumers are asked. -/
theorem reasonOf_askAll (crew : Crew) (reason : ShutdownReason) (numbers : List Nat)
    (known : ∀ number ∈ numbers, number < crew.members.length) (other : Nat) :
    (numbers.foldl (fun crew number => crew.askOnce number reason) crew).reasonOf other =
      if other ∈ numbers then some ((crew.reasonOf other).getD reason) else crew.reasonOf other := by
  induction numbers generalizing crew with
  | nil => rfl
  | cons number rest ih =>
    obtain ⟨first, others⟩ := List.forall_mem_cons.1 known
    rw [List.foldl_cons, ih _ (by simpa using others), reasonOf_askOnce first]
    by_cases same : other = number
    · simp [same]
    · simp [same]

end Crew

/-- Whoever begins to shut a worker down asks each of its consumers to stop. -/
theorem Worker.reasonOf_beginShutdown {worker : Worker} (staffed : worker.Staffed)
    (first : worker.stopping = false) {key : ShardKey} {number : Nat}
    (found : worker.consumers.get? key = some number) :
    worker.beginShutdown.crew.reasonOf number = some ((worker.crew.reasonOf number).getD .requested) := by
  unfold beginShutdown
  rw [if_neg (by simp [first])]
  have values (number : Nat) :
      number ∈ worker.consumers.values ↔ ∃ key, worker.consumers.get? key = some number :=
    SortedMap.mem_values
  have known : ∀ number ∈ worker.consumers.values, number < worker.crew.members.length := fun number mem => by
    obtain ⟨key, found⟩ := (values number).1 mem
    exact staffed.known found
  have asked := worker.crew.reasonOf_askAll .requested worker.consumers.values known number
  rw [if_pos ((values number).2 ⟨key, found⟩)] at asked
  simpa [askAll] using asked

theorem Worker.consumers_beginShutdown (worker : Worker) : worker.beginShutdown.consumers = worker.consumers := by
  unfold beginShutdown
  split
  · rfl
  · simp

/-! ## The stages of a call -/

/-- How far a call to shut a worker down has come. -/
inductive Descent where
  /-- The worker was told to stop. -/
  | begun
  /-- The coordinator was told to stop. -/
  | waiting
  /-- The loops have ended. -/
  | clearing
  /-- Nothing is held any more; these leases are to be given back. -/
  | giving (held : List HeldLease)
  /-- Releases have been started, and these have not been issued yet. -/
  | given (left : List (Nat × HeldLease))
  /-- All releases have ended. -/
  | sampling
  | ending
  /-- The worker is shut down. -/
  | ended
  | returned

namespace Descent

/-- The scripts of the stages, each of which leads to the next. -/
abbrev Rest := Script Worker Duty (Duty ⊕ Outcome)

def ends : Rest := .step (fun _ => true) (·.enter .shutDown) fun _ => .done (.inr .nothing)

def samples : Rest := .step (fun worker => worker.samplerLoops = 0) id fun _ => ends

def records : Rest := .ask (.record (.level .leasesHeld (floatOfNat 0))) fun _ => samples

def gives (held : List HeldLease) : Rest :=
  .gather (held.map fun one => .background (.coordinator (.release one))) records

def clears : Rest :=
  .step (fun _ => true) (fun worker => { worker with coordinator := worker.coordinator.dropAll })
    fun found => gives found.coordinator.held.values

def waits : Rest := .step (fun worker => worker.coordinator.running = 0) id fun _ => clears

/-- The script that is left to the call, unless it has returned. It depends on what the worker was like before. -/
def IsScript : Descent → Rest → Prop
  | begun, script => ∃ next, script = .step (fun _ => true)
      (fun worker => { worker with coordinator := { worker.coordinator with stopping := true } }) next ∧
      ∀ found : Worker, found.coordinator.stopping = false → next found = waits
  | waiting, script => script = waits
  | clearing, script => script = clears
  | giving held, script => script = gives held
  | given _, script => script = records
  | sampling, script => script = samples
  | ending, script => script = ends
  | ended, script => script = .done (.inr .nothing)
  | returned, _ => False

def rank : Descent → Nat
  | begun => 0
  | waiting => 1
  | clearing => 2
  | giving _ => 3
  | given _ => 4
  | sampling => 5
  | ending => 6
  | ended => 7
  | returned => 8

/-- The releases that have not been issued yet. -/
def left : Descent → List (Nat × HeldLease)
  | given left => left
  | _ => []

/-- The leases that have not been offered back yet. -/
def owing : Descent → List Lease
  | giving held => held.map HeldLease.lease
  | given left => (left.map Prod.snd).map HeldLease.lease
  | _ => []

theorem waits_eq : Duty.script (do
    let _ ← Worker.keeping (do
      let _ ← .step (fun state : Coordinator => state.running = 0) id .done
      Coordinator.releaseAll)
    let _ ← .step (fun worker : Worker => worker.samplerLoops = 0) id .done
    Script.change (·.enter .shutDown)) >>= (fun _ => pure (.inr .nothing)) = waits := by
  refine congrArg (Script.step _ _) (funext fun _ => congrArg (Script.step _ _) (funext fun found => ?_))
  simp only [gives, Script.bind_eq_bind, Script.embed, Script.bind, List.map_map]
  rfl

/-- A call that comes first has the worker told to stop, and then its coordinator. -/
theorem behaviour_eq : ∃ next,
    Duty.behaviour (.request .shutdown) = .step (fun _ => true) Worker.beginShutdown next ∧
    ∀ found : Worker, found.stopping = false → IsScript begun (next found) := by
  refine ⟨_, rfl, fun found first => ?_⟩
  simp only [Script.done_bind, id_eq, first, Bool.false_eq_true, if_false]
  refine ⟨_, rfl, fun again goesOn => ?_⟩
  simp only [Script.done_bind, Worker.coordinatorPart, id_eq, goesOn, Bool.false_eq_true, if_false]
  exact waits_eq

/-- What holds of a worker at a stage, which was like this before. -/
structure Holds (stage : Descent) (before now : Worker) : Prop where
  consumers : now.consumers = before.consumers
  reasons : ∀ {key number}, before.consumers.get? key = some number →
    now.crew.reasonOf number = some ((before.crew.reasonOf number).getD .requested)
  stopping : now.stopping = true
  coordinator : now.coordinator.stopping = decide (1 ≤ stage.rank)
  idle : 2 ≤ stage.rank → now.coordinator.running = 0
  empty : 3 ≤ stage.rank → now.coordinator.held = .empty
  phase : 7 ≤ stage.rank → now.phase = .shutDown

variable {stage next : Descent} {before found now : Worker}

theorem Holds.calm {duty : Duty} {left rest owed : Nat} (holds : stage.Holds before found)
    (calm : duty.isCalm = true) (rests : found.Rests now)
    (turns : Coordinator.Turns duty left found.coordinator now.coordinator rest)
    (balances : found.coordinator.Balances owed) (within : left ≤ owed) : stage.Holds before now := by
  -- once no loop is running, none is left to anybody, and none is started: so nobody takes leases up
  have nothingLeft (late : 2 ≤ stage.rank) : left = 0 := by
    have fits := balances.owed
    rw [holds.idle late] at fits
    omega
  have cannotStart (late : 2 ≤ stage.rank) : found.coordinator.canStart = false := by
    have stopping := holds.coordinator
    rw [decide_eq_true (show 1 ≤ stage.rank by omega)] at stopping
    simp [Coordinator.canStart, stopping]
  refine ⟨rests.consumers.trans holds.consumers, fun isTheirs => (rests.reasons _).trans (holds.reasons isTheirs),
    rests.stopping.trans holds.stopping, ?_, fun late => ?_, fun late => ?_, fun late => ?_⟩
  · refine Eq.trans ?_ holds.coordinator
    generalize now.coordinator = left at turns
    cases turns with
    | stay same => exact same.stopping
    | start => exact Coordinator.stopping_markStarted
    | stop may => exact absurd may (by simp [Duty.mayStop_of_calm calm])
    | finish => rfl
  · have none := nothingLeft late
    generalize now.coordinator = left at turns
    cases turns with
    | stay same => exact same.running.trans (holds.idle late)
    | start can => exact absurd can (by simp [cannotStart late])
    | stop => exact holds.idle late
    | finish => cases none
  · have none := nothingLeft (Nat.le_of_succ_le late)
    have cannot := cannotStart (Nat.le_of_succ_le late)
    generalize now.coordinator = left at turns
    cases turns with
    | stay _ held =>
      refine (held.resolve_left fun gains => ?_) (holds.empty late)
      have some := Duty.pos_of_gain calm gains
      omega
    | start can => exact absurd can (by simp [cannot])
    | stop => exact holds.empty late
    | finish => cases none
  · exact WorkerPhase.eq_shutDown (holds.phase late ▸ rests.phase)

theorem holds_begun (staffed : before.Staffed) (first : before.stopping = false)
    (goesOn : before.coordinator.stopping = false) : begun.Holds before before.beginShutdown where
  consumers := before.consumers_beginShutdown
  reasons isTheirs := Worker.reasonOf_beginShutdown staffed first isTheirs
  stopping := before.stopping_beginShutdown
  coordinator := by rw [before.beginShutdown_coordinator]; exact goesOn
  idle late := absurd late (by decide)
  empty late := absurd late (by decide)
  phase late := absurd late (by decide)

theorem Holds.stops (holds : begun.Holds before found) :
    waiting.Holds before { found with coordinator := { found.coordinator with stopping := true } } where
  consumers := holds.consumers
  reasons isTheirs := holds.reasons isTheirs
  stopping := holds.stopping
  coordinator := rfl
  idle late := absurd late (by decide)
  empty late := absurd late (by decide)
  phase late := absurd late (by decide)

theorem Holds.waits (holds : waiting.Holds before found) (idle : found.coordinator.running = 0) :
    clearing.Holds before found where
  consumers := holds.consumers
  reasons isTheirs := holds.reasons isTheirs
  stopping := holds.stopping
  coordinator := holds.coordinator
  idle _ := idle
  empty late := absurd late (by decide)
  phase late := absurd late (by decide)

theorem Holds.clears (holds : clearing.Holds before found) (held : List HeldLease) :
    (giving held).Holds before { found with coordinator := found.coordinator.dropAll } where
  consumers := holds.consumers
  reasons isTheirs := holds.reasons isTheirs
  stopping := holds.stopping
  coordinator := holds.coordinator
  idle _ := holds.idle (Nat.le_refl _)
  empty _ := rfl
  phase late := absurd late (show ¬7 ≤ 3 by decide)

/-- Once nothing is held, only the phase is still to change. -/
theorem Holds.onward (holds : stage.Holds before now) (cleared : 3 ≤ stage.rank) (later : 3 ≤ next.rank)
    (phase : 7 ≤ next.rank → now.phase = .shutDown) : next.Holds before now where
  consumers := holds.consumers
  reasons isTheirs := holds.reasons isTheirs
  stopping := holds.stopping
  coordinator := by rw [holds.coordinator, decide_eq_true (by omega), decide_eq_true (by omega)]
  idle _ := holds.idle (by omega)
  empty _ := holds.empty cleared
  phase := phase

theorem Holds.enters (holds : ending.Holds before found) : ended.Holds before (found.enter .shutDown) := by
  have rests := found.rests_enter .shutDown
  have here : ending.Holds before (found.enter .shutDown) :=
    { consumers := rests.consumers.trans holds.consumers
      reasons := fun isTheirs => (rests.reasons _).trans (holds.reasons isTheirs)
      stopping := rests.stopping.trans holds.stopping
      coordinator := by rw [found.enter_coordinator]; exact holds.coordinator
      idle := fun late => by rw [found.enter_coordinator]; exact holds.idle late
      empty := fun late => by rw [found.enter_coordinator]; exact holds.empty late
      phase := fun late => absurd late (by decide) }
  exact here.onward (by decide) (by decide) fun _ => WorkerPhase.eq_shutDown (found.rank_le_enter .shutDown)

end Descent

/-! ## What is given back -/

/-- What has been offered back at a place. -/
abbrev offers (place : String) (trace : List (Event Duty Outcome)) : List Lease :=
  trace.filterMap (·.offered? place)

/-- At some step the worker at a place has ceased to hold anything. Nothing was offered back before it, and
since then what it held has been, but for some leases. -/
def HasReleased (place : String) (called : FleetState) (trace : List (Event Duty Outcome)) (s : FleetState)
    (owing : List Lease) : Prop :=
  ∃ early ready cleared late worker, trace = early ++ .inner :: late ∧ FleetRun called early ready ∧
    FleetStep ready .inner cleared ∧ FleetRun cleared late s ∧ ready.places.get? place = some worker ∧
    cleared.places.get? place = some { worker with coordinator := worker.coordinator.dropAll } ∧
    offers place early = [] ∧ (offers place late ++ owing).Perm worker.coordinator.heldLeases

section

variable {place : String} {called s after : FleetState} {trace : List (Event Duty Outcome)}
  {event : Event Duty Outcome} {owing : List Lease}

theorem HasReleased.goesOn (released : HasReleased place called trace s owing) (step : FleetStep s event after)
    (silent : event.offered? place = none) : HasReleased place called (trace ++ [event]) after owing := by
  obtain ⟨early, ready, cleared, late, worker, rfl, upTo, clears, since, held, empty, none, rest⟩ := released
  refine ⟨early, ready, cleared, late ++ [event], worker, by simp, upTo, clears, since.snoc step, held, empty,
    none, ?_⟩
  rwa [offers, filterMap_snoc, silent, Option.toList_none, List.append_nil]

theorem HasReleased.offers {lease : Lease} {others : List Lease}
    (released : HasReleased place called trace s owing) (step : FleetStep s event after)
    (shown : event.offered? place = some lease) (one : owing.Perm (lease :: others)) :
    HasReleased place called (trace ++ [event]) after others := by
  obtain ⟨early, ready, cleared, late, worker, rfl, upTo, clears, since, held, empty, none, rest⟩ := released
  refine ⟨early, ready, cleared, late ++ [event], worker, by simp, upTo, clears, since.snoc step, held, empty,
    none, ?_⟩
  rw [LeaseFleet.offers, filterMap_snoc, shown, Option.toList_some, List.append_assoc, List.singleton_append]
  exact (one.symm.append_left _).trans rest

end

/-- What was offered back at a stage. -/
def Descent.Told (place : String) (called : FleetState) (trace : List (Event Duty Outcome)) (s : FleetState)
    (stage : Descent) : Prop :=
  if stage.rank < 3 then offers place trace = [] else HasReleased place called trace s stage.owing

/-- What was offered back stays so at the next stage, if nothing is offered and nothing more is owed. -/
theorem Descent.Told.goesOn {place : String} {called s after : FleetState} {trace : List (Event Duty Outcome)}
    {event : Event Duty Outcome} {stage next : Descent} (told : stage.Told place called trace s)
    (step : FleetStep s event after) (silent : event.offered? place = none)
    (same : stage.rank < 3 ↔ next.rank < 3) (owing : next.owing = stage.owing) :
    next.Told place called (trace ++ [event]) after := by
  unfold Told at told ⊢
  simp only [← same, owing]
  split
  · rename_i early
    rw [if_pos early] at told
    rw [offers, filterMap_snoc, silent, Option.toList_none, List.append_nil]
    exact told
  · rename_i late
    rw [if_neg late] at told
    exact HasReleased.goesOn told step silent

/-- A new thread that gives one lease back. -/
def releasing (place : String) (held : HeldLease) : Thread Worker Duty Outcome where
  place := place
  job := .background (.coordinator (.release held))
  script := Duty.behaviour (.background (.coordinator (.release held)))

theorem releasing_script (place : String) (held : HeldLease) : (releasing place held).script =
    .ask (.store (.update (Coordinator.released held.lease) held.lease.counter)) fun _ => .done (.inr .nothing) :=
  rfl

/-- The thread of a call to shut the worker at a place down. -/
abbrev calling (place : String) (script : Descent.Rest) (pending : List Nat) : Thread Worker Duty Outcome where
  place := place
  job := .request .shutdown
  script := script
  pending := pending

/-- A thread that has come too late, and either has still to find so or has only to end. -/
structure IsLate (thread : Thread Worker Duty Outcome) : Prop where
  job : thread.job.isLate = true
  script : thread.script = Duty.behaviour thread.job ∨ ∃ outcome, thread.script = .done (.inr outcome)

/-- A call to shut down the worker at a place has come to a stage. But for the call itself, and for the
releases that it has started, the threads at the place are calm or have come too late. -/
structure Descends (place : String) (before : Worker) (called : FleetState) (caller : Nat)
    (trace : List (Event Duty Outcome)) (s : FleetState) (stage : Descent) (pending : List Nat) : Prop where
  run : FleetRun called trace s
  balanced : ∃ left, Balanced s left
  old : caller < s.started
  thread : stage = .returned ∧ s.threads.get? caller = none ∨ ∃ script, stage.IsScript script ∧
    s.threads.get? caller = some (calling place script pending)
  worker : ∃ now, s.places.get? place = some now ∧ stage.Holds before now
  others : ∀ {id thread}, s.threads.get? id = some thread → thread.place = place → id ≠ caller →
    thread.job.isCalm = true ∨ IsLate thread ∨ stage.rank = 4 ∧ id ∈ pending ∧
      (thread.script = .done (.inr .nothing) ∨ ∃ held, (id, held) ∈ stage.left ∧ thread = releasing place held)
  left : ∀ pair ∈ stage.left, s.threads.get? pair.1 = some (releasing place pair.2) ∧ pair.1 ∈ pending
  distinct : (stage.left.map Prod.fst).Nodup
  told : stage.Told place called trace s

namespace Descends

variable {place : String} {before : Worker} {called s after : FleetState} {caller id : Nat}
  {trace : List (Event Duty Outcome)} {event : Event Duty Outcome} {stage next : Descent} {pending : List Nat}
  {thread : Thread Worker Duty Outcome}

/-- Another thread has done something: the call stays where it is. -/
theorem frame (descends : Descends place before called caller trace s stage pending)
    (step : FleetStep s event after) (balanced : ∃ left, Balanced after left)
    (thread : after.threads.get? caller = s.threads.get? caller)
    (worker : ∃ now, after.places.get? place = some now ∧ stage.Holds before now)
    (news : ∀ {id thread}, after.threads.get? id = some thread → thread.place = place →
      s.threads.get? id = some thread ∨ thread.job.isCalm = true ∨ IsLate thread)
    (left : ∀ pair ∈ stage.left, after.threads.get? pair.1 = s.threads.get? pair.1)
    (silent : event.offered? place = none) :
    Descends place before called caller (trace ++ [event]) after stage pending where
  run := descends.run.snoc step
  balanced := balanced
  old := Nat.lt_of_lt_of_le descends.old step.started_le
  thread := by rw [thread]; exact descends.thread
  worker := worker
  others here atPlace isOther :=
    (news here atPlace).elim (fun earlier => descends.others earlier atPlace isOther) (Or.imp_right .inl)
  left pair mem := by rw [left pair mem]; exact descends.left pair mem
  distinct := descends.distinct
  told := descends.told.goesOn step silent Iff.rfl rfl

/-- Somebody begins something. -/
theorem begin (descends : Descends place before called caller trace s stage pending) {there : String} {duty : Duty}
    (step : FleetStep s (.begun there duty) (s.launch Duty.behaviour there duty)) (asked : duty.background? = none)
    (gently : there = place → duty.isCalm = true ∨ duty.isLate = true) :
    Descends place before called caller (trace ++ [.begun there duty]) (s.launch Duty.behaviour there duty) stage
      pending := by
  obtain ⟨left, balanced⟩ := descends.balanced
  refine descends.frame step ⟨_, balanced.launch there asked⟩ (Interleaving.get?_launch descends.old)
    descends.worker (fun here atPlace => ?_) (fun pair mem => ?_) rfl
  · rcases SortedMap.get?_insert_eq_some_iff.1 here with ⟨_, rfl⟩ | ⟨_, earlier⟩
    · exact .inr ((gently atPlace).imp_right fun late => ⟨late, .inl rfl⟩)
    · exact .inl earlier
  · exact Interleaving.get?_launch (balanced.fresh (descends.left pair mem).1)

/-- Somebody else calls the lease store. -/
theorem outside (descends : Descends place before called caller trace s stage pending) {call : StoreCall}
    {reply : call.Reply} {answered : FleetState}
    (step : FleetStep s (.outside call reply) (answered.keepCopies call reply))
    (answers : s.Answers (.store call) reply answered) :
    Descends place before called caller (trace ++ [.outside call reply]) (answered.keepCopies call reply) stage
      pending := by
  obtain ⟨left, balanced⟩ := descends.balanced
  have threads : (answered.keepCopies call reply).threads = s.threads := by
    rw [Interleaving.keepCopies_threads, answers.threads]
  have places : (answered.keepCopies call reply).places = s.places := by
    rw [Interleaving.keepCopies_places, answers.places]
  refine descends.frame step ⟨_, balanced.outside answers⟩ (by rw [threads]) ?_
    (fun here _ => .inl (threads ▸ here)) (fun _ _ => by rw [threads]) rfl
  rw [places]
  exact descends.worker

section

variable (descends : Descends place before called caller trace s stage pending) (ready : s.Ready id thread)
  (acts : Interleaving.Acts Duty.behaviour s id thread event after)

include descends ready acts

/-- A thread acts that is neither the call nor a release that has not been issued yet. -/
theorem aside (isOther : id ≠ caller) (noRelease : ∀ held, thread ≠ releasing place held)
    (worker : ∃ now, after.places.get? place = some now ∧ stage.Holds before now)
    (news : ∀ {other there}, after.threads.get? other = some there → there.place = place →
      s.threads.get? other = some there ∨ there.job.isCalm = true ∨ IsLate there)
    (silent : event.offered? place = none) :
    Descends place before called caller (trace ++ [event]) after stage pending := by
  obtain ⟨left, balanced⟩ := descends.balanced
  obtain ⟨_, _, balancedNow⟩ := balanced.act ready.1 acts
  refine descends.frame (acts.step ready) ⟨_, balancedNow⟩ (acts.get?_of_ne isOther.symm descends.old) worker news
    (fun pair mem => ?_) silent
  have found := (descends.left pair mem).1
  refine acts.get?_of_ne ?_ (balanced.fresh found)
  rintro rfl
  exact noRelease _ (Option.some.inj (ready.1.symm.trans found))

/-- A thread elsewhere acts. -/
theorem elsewhere (isOther : id ≠ caller) (away : thread.place ≠ place) :
    Descends place before called caller (trace ++ [event]) after stage pending := by
  obtain ⟨left, balanced⟩ := descends.balanced
  obtain ⟨remaining, moves, _⟩ := balanced.act ready.1 acts
  refine descends.aside ready acts isOther ?_ ?_ (fun here atPlace => ?_) ?_
  · rintro held rfl
    exact away rfl
  · rw [(moves.elsewhere (Ne.symm away)).1]
    exact descends.worker
  · rcases moves.threads here with earlier | ⟨same, _⟩
    · exact .inl earlier
    · exact absurd (same.symm.trans atPlace) away
  · refine (Event.quiet_of_no_call fun duty call reply same => ?_).2
    exact away (moves.calls same).1.symm

/-- A calm thread at the place acts. -/
theorem calm (isOther : id ≠ caller) (atPlace : thread.place = place) (isCalm : thread.job.isCalm = true) :
    Descends place before called caller (trace ++ [event]) after stage pending := by
  subst atPlace
  obtain ⟨left, balanced⟩ := descends.balanced
  obtain ⟨remaining, moves, _⟩ := balanced.act ready.1 acts
  refine descends.aside ready acts isOther (fun held isRelease => ?_) ?_ (fun here atPlace => ?_) ?_
  · rw [isRelease] at isCalm
    cases isCalm
  · obtain ⟨found, here, holds⟩ := descends.worker
    rcases moves.here with ⟨same, _⟩ | ⟨state, now, rest, there, isNow, turns, _, rests⟩
    · exact ⟨found, same.trans here, holds⟩
    · obtain rfl := Option.some.inj (there.symm.trans here)
      refine ⟨now, isNow, holds.calm isCalm (rests isCalm) turns (balanced.balances there) ?_⟩
      have charged : s.charge thread.place left id ≤ s.owed thread.place left :=
        FleetState.charge_le_owed (balanced.fresh ready.1)
      rwa [FleetState.charge_of_found ready.1, if_pos rfl] at charged
  · exact (moves.threads here).imp_right fun news => .inl (news.2 isCalm)
  · unfold Event.offered?
    split
    · rename_i duty call reply
      have calls := (moves.calls rfl).2.1
      rw [← calls] at isCalm
      cases isCalm
    · rfl

/-- A thread ends. -/
theorem ends {outcome : Outcome} (isOther : id ≠ caller) (ended : thread.script = .done (.inr outcome)) :
    Descends place before called caller (trace ++ [event]) after stage pending := by
  have noRelease (held : HeldLease) : thread ≠ releasing place held := by
    rintro rfl
    cases ended
  obtain ⟨rfl, rfl⟩ := acts.of_done ended
  refine descends.aside ready acts isOther noRelease descends.worker (fun here _ => .inl ?_) rfl
  exact (SortedMap.get?_erase_eq_some_iff.1 here).2

/-- A thread that comes too late finds so. -/
theorem late (isOther : id ≠ caller) (atPlace : thread.place = place) (isLate : IsLate thread) :
    Descends place before called caller (trace ++ [event]) after stage pending := by
  subst atPlace
  rcases isLate.script with notBegun | ⟨outcome, ended⟩
  · obtain ⟨change, next, begins, changes⟩ := Duty.behaviour_of_isLate isLate.job
    obtain ⟨state, found, _, rfl, rfl⟩ := acts.of_step (notBegun.trans begins)
    obtain ⟨now, here, holds⟩ := descends.worker
    obtain rfl := Option.some.inj (found.symm.trans here)
    obtain ⟨same, outcome, isNext⟩ := changes state holds.stopping
    refine descends.aside ready acts isOther (fun held isRelease => ?_) ⟨state, ?_, holds⟩ (fun there _ => ?_) rfl
    · have isLate := isLate.job
      rw [isRelease] at isLate
      cases isLate
    · rw [same]
      exact SortedMap.get?_insert_self ..
    · rcases SortedMap.get?_insert_eq_some_iff.1 there with ⟨_, rfl⟩ | ⟨_, earlier⟩
      · exact .inr (.inr ⟨isLate.job, .inr ⟨outcome, isNext⟩⟩)
      · exact .inl earlier
  · exact descends.ends ready acts isOther ended

end

/-- A release is issued. -/
theorem release (descends : Descends place before called caller trace s stage pending) {held : HeldLease}
    (ready : s.Ready id (releasing place held))
    (acts : Interleaving.Acts Duty.behaviour s id (releasing place held) event after) (isGiven : stage.rank = 4)
    (mem : (id, held) ∈ stage.left) (isTheirs : id ∈ pending) :
    ∃ next, Descends place before called caller (trace ++ [event]) after next pending := by
  have step : FleetStep s event after := acts.step ready
  obtain ⟨left, balanced⟩ := descends.balanced
  obtain ⟨remaining, balancedNow⟩ := balanced.step step
  obtain ⟨reply, answered, answers, shown, same⟩ := acts.of_ask (releasing_script place held)
  cases stage with
  | given waiting =>
    have mem : (id, held) ∈ waiting := mem
    have distinct : (waiting.map Prod.fst).Nodup := descends.distinct
    have notCaller {other : Nat} {there : Thread Worker Duty Outcome} (here : s.threads.get? other = some there)
        (isCaller : there.job = .request .shutdown) : other ≠ id := by
      rintro rfl
      obtain rfl := Option.some.inj (ready.1.symm.trans here)
      cases isCaller
    have spared {other : Nat} (ne : other ≠ id) : after.threads.get? other = s.threads.get? other := by
      rw [same, ← answers.threads]
      exact SortedMap.get?_insert_of_ne _ ne _
    have places : after.places = s.places := by
      rw [same]
      exact answers.places
    -- each release has a number of its own, so the others are still to come
    have differs {pair : Nat × HeldLease} (there : pair ∈ waiting.erase (id, held)) :
        pair ∈ waiting ∧ pair.1 ≠ id := by
      rw [((List.perm_cons_erase mem).map Prod.fst).nodup_iff, List.map_cons, List.nodup_cons] at distinct
      refine ⟨List.mem_of_mem_erase there, fun equal => distinct.1 ?_⟩
      exact List.mem_map.2 ⟨pair, there, equal⟩
    refine ⟨.given (waiting.erase (id, held)), descends.run.snoc step, ⟨_, balancedNow⟩,
      Nat.lt_of_lt_of_le descends.old step.started_le, ?_, ?_, fun here atPlace isOther => ?_,
      fun pair there => ?_, ?_, ?_⟩
    · rcases descends.thread with ⟨hasReturned, _⟩ | ⟨script, isScript, here⟩
      · cases hasReturned
      · exact .inr ⟨script, isScript, (spared (notCaller here rfl)).trans here⟩
    · rw [places]
      obtain ⟨now, here, holds⟩ := descends.worker
      have early {waiting} (late : 7 ≤ (Descent.given waiting).rank) : now.phase = .shutDown :=
        absurd late (show ¬7 ≤ 4 by decide)
      exact ⟨now, here, holds.onward (Nat.le_succ 3) (Nat.le_succ 3) early⟩
    · rename_i other there
      by_cases isId : other = id
      · subst isId
        rw [same] at here
        obtain rfl := Option.some.inj ((SortedMap.get?_insert_self ..).symm.trans here)
        exact .inr (.inr ⟨rfl, isTheirs, .inl rfl⟩)
      · rw [spared isId] at here
        rcases descends.others here atPlace isOther with isCalm | isLate | ⟨_, waits, status⟩
        · exact .inl isCalm
        · exact .inr (.inl isLate)
        · refine .inr (.inr ⟨rfl, waits, status.imp_right ?_⟩)
          rintro ⟨given, mem, isReleasing⟩
          refine ⟨given, ?_, isReleasing⟩
          exact (List.mem_erase_of_ne fun equal => isId (Prod.mk.inj equal).1).2 mem
    · obtain ⟨earlier, ne⟩ := differs there
      rw [spared ne]
      exact descends.left pair earlier
    · exact (List.Sublist.map Prod.fst List.erase_sublist).nodup distinct
    · have told : HasReleased place called trace s ((waiting.map Prod.snd).map HeldLease.lease) :=
        descends.told
      have offers : event.offered? place = some held.lease := by
        rw [shown]
        exact if_pos ⟨rfl, rfl, rfl⟩
      exact told.offers step offers (((List.perm_cons_erase mem).map Prod.snd).map HeldLease.lease)
  | _ => cases isGiven

/-- Another thread at the place acts. -/
theorem besides (descends : Descends place before called caller trace s stage pending) (ready : s.Ready id thread)
    (acts : Interleaving.Acts Duty.behaviour s id thread event after) (isOther : id ≠ caller)
    (atPlace : thread.place = place) :
    ∃ next, Descends place before called caller (trace ++ [event]) after next pending := by
  rcases descends.others ready.1 atPlace isOther with isCalm | isLate |
    ⟨isGiven, isTheirs, ended | ⟨held, mem, rfl⟩⟩
  · exact ⟨stage, descends.calm ready acts isOther atPlace isCalm⟩
  · exact ⟨stage, descends.late ready acts isOther atPlace isLate⟩
  · exact ⟨stage, descends.ends ready acts isOther ended⟩
  · exact descends.release ready acts isGiven mem isTheirs

end Descends

end LeaseFleet
