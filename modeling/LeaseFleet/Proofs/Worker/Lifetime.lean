import LeaseFleet.Proofs.Worker.PhaseOrder
import LeaseFleet.Proofs.Worker.Initialization
import LeaseFleet.Proofs.Interleaving.Schedules

/-!
# The life of a worker

A worker lives once. It goes through the phases that it announces, and these only rise. A call to shut it
down begins with one indivisible step. From then on the worker never runs, and no call that brings it up
succeeds unless it had run before; when the call has returned the worker is shut down for good, and every
later call to bring it up is refused. Further calls to shut it down change nothing. Whoever brings the
worker up makes as many attempts as its settings allow at most, and gives up when all of them have failed.
All this holds for every order in which the actions of these and all other calls happen
(`worker_lives_once`).
-/

namespace LeaseFleet

theorem WorkerPhase.eq_shutDown {phase : WorkerPhase} (last : WorkerPhase.shutDown.rank ≤ phase.rank) :
    phase = .shutDown := by
  cases phase with
  | shutDown => rfl
  | _ => exact absurd last (by decide)

namespace Worker

variable {worker found now : Worker}

/-- A worker that is shut down stays so. -/
theorem Older.shutDown (older : found.Older now) (isDown : found.phase = .shutDown) : now.phase = .shutDown :=
  WorkerPhase.eq_shutDown (isDown ▸ older.phase)

/-- A worker that has begun to shut down has run only if it had run before. -/
theorem mem_announced_of_beginShutdown (ran : .running ∈ worker.beginShutdown.announced) :
    .running ∈ worker.announced := by
  cases stopping : worker.stopping with
  | true => rwa [worker.beginShutdown_of_stopping stopping] at ran
  | false =>
    have down := worker.rank_le_beginShutdown stopping
    rcases worker.rises_beginShutdown.phase with ⟨_, announced⟩ | ⟨_, announced⟩
    · rwa [announced] at ran
    · rw [announced] at ran
      refine (List.mem_append.1 ran).resolve_right fun last => ?_
      rw [← List.mem_singleton.1 last] at down
      exact absurd down (by decide)

end Worker

/-! ## The calls that shut a worker down -/

/-- A call to shut a worker down begins with one change of the worker. It returns at once if another one was
there before, and otherwise only when the worker is shut down. -/
theorem behaviour_shutdown : ∃ next,
    Duty.behaviour (.request .shutdown) = .step (fun _ => true) Worker.beginShutdown next ∧
      ∀ found : Worker, (found.stopping = true → next found = .done (.inr .nothing)) ∧
        (found.stopping = false → (next found).Brings fun worker => worker.phase = .shutDown) := by
  refine ⟨_, rfl, fun found => ⟨fun stopping => ?_, fun goesOn => ?_⟩⟩
  · simp only [Script.done_bind, id_eq, stopping, if_true]
    rfl
  · simp only [Script.done_bind, id_eq, goesOn, Bool.false_eq_true, if_false]
    refine Script.Brings.bind (Script.Brings.embed (Script.Brings.bind ?_))
    refine Script.brings_bind_of_forall fun _ => Script.brings_bind_of_forall fun _ => ?_
    exact fun worker _ => .inl (WorkerPhase.eq_shutDown (worker.rank_le_enter .shutDown))

/-- The call of a thread to shut its worker down begins. -/
structure ShutdownBegins (s : FleetState) (id : Nat) (caller : Thread Worker Duty Outcome) (begun : FleetState) :
    Prop where
  there : s.threads.get? id = some caller
  isShutdown : caller.job = .request .shutdown
  new : caller.script = Duty.behaviour caller.job
  step : ∃ event, CallStep s event begun
  acts : begun.threads.get? id ≠ some caller

section

variable {leases : List Lease} {setups : List WorkerSetup} {trace : List (Event Duty Outcome)} {s begun : FleetState}
  {id : Nat} {caller thread : Thread Worker Duty Outcome} {place : String} {worker : Worker}

/-! ## Phases -/

/-- The phase of the worker at a place. -/
def phaseAt (place : String) (s : FleetState) : Option WorkerPhase := (s.places.get? place).map Worker.phase

theorem phaseAt_of_found (found : s.places.get? place = some worker) : phaseAt place s = some worker.phase := by
  rw [phaseAt, found, Option.map_some]

/-- The phases that a worker has gone through are the first one and those that it has announced. -/
theorem phases_of_takes {phases : List (Option WorkerPhase)}
    (takes : Interleaving.Takes Duty.behaviour Duty.IsCall (phaseAt place) (fleetStart leases setups) trace s phases)
    (found : s.places.get? place = some worker) : phases = (.created :: worker.announced).map some := by
  induction takes generalizing worker with
  | start =>
    rw [phaseAt_of_found found]
    obtain ⟨setup, _, rfl⟩ := places_fleetStart found
    rfl
  | same earlier step isSame ih =>
    obtain ⟨before, here, rises, _⟩ := worker_of_step earlier.run step found
    rw [phaseAt_of_found found, phaseAt_of_found here] at isSame
    rcases rises.phase with ⟨_, announced⟩ | ⟨later, _⟩
    · rw [ih here, announced]
    · rw [Option.some.inj isSame] at later
      exact absurd later (Nat.lt_irrefl _)
  | other earlier step differs ih =>
    obtain ⟨before, here, rises, _⟩ := worker_of_step earlier.run step found
    rw [phaseAt_of_found found, phaseAt_of_found here] at differs
    rcases rises.phase with ⟨phase, _⟩ | ⟨_, announced⟩
    · exact absurd (congrArg some phase) differs
    · rw [ih here, announced, phaseAt_of_found found]
      simp

theorem takes_phases_iff (run : CallRun (fleetStart leases setups) trace s)
    (found : s.places.get? place = some worker) (phases : List (Option WorkerPhase)) :
    Interleaving.Takes Duty.behaviour Duty.IsCall (phaseAt place) (fleetStart leases setups) trace s phases ↔
      phases = (.created :: worker.announced).map some := by
  refine ⟨fun takes => phases_of_takes takes found, fun same => ?_⟩
  obtain ⟨others, takes⟩ := run.takes (phaseAt place)
  rw [same, ← phases_of_takes takes found]
  exact takes

/-! ## After a shutdown has begun -/

theorem ShutdownBegins.begun_eq (begins : ShutdownBegins s id caller begun)
    (run : CallRun (fleetStart leases setups) trace s) (found : s.places.get? caller.place = some worker) :
    ∃ rest, begun = (s.setPlace caller.place worker.beginShutdown).goOn id { caller with script := rest } ∧
      (worker.stopping = true → rest = .done (.inr .nothing)) ∧
      (worker.stopping = false → rest.Brings fun worker => worker.phase = .shutDown) := by
  obtain ⟨_, marked, _⟩ := aged_of_run run
  obtain ⟨event, step⟩ := begins.step
  obtain ⟨next, isStep, goesOn⟩ := behaviour_shutdown
  have here : caller.script = .step (fun _ => true) Worker.beginShutdown next := by
    rw [begins.new, begins.isShutdown, isStep]
  obtain ⟨other, there, _, same⟩ := step.of_step (marked.fresh begins.there) begins.there here begins.acts
  obtain rfl := Option.some.inj (there.symm.trans found)
  exact ⟨next other, same, goesOn other⟩

/-- A further call to shut a worker down changes nothing. -/
theorem ShutdownBegins.of_stopping (begins : ShutdownBegins s id caller begun)
    (run : CallRun (fleetStart leases setups) trace s) (found : s.places.get? caller.place = some worker)
    (stopping : worker.stopping = true) : begun = s.goOn id { caller with script := .done (.inr .nothing) } := by
  obtain ⟨rest, same, returns, _⟩ := begins.begun_eq run found
  rw [same, returns stopping, worker.beginShutdown_of_stopping stopping, Interleaving.setPlace,
    SortedMap.insert_of_found found]

/-- A call that brings its worker up has success. -/
def FleetState.ComesUp (s : FleetState) (place : String) : Prop :=
  ∃ id thread, s.threads.get? id = some thread ∧ thread.place = place ∧ thread.job.BringsUp ∧
    thread.script = .done (thread.job.conclusion (.ok ()))

/-- Who has brought a worker up has made it run. -/
theorem running_of_comesUp (run : CallRun (fleetStart leases setups) trace s) (success : s.ComesUp place)
    (here : s.places.get? place = some worker) : .running ∈ worker.announced := by
  obtain ⟨id, thread, found, rfl, brings, ended⟩ := success
  obtain ⟨past, unfolds⟩ := run.unfolds (by simp [fleetStart]) found
  obtain ⟨part, unfolds, isRest⟩ := Duty.unfolds_of_bringsUp brings unfolds
  obtain ⟨value, rfl, isOk⟩ := Duty.eq_done_of_concluding (isRest.symm.trans ended)
  obtain rfl := Duty.conclusion_eq_ok isOk.symm
  rcases Worker.bringUp_unfolds unfolds with ⟨_, same⟩ | ⟨found, acts, _, _, refused | ⟨_, attempts, stands⟩⟩
  · cases same
  · cases refused.2.2
  · cases stands.concludes _ rfl with
    | cameUp last early entered =>
      obtain ⟨_, between, _, before, since, there⟩ := entered
      refine (older_of_run before since there here).announced.subset ?_
      rw [Worker.enter, if_pos early]
      exact List.mem_append_right _ (List.mem_singleton_self _)

/-- Whatever happens from here on, the worker does not run, and calls that bring it up have success only under
the given condition. -/
def FleetState.NeverRuns (s : FleetState) (place : String) (ran : Prop) : Prop :=
  ∀ trace (later : FleetState), CallRun s trace later →
    (∃ now, later.places.get? place = some now ∧ now.phase ≠ .running) ∧ (later.ComesUp place → ran)

theorem ShutdownBegins.neverRuns (begins : ShutdownBegins s id caller begun)
    (run : CallRun (fleetStart leases setups) trace s) (found : s.places.get? caller.place = some worker) :
    begun.NeverRuns caller.place (.running ∈ worker.announced) := by
  obtain ⟨event, step⟩ := begins.step
  have toBegun := run.snoc step
  have here : begun.places.get? caller.place = some worker.beginShutdown := by
    obtain ⟨rest, same, _⟩ := begins.begun_eq run found
    rw [same]
    exact SortedMap.get?_insert_self ..
  have inOrder := inOrder_of_run toBegun here
  have past : WorkerPhase.running.rank < worker.beginShutdown.phase.rank :=
    inOrder.past worker.stopping_beginShutdown
  intro more later since
  obtain ⟨now, there⟩ := since.place_stays here
  have older := older_of_run toBegun since here there
  refine ⟨⟨now, there, fun runs => ?_⟩, fun success => ?_⟩
  · exact absurd (runs ▸ older.phase) (Nat.not_le_of_lt past)
  · have ran := running_of_comesUp (toBegun.trans since) success there
    have ranBefore := inOrder.mem_of_older (inOrder_of_run (toBegun.trans since) there) older
      (List.mem_cons_of_mem _ ran) (Nat.le_of_lt past)
    exact Worker.mem_announced_of_beginShutdown ((List.mem_cons.1 ranBefore).resolve_left (by simp))

/-- Whatever happens from here on, the worker is shut down, and a call to bring it up that is new, or that was
still to begin, is still to begin or was refused. -/
def FleetState.IsOver (s : FleetState) (place : String) : Prop :=
  ∀ trace (later : FleetState), CallRun s trace later →
    (∃ now, later.places.get? place = some now ∧ now.phase = .shutDown) ∧
    ∀ id thread, (∀ waiting, s.threads.get? id = some waiting → waiting.script = Duty.behaviour waiting.job) →
      later.threads.get? id = some thread → thread.place = place → thread.job.BringsUp →
        thread.script = Duty.behaviour thread.job ∨
          thread.script = .done (.inr (.failed (.invalidState "initialize" "shut_down")))

/-- When a worker is shut down, all is over. -/
theorem isOver_of_shutDown (run : CallRun (fleetStart leases setups) trace s)
    (found : s.places.get? place = some worker) (isDown : worker.phase = .shutDown) : s.IsOver place := by
  intro more later since
  obtain ⟨now, there⟩ := since.place_stays found
  refine ⟨⟨now, there, (older_of_run run since found there).shutDown isDown⟩, ?_⟩
  rintro id thread new foundThread rfl brings
  obtain ⟨past, unfolds⟩ := since.unfolds (new _) foundThread
  obtain ⟨part, unfolds, isRest⟩ := Duty.unfolds_of_bringsUp brings unfolds
  rcases Worker.bringUp_unfolds unfolds with ⟨_, rfl⟩ | ⟨met, acts, visits, _, rest⟩
  · exact .inl (isRest.trans (Duty.behaviour_of_bringsUp brings).symm)
  · obtain ⟨_, between, _, before, _, here⟩ := visits
    have metDown := (older_of_run run before found here).shutDown isDown
    rcases rest with ⟨_, _, rfl⟩ | ⟨canBegin, _⟩
    · rw [isRest, metDown]
      exact .inr rfl
    · simp [Worker.canBegin, metDown] at canBegin

/-- When the call that has begun to shut a worker down has returned, all is over. -/
theorem ShutdownBegins.isOver (begins : ShutdownBegins s id caller begun)
    (run : CallRun (fleetStart leases setups) trace s) (found : s.places.get? caller.place = some worker)
    (first : worker.stopping = false) {more : List (Event Duty Outcome)} {later : FleetState}
    (since : CallRun begun more later) (returned : later.threads.get? id = none) : later.IsOver caller.place := by
  obtain ⟨event, step⟩ := begins.step
  have toBegun := run.snoc step
  obtain ⟨rest, same, _, brings⟩ := begins.begun_eq run found
  have there : begun.threads.get? id = some { caller with script := rest } := by
    rw [same]
    exact SortedMap.get?_insert_self ..
  obtain ⟨_, marked, _⟩ := aged_of_run toBegun
  rcases since.brings (marked.fresh there) there (brings first) with
    ⟨state, ⟨_, between, _, before, after, here⟩, isDown⟩ | ⟨now, stillThere, _⟩
  · obtain ⟨now, atEnd⟩ := after.place_stays here
    exact isOver_of_shutDown (toBegun.trans since) atEnd
      ((older_of_run (toBegun.trans before) after here atEnd).shutDown isDown)
  · cases returned.symm.trans stillThere

/-! ## Attempts -/

/-- How bringing a worker up stands, when attempts have failed and nobody has told the worker to stop: it does
not end before as many have failed as are allowed, and then it ends with the last failure and the worker shut
down. -/
def Worker.GivesUp (worker : Worker) (total : Nat) (part : Worker.Attempt)
    (attempts : List Worker.Attempt) : Prop :=
  (∀ value, part = .done value → attempts.length = total) ∧
    (attempts.length = total → ∃ error, attempts.head? = some (.done (.error error)) ∧
      (part = giveUp total error ∨
        part = .done (.error (.initialization total error.message)) ∧ worker.phase = .shutDown))

/-- Bringing a worker up has not begun, or was refused, or makes attempts, one after another and no more than
the settings of the worker allow. -/
def Worker.IsBroughtUp (worker : Worker) (met : Worker → Prop) (past : Journal Worker)
    (part : Worker.Attempt) : Prop :=
  past = [] ∧ part = bringUp ∨ ∃ found acts, met found ∧ past = acts ++ [.changed found found.beginBringUp] ∧
    (found.canBegin = false ∧ acts = [] ∧ part = .done (.error (.invalidState "initialize" found.phase.name)) ∨
      found.canBegin = true ∧ ∃ attempts, Tries met attempts acts ∧
        attempts.length ≤ max worker.settings.maxInitializationAttempts 1 ∧
        (worker.stopping = false → (∀ attempt ∈ attempts, Failed attempt) →
          worker.GivesUp (max worker.settings.maxInitializationAttempts 1) part attempts))

/-- The states of the worker at a place in a fleet since its start. -/
abbrev WorkerVisits (leases : List Lease) (setups : List WorkerSetup) :=
  Interleaving.Visits Duty.behaviour Duty.IsCall (fleetStart leases setups)

theorem older_of_visits {met : Worker} (visits : WorkerVisits leases setups s place met)
    (found : s.places.get? place = some worker) : met.Older worker := by
  obtain ⟨_, _, _, before, since, here⟩ := visits
  exact older_of_run before since here found

/-- As long as a worker was not told to stop, neither it nor its coordinator ever was. -/
theorem calm_of_visits (found : s.places.get? place = some worker) (goesOn : worker.stopping = false) {met : Worker}
    (visits : WorkerVisits leases setups s place met) : met.Calm := by
  have older := older_of_visits visits found
  obtain ⟨_, _, _, before, _, here⟩ := visits
  have notStopping : met.stopping = false :=
    Bool.eq_false_iff.2 fun stopping => Bool.false_ne_true (goesOn.symm.trans (older.stopping stopping))
  refine ⟨notStopping, Bool.eq_false_iff.2 fun coordinatorToo => ?_⟩
  exact Bool.false_ne_true (notStopping.symm.trans ((inOrder_of_run before here).told coordinatorToo))

theorem givesUp_of_stands {total : Nat} {past : Journal Worker} {part : Worker.Attempt}
    {attempts : List Worker.Attempt}
    (stands : Worker.Stands (WorkerVisits leases setups s place) total past part attempts)
    (found : s.places.get? place = some worker) (goesOn : worker.stopping = false)
    (failed : ∀ attempt ∈ attempts, Worker.Failed attempt) : worker.GivesUp total part attempts := by
  have calm (met : Worker) (visits : WorkerVisits leases setups s place met) : met.Calm :=
    calm_of_visits found goesOn visits
  refine ⟨fun value ended => (stands.gaveUp calm failed ended).1, fun all => ?_⟩
  rcases stands.exhausted all failed with interrupted | ⟨error, last, pending | ⟨value, ended⟩⟩
  · exact absurd interrupted (stands.not_interrupted calm)
  · exact ⟨error, last, .inl pending⟩
  · obtain ⟨_, reason, met, isLast, entered, rfl⟩ := stands.gaveUp calm failed ended
    have last := Nat.le_trans (met.rank_le_enter .shutDown) (older_of_visits entered found).phase
    exact ⟨reason, isLast, .inr ⟨ended, WorkerPhase.eq_shutDown last⟩⟩

/-- What a call that brings a worker up has done, and what is left of it. -/
theorem isBroughtUp_of_run (run : CallRun (fleetStart leases setups) trace s)
    (found : s.places.get? place = some worker) (there : s.threads.get? id = some thread)
    (atPlace : thread.place = place) (brings : thread.job.BringsUp) :
    ∃ past part, Worker.bringUp.Unfolds (WorkerVisits leases setups s place) past part ∧
      thread.script = thread.job.concluding part ∧
      worker.IsBroughtUp (WorkerVisits leases setups s place) past part := by
  subst atPlace
  obtain ⟨past, unfolds⟩ := run.unfolds (by simp [fleetStart]) there
  obtain ⟨part, unfolds, isRest⟩ := Duty.unfolds_of_bringsUp brings unfolds
  refine ⟨past, part, unfolds, isRest, (Worker.bringUp_unfolds unfolds).imp_right ?_⟩
  rintro ⟨met, acts, visits, isPast, others⟩
  refine ⟨met, acts, visits, isPast, others.imp_right ?_⟩
  rintro ⟨canBegin, attempts, stands⟩
  rw [← (older_of_visits visits found).settings] at stands
  exact ⟨canBegin, attempts, stands.tries, stands.most, givesUp_of_stands stands found⟩

/-! ## The whole life -/

/-- The life of the worker at a place, at an instant of a run of a fleet. -/
structure LivesOnce (leases : List Lease) (setups : List WorkerSetup) (trace : List (Event Duty Outcome))
    (s : FleetState) (place : String) (worker : Worker) : Prop where
  /-- It has gone through the phases that it has announced and no others. -/
  phases : ∀ phases, Interleaving.Takes Duty.behaviour Duty.IsCall (phaseAt place) (fleetStart leases setups) trace s
    phases ↔ phases = (.created :: worker.announced).map some
  rising : (.created :: worker.announced).Pairwise fun earlier later => earlier.rank < later.rank
  /-- Only a call to shut it down tells it to stop. -/
  asked : worker.stopping = true → .begun place (.request .shutdown) ∈ trace
  /-- A further call to shut it down changes nothing. -/
  again : ∀ {id caller begun}, ShutdownBegins s id caller begun → caller.place = place → worker.stopping = true →
    begun = s.goOn id { caller with script := .done (.inr .nothing) }
  /-- When a call to shut it down has begun, it never runs any more. -/
  neverRuns : ∀ {id caller begun}, ShutdownBegins s id caller begun → caller.place = place →
    begun.NeverRuns place (.running ∈ worker.announced)
  /-- When the first call to shut it down has returned, all is over. -/
  isOver : ∀ {id caller begun}, ShutdownBegins s id caller begun → caller.place = place → worker.stopping = false →
    ∀ {more later}, CallRun begun more later → later.threads.get? id = none → FleetState.IsOver later place
  /-- A call to bring it up makes as many attempts as are allowed at most, and gives up when all have failed. -/
  broughtUp : ∀ {id thread}, s.threads.get? id = some thread → thread.place = place → thread.job.BringsUp →
    ∃ past part, Worker.bringUp.Unfolds (WorkerVisits leases setups s place) past part ∧
      thread.script = thread.job.concluding part ∧ worker.IsBroughtUp (WorkerVisits leases setups s place) past part

/-- Whatever is asked of a fleet, and in whatever order things happen, each of its workers lives once. -/
theorem worker_lives_once (run : CallRun (fleetStart leases setups) trace s)
    (found : s.places.get? place = some worker) : LivesOnce leases setups trace s place worker where
  phases := takes_phases_iff run found
  rising := (inOrder_of_run run found).rising
  asked stopping := by
    obtain ⟨_, _, aged⟩ := aged_of_run run
    exact aged.asked found stopping
  again begins atPlace stopping := begins.of_stopping run (atPlace ▸ found) stopping
  neverRuns begins atPlace := atPlace ▸ begins.neverRuns run (atPlace ▸ found)
  isOver begins atPlace first _ _ since returned := atPlace ▸ begins.isOver run (atPlace ▸ found) first since returned
  broughtUp there atPlace brings := isBroughtUp_of_run run found there atPlace brings

end

instance (duty : Duty) : Decidable duty.IsCall :=
  inferInstanceAs (Decidable (duty.background? = none ∧ duty ≠ .request .stopLoops))

/-- A new call to shut a worker down begins by its first action. -/
theorem shutdownBegins_of_launch {s : FleetState} {place : String} {worker : Worker}
    (found : s.places.get? place = some worker) :
    ShutdownBegins (s.launch Duty.behaviour place (.request .shutdown)) s.started
      { place, job := .request .shutdown, script := Duty.behaviour (.request .shutdown) }
      (Interleaving.play Duty.behaviour Duty.IsCall [.act s.started]
        ([], s.launch Duty.behaviour place (.request .shutdown))).2 := by
  obtain ⟨next, isStep, _⟩ := behaviour_shutdown
  let launched := s.launch Duty.behaviour place (.request .shutdown)
  let caller : Thread Worker Duty Outcome :=
    { place, job := .request .shutdown, script := Duty.behaviour (.request .shutdown) }
  have there : launched.threads.get? s.started = some caller := SortedMap.get?_insert_self ..
  have ready : launched.ready? s.started = some caller := by
    rw [Interleaving.ready?, there]
    rfl
  have acts : launched.act? Duty.behaviour s.started caller = some (.inner,
      (launched.setPlace place worker.beginShutdown).goOn s.started { caller with script := next worker }) := by
    have here : launched.places.get? place = some worker := found
    simp only [Interleaving.act?, caller, isStep, here, if_true]
  have played : Interleaving.play Duty.behaviour Duty.IsCall [.act s.started] ([], launched) = ([.inner],
      (launched.setPlace place worker.beginShutdown).goOn s.started { caller with script := next worker }) := by
    simp only [Interleaving.play, Interleaving.choose?, ready, Option.bind_some, acts]
    rfl
  rw [played]
  refine ⟨there, rfl, rfl, ⟨.inner, .change ⟨there, by simp [caller]⟩ isStep found rfl⟩, fun same => ?_⟩
  have now := (SortedMap.get?_insert_self ..).symm.trans same
  exact Script.next_ne_step worker ((congrArg Thread.script (Option.some.inj now)).trans isStep)

/-- A worker that may make two attempts. -/
def twiceTrying : WorkerSetup where
  workerId := "w1"
  scheduler := { maxInitializationAttempts := 2 }
  multi := false
  region := "r"
  account := "c"

/-- The worker is being brought up, and then the given choices follow. -/
def comingUp (choices : List (Interleaving.Choice Duty)) : List (Event Duty Outcome) × FleetState :=
  Interleaving.play Duty.behaviour Duty.IsCall
    ([.begin "w1" (.request .bringUp)] ++ Interleaving.acts 0 2 ++ choices) ([], fleetStart [] [twiceTrying])

/-- While the worker is being brought up, it is asked to shut down. -/
def shutMeanwhile : FleetState := (comingUp []).2.launch Duty.behaviour "w1" (.request .shutdown)

/-- The call to shut it down begins, and then the given choices follow. -/
def downMeanwhile (choices : List (Interleaving.Choice Duty)) : FleetState :=
  (Interleaving.play Duty.behaviour Duty.IsCall choices
    ([], (Interleaving.play Duty.behaviour Duty.IsCall [.act (comingUp []).2.started] ([], shutMeanwhile)).2)).2

/-- A worker of which both attempts fail is shut down. One that is shut down during its first attempt never
runs, and all is over when the call has returned, whatever becomes of the attempt. -/
theorem worker_lives_once_when_crossed :
    (∃ played worker, played = comingUp ([.refuse 0 (.unknown "")] ++ Interleaving.acts 0 3 ++
        [.refuse 0 (.unknown "")] ++ Interleaving.acts 0 1) ∧ played.2.places.get? "w1" = some worker ∧
      worker.announced = [.initializing, .shutDown] ∧
      LivesOnce [] [twiceTrying] played.1 played.2 "w1" worker) ∧
    FleetState.NeverRuns (downMeanwhile []) "w1" False ∧
    FleetState.IsOver (downMeanwhile (Interleaving.acts 1 8)) "w1" := by
  have lives (choices : List (Interleaving.Choice Duty)) {worker : Worker}
      (found : (comingUp choices).2.places.get? "w1" = some worker) :
      LivesOnce [] [twiceTrying] (comingUp choices).1 (comingUp choices).2 "w1" worker :=
    worker_lives_once (Interleaving.run_play _ (.refl _)) found
  refine ⟨?_, ?_⟩
  · have announced : ((comingUp ([.refuse 0 (.unknown "")] ++ Interleaving.acts 0 3 ++ [.refuse 0 (.unknown "")] ++
        Interleaving.acts 0 1)).2.places.get? "w1").map Worker.announced = some [.initializing, .shutDown] := by
      decide +kernel
    obtain ⟨worker, found, same⟩ := Option.map_eq_some_iff.1 announced
    exact ⟨_, worker, rfl, found, same, lives _ found⟩
  · have standing : ((comingUp []).2.places.get? "w1").map (fun worker => (worker.stopping, worker.announced)) =
        some (false, [.initializing]) := by
      decide +kernel
    obtain ⟨worker, found, same⟩ := Option.map_eq_some_iff.1 standing
    obtain ⟨goesOn, announced⟩ := Prod.mk.inj same
    have begins := shutdownBegins_of_launch found
    have run : CallRun (fleetStart [] [twiceTrying]) _ shutMeanwhile :=
      (Interleaving.run_play _ (.refl _)).snoc (.begin (Option.isSome_of_eq_some found) (by decide))
    have once : LivesOnce [] [twiceTrying] _ shutMeanwhile "w1" worker := worker_lives_once run found
    have returned : (downMeanwhile (Interleaving.acts 1 8)).threads.get? (comingUp []).2.started = none :=
      Option.isNone_iff_eq_none.1 (by decide +kernel)
    refine ⟨?_, once.isOver begins rfl goesOn (Interleaving.run_play _ (.refl _)) returned⟩
    have ran : ¬.running ∈ worker.announced := by simp [announced]
    have never := once.neverRuns begins rfl
    rw [eq_false ran] at never
    exact never

end LeaseFleet
