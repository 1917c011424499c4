import LeaseFleet.Proofs.Script.ThreadHistories
import LeaseFleet.Proofs.Script.ActKinds

/-!
# Bringing a worker up

A worker is brought up by attempts, one after another (`Worker.Tries`), as many as its settings allow at
most. What comes of them is decided by the last one (`Worker.Concludes`): the worker runs, or it was told
to stop meanwhile, or all attempts have failed and it is shut down (`stands_of_attempts`). As long as neither
the worker nor its coordinator is told to stop, no attempt ends as if it were (`attemptBringUp_yields`).
-/

namespace LeaseFleet

/-! ## What is not cut short -/

/-- The result is not that of something that was cut short. -/
def Uncut {α : Type} (result : Except WorkerError α) : Prop := result ≠ .error .shuttingDown

theorem uncut_ok {α : Type} (value : α) : Uncut (.ok value) := by
  simp [Uncut]

theorem uncut_store {α : Type} (cause : StoreError) : Uncut (.error (.store cause) : Except WorkerError α) := by
  simp [Uncut]

/-- An error is the same for every kind of value. -/
theorem Uncut.error {α β : Type} {error : WorkerError} (uncut : Uncut (.error error : Except WorkerError α)) :
    Uncut (.error error : Except WorkerError β) :=
  fun same => uncut (congrArg _ (Except.error.inj same))

section

variable {σ Job : Type} {met : σ → Prop} {stopped : σ → Bool} (calm : ∀ state, met state → stopped state = false)

include calm

theorem RetryPolicy.store_yields (policy : RetryPolicy) (call : StoreCall) :
    (policy.store stopped call : Script σ Job _).Yields met Uncut := by
  suffices attempts : ∀ left earlier, (policy.attempts stopped
      (do return (← Script.call call).mapError WorkerError.store) left earlier : Script σ Job _).Yields met Uncut from
    attempts _ _
  intro left
  induction left with
  | zero =>
    intro earlier reply
    cases reply with
    | ok answer => exact uncut_ok answer
    | error error => exact uncut_store error
  | succ left ih =>
    intro earlier reply
    cases reply with
    | ok answer => exact uncut_ok answer
    | error error =>
      show ((if (WorkerError.store error).isRetryable then _ else _ :
        Script σ Job (Except WorkerError call.Answer))).Yields _ _
      split
      · intro pause complete cutShort
        cases complete with
        | true => exact ih (earlier + 1)
        | false =>
          obtain ⟨state, here, stops⟩ := cutShort rfl
          cases (calm state here).symm.trans stops
      · exact uncut_store error

theorem Synchronizer.reconcile_yields (synchronizer : Synchronizer) :
    (synchronizer.reconcile stopped : Script σ Job _).Yields met Uncut := by
  unfold reconcile
  split
  · refine (RetryPolicy.store_yields calm synchronizer.sync.retry .list).bind fun result uncut => ?_
    cases result with
    | error error => exact uncut.error
    | ok leases => exact Script.yields_bind_of_forall fun _ => uncut_ok _
  · exact uncut_ok _

theorem Synchronizer.runPass_yields (synchronizer : Synchronizer) (force : Bool) :
    (synchronizer.runPass stopped force : Script σ Job _).Yields met fun result => Uncut result.1 := by
  refine Script.yields_bind_of_forall fun now => ?_
  split
  · exact uncut_ok _
  · refine (synchronizer.reconcile_yields calm).bind fun result uncut => ?_
    cases result with
    | error error => exact uncut.error
    | ok synchronizer =>
      have ended (changed : Changed) (synchronizer : Synchronizer) : (do
          let now ← Script.query .clock
          Script.gaugeNat .trackedStreams synchronizer.streams.size
          Script.record (.sample .streamSync)
          return (.ok changed, { synchronizer with lastSync := some now }) :
            Script σ Job (Except WorkerError Changed × Synchronizer)).Yields met fun result => Uncut result.1 :=
        Script.yields_bind_of_forall fun _ => Script.yields_bind_of_forall fun _ =>
          Script.yields_bind_of_forall fun _ => uncut_ok _
      refine Script.yields_bind_of_forall fun configs => ?_
      refine Script.yields_bind_of_forall fun (changed, synchronizer) => ?_
      dsimp only
      split
      · exact Script.yields_bind_of_forall fun _ => ended _ _
      · exact ended _ _

end

namespace Coordinator

/-- It was not told to stop. -/
abbrev Unstopped (state : Coordinator) : Prop := state.stopping = false

theorem acquireAll_yields (leases : List Lease) : (acquireAll leases).Yields Unstopped Uncut := by
  induction leases with
  | nil => exact uncut_ok _
  | cons lease rest ih =>
    have acquired : (acquire lease).Yields Unstopped Uncut := by
      refine Script.yields_bind_of_forall fun worker => Script.yields_bind_of_forall fun reply => ?_
      match reply with
      | .error error => exact uncut_store error
      | .ok (.updated stored) => exact Script.yields_bind_of_forall fun _ => uncut_ok _
      | .ok .versionConflict => exact uncut_ok _
      | .ok .notFound => exact uncut_ok _
    refine acquired.bind fun result uncut => ?_
    cases result with
    | ok _ => exact ih
    | error error => exact uncut.error

theorem adopt_yields : adopt.Yields Unstopped Uncut := by
  have listed : (store .list).Yields Unstopped Uncut :=
    fun state _ _ _ => RetryPolicy.store_yields (fun _ => id) state.retry .list
  refine listed.bind fun result uncut => ?_
  cases result with
  | error error => exact uncut.error
  | ok leases =>
    refine Script.yields_bind_of_forall fun _ => Script.yields_bind_of_forall fun state => ?_
    refine (acquireAll_yields _).bind fun result uncut => ?_
    cases result with
    | error error => exact uncut.error
    | ok _ =>
      intro state unstopped _ _
      simp only [Script.done_bind, unstopped]
      exact uncut_ok _

end Coordinator

namespace Worker

/-- Neither the worker nor its coordinator was told to stop. -/
structure Calm (worker : Worker) : Prop where
  goesOn : worker.stopping = false
  coordinatorToo : worker.coordinator.stopping = false

theorem isTableEmpty_yields : isTableEmpty.Yields Calm Uncut :=
  fun worker _ _ _ => RetryPolicy.store_yields (fun _ => Calm.goesOn) worker.coordinator.retry .isEmpty

theorem watchTable_yields (started wait interval rounds : Nat) :
    (watchTable started wait interval rounds).Yields Calm Uncut := by
  induction rounds with
  | zero => exact isTableEmpty_yields
  | succ rounds ih =>
    refine Script.yields_bind_of_forall fun now => ?_
    split
    · exact isTableEmpty_yields
    · refine isTableEmpty_yields.bind fun result uncut => ?_
      match result with
      | .error error => exact uncut
      | .ok false => exact uncut_ok _
      | .ok true =>
        intro complete cutShort
        cases complete with
        | true => exact ih
        | false =>
          obtain ⟨worker, calm, stops⟩ := cutShort rfl
          cases calm.goesOn.symm.trans stops

theorem shouldFillTable_yields : shouldFillTable.Yields Calm Uncut :=
  Script.yields_bind_of_forall fun _ => Script.yields_bind_of_forall fun _ =>
    Script.yields_bind_of_forall fun _ => watchTable_yields _ _ _ _

theorem firstSync_yields (synchronizer : Synchronizer) :
    (firstSync synchronizer).Yields Calm fun result => Uncut result.1 := by
  have fills (synchronizer : Synchronizer) : (fillTable synchronizer).Yields Calm fun result => Uncut result.1 := by
    refine shouldFillTable_yields.bind fun result uncut => ?_
    match result with
    | .error error => exact uncut.error
    | .ok false => exact uncut_ok _
    | .ok true =>
      refine (synchronizer.runPass_yields (fun _ => Calm.goesOn) true).bind fun (result, synchronizer) uncut => ?_
      cases result with
      | error error => exact uncut.error
      | ok _ => exact uncut_ok _
  refine Script.yields_bind_of_forall fun synchronizer => isTableEmpty_yields.bind fun result uncut => ?_
  cases result with
  | error error => exact uncut.error
  | ok isEmpty =>
    refine Script.yields_bind_of_forall fun worker => ?_
    split
    · exact fills synchronizer
    · exact uncut_ok _

/-- While nobody is told to stop, an attempt does not end as if it were cut short. -/
theorem attemptBringUp_yields : attemptBringUp.Yields Calm Uncut := by
  have adopted : (keeping Coordinator.adopt).Yields Calm Uncut :=
    Coordinator.adopt_yields.embed (fun _ _ => rfl) fun _ => Calm.coordinatorToo
  refine adopted.bind fun result uncut => ?_
  cases result with
  | error error => exact uncut
  | ok _ =>
    have synced : (synchronizing firstSync).Yields Calm Uncut :=
      Script.yields_bind_of_forall fun found => (firstSync_yields _).bind fun (result, synchronizer) uncut =>
        fun _ _ _ _ => uncut
    refine synced.bind fun result uncut => ?_
    cases result with
    | error error => exact uncut
    | ok _ =>
      intro worker calm _ _
      simp only [Script.done_bind, calm.goesOn]
      exact Script.yields_bind_of_forall fun _ => uncut_ok _

/-! ## Attempts -/

/-- What is left of an attempt to bring a worker up, or of several. -/
abbrev Attempt := WorkerScript (Except WorkerError Unit)

/-- An attempt has ended without success. -/
def Failed (attempt : Attempt) : Prop := ∃ error, attempt = .done (.error error)

/-- Attempts one after another, each made when those before it had failed: what is left of each, the last
one first, and what was done, the last act first. Beside attempts, nothing is asked. -/
inductive Tries (met : Worker → Prop) : List Attempt → Journal Worker → Prop
  | none : Tries met [] []
  | attempt {attempts : List Attempt} {past during : Journal Worker} {rest : Attempt}
      (earlier : Tries met attempts past) (failed : ∀ attempt ∈ attempts, Failed attempt)
      (made : attemptBringUp.Unfolds met during rest) : Tries met (rest :: attempts) (during ++ past)
  | change {attempts : List Attempt} {past : Journal Worker} (found now : Worker)
      (earlier : Tries met attempts past) : Tries met attempts (.changed found now :: past)

/-- What attempts to bring a worker up come to: it runs, or it was told to stop before the end, or it is shut
down after as many failures as are allowed. -/
inductive Concludes (met : Worker → Prop) (total : Nat) (attempts : List Attempt) : Except WorkerError Unit → Prop
  | cameUp {worker : Worker} (last : attempts.head? = some (.done (.ok ())))
      (early : worker.phase.rank < WorkerPhase.running.rank) (entered : met (worker.enter .running)) :
      Concludes met total attempts (.ok ())
  | overtaken (last : attempts.head? = some (.done (.ok ()))) : Concludes met total attempts (.error .shuttingDown)
  | interrupted (last : attempts.head? = some (.done (.error .shuttingDown))) :
      Concludes met total attempts (.error .shuttingDown)
  | notAwaited {worker : Worker} (found : met worker) (stopping : worker.stopping = true) :
      Concludes met total attempts (.error .shuttingDown)
  | gaveUp {error : WorkerError} {worker : Worker} (last : attempts.head? = some (.done (.error error)))
      (all : attempts.length = total) (entered : met (worker.enter .shutDown)) :
      Concludes met total attempts (.error (.initialization total error.message))

/-- The end of bringing a worker up when as many attempts have failed as are allowed. -/
def giveUp (total : Nat) (error : WorkerError) : WorkerScript (Except WorkerError Unit) := do
  Script.change (·.enter .shutDown)
  return .error (.initialization total error.message)

/-- What follows a failed attempt: to give up, or to wait and then make the next one. -/
def afterFailure (total : Nat) (error : WorkerError) : (left : Nat) → WorkerScript (Except WorkerError Unit)
  | 0 => giveUp total error
  | left + 1 => do
    let backoff := (← Script.look).settings.initializationBackoff
    if ← .sleep backoff stopping .done then attemptsToBringUp total (left + 1)
    else return .error .shuttingDown

/-- What attempts to bring a worker up have come to, after what was done and with what is left to do. -/
structure Stands (met : Worker → Prop) (total : Nat) (past : Journal Worker) (rest : Attempt)
    (attempts : List Attempt) : Prop where
  tries : Tries met attempts past
  most : attempts.length ≤ total
  concludes : ∀ value, rest = .done value → Concludes met total attempts value
  /-- After as many failures as are allowed it gives up, unless the last attempt was interrupted. -/
  exhausted : attempts.length = total → (∀ attempt ∈ attempts, Failed attempt) →
    attempts.head? = some (.done (.error .shuttingDown)) ∨ ∃ error, attempts.head? = some (.done (.error error)) ∧
      (rest = giveUp total error ∨ ∃ value, rest = .done value)

/-- A change of the worker. -/
def IsChange : Act Worker → Prop
  | .asked _ _ => False
  | .changed _ _ => True

section

variable {met : Worker → Prop} {total left : Nat} {attempts : List Attempt} {past late : Journal Worker}
  {rest : Attempt} {error : WorkerError}

theorem Tries.made (tries : Tries met attempts past) {attempt : Attempt} (mem : attempt ∈ attempts) :
    ∃ during, attemptBringUp.Unfolds met during attempt := by
  induction tries with
  | none => cases mem
  | attempt _ _ made ih =>
    rcases List.mem_cons.1 mem with rfl | mem
    · exact ⟨_, made⟩
    · exact ih mem
  | change _ _ _ ih => exact ih mem

theorem Tries.changes (tries : Tries met attempts past) (changes : ∀ act ∈ late, IsChange act) :
    Tries met attempts (late ++ past) := by
  induction late with
  | nil => exact tries
  | cons act acts ih =>
    obtain ⟨first, others⟩ := List.forall_mem_cons.1 changes
    cases act with
    | asked => exact first.elim
    | changed found now => exact .change found now (ih others)

theorem beginRunning_changes : beginRunning.Stays IsChange := by
  have samples : startSampling.Stays IsChange := by
    refine Script.step_only (fun _ _ => trivial) fun found _ => ?_
    split
    · exact Script.step_only (fun _ _ => trivial) fun _ _ => Script.spawnAll_only _
    · trivial
  refine Script.step_only (fun _ _ => trivial) fun found _ => ?_
  split
  · trivial
  · refine samples.bind fun _ => Script.step_only (fun _ _ => trivial) fun found _ => ?_
    split <;> trivial

/-- A worker that has come up runs, unless something has overtaken it. -/
theorem beginRunning_yields : beginRunning.Yields met fun result =>
    (result = .ok () ∧
      ∃ worker : Worker, worker.phase.rank < WorkerPhase.running.rank ∧ met (worker.enter .running)) ∨
    result = .error .shuttingDown := by
  refine Script.yields_bind_of_forall fun looked => ?_
  split
  · exact .inr rfl
  · refine Script.yields_bind_of_forall fun _ => fun found _ _ entered => ?_
    simp only [Script.done_bind]
    split
    · rename_i early
      exact .inl ⟨rfl, found, early, entered⟩
    · exact .inr rfl

/-- Nothing has come of the attempts yet. -/
theorem Stands.unfinished (tries : Tries met attempts past) (most : attempts.length ≤ total)
    (goesOn : ∀ value, rest ≠ .done value)
    (more : attempts.length = total → ∃ attempt ∈ attempts, ¬Failed attempt) :
    Stands met total past rest attempts where
  tries := tries
  most := most
  concludes value ended := absurd ended (goesOn value)
  exhausted all failed := by
    obtain ⟨attempt, mem, notFailed⟩ := more all
    exact absurd (failed attempt mem) notFailed

theorem not_failed {attempt : Attempt} (not : ∀ error, attempt ≠ .done (.error error)) : ¬Failed attempt := by
  rintro ⟨error, same⟩
  exact not error same

/-- The attempts have come to a value, the last one with success. -/
theorem stands_of_beginRunning (tries : Tries met (.done (.ok ()) :: attempts) past)
    (most : attempts.length < total) (unfolds : beginRunning.Unfolds met late rest) :
    Stands met total (late ++ past) rest (.done (.ok ()) :: attempts) := by
  obtain ⟨_, changes⟩ := beginRunning_changes.unfolds unfolds fun _ _ => trivial
  refine ⟨tries.changes changes, most, fun value ended => ?_, fun _ failed => ?_⟩
  · subst ended
    rcases beginRunning_yields.unfolds unfolds with ⟨rfl, worker, early, entered⟩ | rfl
    · exact .cameUp rfl early entered
    · exact .overtaken rfl
  · exact absurd (failed _ (List.mem_cons_self ..)) (not_failed (by simp))

/-- As many attempts have failed as are allowed. -/
theorem stands_of_giveUp (tries : Tries met (.done (.error error) :: attempts) past)
    (all : attempts.length + 1 = total) (unfolds : (giveUp total error).Unfolds met late rest) :
    Stands met total (late ++ past) rest (.done (.error error) :: attempts) := by
  rcases unfolds.of_step with ⟨rfl, rfl⟩ | ⟨worker, acts, _, entered, ended, rfl⟩
  · refine ⟨tries, Nat.le_of_eq all, fun value ended => ?_, fun _ _ => .inr ⟨error, rfl, .inl rfl⟩⟩
    cases ended
  · obtain ⟨rfl, rfl⟩ := ended.of_done
    have gaveUp := tries.change worker (worker.enter .shutDown)
    refine ⟨gaveUp, Nat.le_of_eq all, fun value ended => ?_, fun _ _ => .inr ⟨error, rfl, .inr ⟨_, rfl⟩⟩⟩
    cases ended
    exact .gaveUp rfl all entered

/-- A further attempt is under way, or has come to something, or has failed. -/
theorem stands_or_failed (earlier : Tries met attempts past) (failed : ∀ attempt ∈ attempts, Failed attempt)
    (count : attempts.length + (left + 1) = total)
    (unfolds : (attemptsToBringUp total (left + 1)).Unfolds met late rest) :
    (∃ attempts, Stands met total (late ++ past) rest attempts) ∨
      ∃ error during since, attemptBringUp.Unfolds met during (.done (.error error)) ∧
        (afterFailure total error left).Unfolds met since rest ∧ late = since ++ during := by
  rcases unfolds.of_bind with ⟨part, first, rfl, goesOn⟩ | ⟨result, during, since, first, second, rfl⟩
  · have made := earlier.attempt failed first
    refine .inl ⟨part :: attempts, .unfinished made ?_ (fun value ended => ?_) fun _ => ?_⟩
    · simp only [List.length_cons]
      omega
    · obtain ⟨mid, ended⟩ := Script.eq_done_of_bind ended
      exact goesOn mid ended
    · exact ⟨part, List.mem_cons_self .., not_failed fun error => goesOn _⟩
  · have made : Tries met (.done result :: attempts) (during ++ past) := earlier.attempt failed first
    rw [List.append_assoc]
    split at second
    · exact .inl ⟨_, stands_of_beginRunning made (by omega) second⟩
    · obtain ⟨rfl, rfl⟩ := second.of_done
      refine .inl ⟨_, made, by simp only [List.length_cons]; omega, fun value ended => ?_, fun _ _ => .inl rfl⟩
      cases ended
      exact .interrupted rfl
    · rename_i error _
      refine .inr ⟨error, during, since, first, ?_, rfl⟩
      cases left with
      | zero => exact second
      | succ left => exact second

/-- After a failed attempt that is not the last one there is a pause, which may be cut short, and then the next
attempt. -/
theorem stands_or_next (made : Tries met (.done (.error error) :: attempts) past) (fewer : attempts.length + 1 < total)
    (unfolds : (afterFailure total error (left + 1)).Unfolds met late rest) :
    Stands met total (late ++ past) rest (.done (.error error) :: attempts) ∨
      ∃ worker next, (attemptsToBringUp total (left + 1)).Unfolds met next rest ∧
        late = next ++ [.changed worker worker] := by
  have pauses {past : Journal Worker} {rest : Attempt} (tries : Tries met (.done (.error error) :: attempts) past)
      (goesOn : ∀ value, rest ≠ .done value) : Stands met total past rest (.done (.error error) :: attempts) :=
    .unfinished tries (Nat.le_of_lt fewer) goesOn fun all => absurd all (Nat.ne_of_lt fewer)
  rcases unfolds.of_step with ⟨rfl, rfl⟩ | ⟨worker, acts, _, _, sleeps, rfl⟩
  · exact .inl (pauses made (by simp))
  · rw [List.append_assoc]
    have looked := made.change worker worker
    rcases sleeps.of_sleep with ⟨rfl, rfl⟩ | ⟨complete, cutShort, goesOn⟩
    · exact .inl (pauses looked (by simp))
    · cases complete with
      | true => exact .inr ⟨worker, acts, goesOn, rfl⟩
      | false =>
        obtain ⟨rfl, rfl⟩ := Script.Unfolds.of_done goesOn
        refine .inl ⟨looked, Nat.le_of_lt fewer, fun value ended => ?_, fun all => absurd all (Nat.ne_of_lt fewer)⟩
        cases ended
        obtain ⟨state, found, stopping⟩ := cutShort rfl
        exact .notAwaited found stopping

/-- Attempts to bring a worker up, after some that have failed. -/
theorem stands_of_attempts (earlier : Tries met attempts past) (failed : ∀ attempt ∈ attempts, Failed attempt)
    (count : attempts.length + (left + 1) = total)
    (unfolds : (attemptsToBringUp total (left + 1)).Unfolds met late rest) :
    ∃ attempts, Stands met total (late ++ past) rest attempts := by
  induction left generalizing attempts past late with
  | zero =>
    rcases stands_or_failed earlier failed count unfolds with stands | ⟨error, during, since, first, gaveUp, rfl⟩
    · exact stands
    · rw [List.append_assoc]
      exact ⟨_, stands_of_giveUp (earlier.attempt failed first) count gaveUp⟩
  | succ left ih =>
    rcases stands_or_failed earlier failed count unfolds with stands | ⟨error, during, since, first, waits, rfl⟩
    · exact stands
    · rw [List.append_assoc]
      have made : Tries met (.done (.error error) :: attempts) (during ++ past) := earlier.attempt failed first
      rcases stands_or_next made (by omega) waits with stands | ⟨worker, next, goesOn, rfl⟩
      · exact ⟨_, stands⟩
      · have allFailed : ∀ attempt ∈ .done (.error error) :: attempts, Failed attempt :=
          List.forall_mem_cons.2 ⟨⟨error, rfl⟩, failed⟩
        rw [List.append_assoc]
        exact ih (made.change worker worker) allFailed (by simp only [List.length_cons]; omega) goesOn

/-- While nobody is told to stop, no attempt is interrupted. -/
theorem Stands.not_interrupted (stands : Stands met total past rest attempts)
    (calm : ∀ worker, met worker → Calm worker) : attempts.head? ≠ some (.done (.error .shuttingDown)) := by
  intro interrupted
  obtain ⟨during, made⟩ := stands.tries.made (List.mem_of_head? interrupted)
  exact attemptBringUp_yields.unfolds (made.imp calm) rfl

/-- When all attempts have failed while nobody was told to stop, nothing comes of them before the last one,
and then the last failure does. -/
theorem Stands.gaveUp (stands : Stands met total past rest attempts)
    (calm : ∀ worker, met worker → Calm worker) (failed : ∀ attempt ∈ attempts, Failed attempt)
    {value : Except WorkerError Unit} (ended : rest = .done value) :
    attempts.length = total ∧ ∃ error worker, attempts.head? = some (.done (.error error)) ∧
      met (enter worker .shutDown) ∧ value = .error (.initialization total error.message) := by
  have notOk (last : attempts.head? = some (.done (.ok ()))) : False :=
    not_failed (by simp) (failed _ (List.mem_of_head? last))
  cases stands.concludes value ended with
  | cameUp last => exact (notOk last).elim
  | overtaken last => exact (notOk last).elim
  | interrupted last => exact absurd last (stands.not_interrupted calm)
  | notAwaited found stopping => cases (calm _ found).goesOn.symm.trans stopping
  | gaveUp last all entered => exact ⟨all, _, _, last, entered, rfl⟩

/-- A new worker is brought up by attempts, any other one is not brought up. -/
theorem bringUp_unfolds (unfolds : bringUp.Unfolds met past rest) :
    (past = [] ∧ rest = bringUp) ∨ ∃ found acts, met found ∧ past = acts ++ [.changed found found.beginBringUp] ∧
      (found.canBegin = false ∧ acts = [] ∧ rest = .done (.error (.invalidState "initialize" found.phase.name)) ∨
        found.canBegin = true ∧
          ∃ attempts, Stands met (max found.settings.maxInitializationAttempts 1) acts rest attempts) := by
  rcases unfolds.of_step with ⟨rfl, rfl⟩ | ⟨found, acts, here, _, goesOn, rfl⟩
  · exact .inl ⟨rfl, rfl⟩
  · refine .inr ⟨found, acts, here, rfl, ?_⟩
    simp only [Script.done_bind] at goesOn
    split at goesOn
    · rename_i canBegin
      obtain ⟨left, count⟩ : ∃ left, max found.settings.maxInitializationAttempts 1 = left + 1 :=
        Nat.exists_eq_succ_of_ne_zero (by omega)
      rw [count] at goesOn ⊢
      obtain ⟨attempts, stands⟩ := stands_of_attempts .none (by simp) (Nat.zero_add _) goesOn
      exact .inr ⟨canBegin, attempts, by simpa using stands⟩
    · rename_i cannot
      obtain ⟨rfl, rfl⟩ := goesOn.of_done
      exact .inl ⟨by simpa using cannot, rfl, rfl⟩

end

end Worker

/-! ## The calls that bring a worker up -/

namespace Duty

/-- Whether the duty begins by bringing the worker up. -/
def BringsUp (duty : Duty) : Prop := duty = .request .bringUp ∨ duty = .run

/-- What such a duty comes to: the answer to its caller, or the process loop. -/
def conclusion : Duty → Except WorkerError Unit → Duty ⊕ Outcome
  | _, .error error => .inr (.failed error)
  | run, .ok () => .inl process
  | _, .ok () => .inr .completed

/-- The rest of such a duty, when the given part of bringing the worker up is left. -/
def concluding (duty : Duty) (part : Worker.Attempt) : Script Worker Duty (Duty ⊕ Outcome) :=
  (script part).bind fun result => .done (duty.conclusion result)

theorem behaviour_of_bringsUp {duty : Duty} (brings : duty.BringsUp) :
    behaviour duty = duty.concluding Worker.bringUp := by
  rcases brings with rfl | rfl
  · show (script (Worker.bringUp.bind fun result => .done (Outcome.ofResult (fun _ => .completed) result))).bind
      (fun outcome => .done (.inr outcome : Duty ⊕ Outcome)) = _
    unfold concluding script
    rw [Script.embed_bind, Script.bind_assoc]
    congr 1
    funext result
    cases result <;> rfl
  · show (script Worker.bringUp).bind _ = (script Worker.bringUp).bind _
    congr 1
    funext result
    cases result <;> rfl

theorem conclusion_eq_ok {duty : Duty} {result : Except WorkerError Unit}
    (same : duty.conclusion result = duty.conclusion (.ok ())) : result = .ok () := by
  cases result with
  | error error => cases duty <;> cases same
  | ok _ => rfl

/-- Such a duty ends with what bringing the worker up ends with. -/
theorem eq_done_of_concluding {duty : Duty} {part : Worker.Attempt} {ending : Duty ⊕ Outcome}
    (ended : duty.concluding part = .done ending) : ∃ value, part = .done value ∧ ending = duty.conclusion value := by
  cases part with
  | done value =>
    cases ended
    exact ⟨value, rfl, rfl⟩
  | _ => cases ended

/-- The history of a duty that brings the worker up is one of bringing it up. -/
theorem unfolds_of_bringsUp {duty : Duty} {met : Worker → Prop} {past : Journal Worker}
    {rest : Script Worker Duty (Duty ⊕ Outcome)} (brings : duty.BringsUp)
    (unfolds : (behaviour duty).Unfolds met past rest) :
    ∃ part, Worker.bringUp.Unfolds met past part ∧ rest = duty.concluding part := by
  rw [behaviour_of_bringsUp brings] at unfolds
  rcases unfolds.of_bind with ⟨part, first, rfl, _⟩ | ⟨value, early, late, first, second, rfl⟩
  · obtain ⟨inner, upTo, rfl⟩ := Script.Unfolds.of_embed first
    exact ⟨inner, upTo, rfl⟩
  · obtain ⟨inner, upTo, same⟩ := Script.Unfolds.of_embed first
    obtain ⟨rfl, rfl⟩ := second.of_done
    refine ⟨inner, upTo, ?_⟩
    rw [concluding, script, ← same]
    rfl

end Duty

end LeaseFleet
