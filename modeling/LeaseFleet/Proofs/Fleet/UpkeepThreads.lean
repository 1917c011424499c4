import LeaseFleet.Proofs.Fleet.LeaseDeeds
import LeaseFleet.Proofs.Interleaving.Discipline
import LeaseFleet.Worker.Duty

/-!
# The upkeep of held leases

A worker that renews what it holds and stores checkpoints, and does nothing else, has threads that
take copies of held leases, write them back under fencing and then note the outcome. This is a
discipline (`upkeepDiscipline`) whose marks say how far a thread is with that. The worker notes an
applied write by its new version and a refused one by dropping the lease, whoever has caused the
refusal.
-/

namespace LeaseFleet

/-- How far a thread is with the upkeep of held leases. -/
inductive Stage where
  /-- It may write any of these copies. -/
  | reads (copies : HeldLease → Prop)
  /-- The write of a copy was applied, and the worker has yet to note what is stored. -/
  | wrote (held : HeldLease) (stored : Lease)
  /-- The write of a copy was refused, and the worker has yet to drop the lease. -/
  | refused (held : HeldLease)
  /-- The worker has noted whether the lease is still held. -/
  | noted (kept : Bool)

/-- Whether a duty is to write a held lease by a deed. -/
def Duty.Tends (deed : Deed) (held : HeldLease) : Duty → Prop
  | .background (.coordinator (.renewal base)) => deed = .renew ∧ held = base
  | .request (.checkpoint leaseKey token position) =>
    deed = .checkpoint position ∧ held.lease.leaseKey = leaseKey ∧ held.token = token
  | _ => False

/-- What may be asked of a worker that only keeps up what it holds. -/
def Duty.IsUpkeep : Duty → Prop
  | .request .renew | .request (.checkpoint _ _ _) => True
  | .background (.coordinator .renewalLoop) => True
  | _ => False

instance : DecidablePred Duty.IsUpkeep
  | .request .renew | .request (.checkpoint _ _ _) => isTrue trivial
  | .background (.coordinator .renewalLoop) => isTrue trivial
  | .request .adopt | .request .take | .request .rebalance | .request .startLoops => isFalse id
  | .request .stopLoops | .request .isLeader | .request .bringUp => isFalse id
  | .request .shutdown | .request .processOnce | .request .shouldFillTable => isFalse id
  | .request (.engage _) | .request (.dismissOthers _) | .request (.report _) => isFalse id
  | .request (.lookup _) | .run | .process => isFalse id
  | .background (.coordinator (.renewal _)) | .background (.coordinator (.release _)) => isFalse id
  | .background (.coordinator .takingLoop) => isFalse id
  | .background (.coordinator .rebalanceLoop) => isFalse id
  | .background (.consume _) | .background .captureLoop | .background .reportLoop => isFalse id

/-- Leases are held under their own keys. -/
def Coordinator.Keyed (state : Coordinator) : Prop :=
  ∀ {leaseKey held}, state.held.get? leaseKey = some held → held.lease.leaseKey = leaseKey

/-- The answers to store calls that do not fail. -/
def Succeeds : (query : Query) → query.Reply → Prop
  | .store _, .error _ => False
  | _, _ => True

namespace Stage

/-- The stage after the write of a copy. -/
def ofOutcome (held : HeldLease) : UpdateOutcome → Stage
  | .updated stored => wrote held stored
  | _ => refused held

/-- The questions that are open: of the calls only the write of a copy, as the duty wants it. -/
def Asks (duty : Duty) (stage : Stage) : (query : Query) → query.Reply → Stage → Prop
  | .store (.update proposal expected), .ok outcome, after =>
    ∃ copies deed held, stage = reads copies ∧ copies held ∧ duty.Tends deed held ∧
      proposal = deed.propose held.lease ∧ expected = held.lease.counter ∧
        after = ofOutcome held outcome
  | .store _, _, _ => False
  | _, _, after => after = stage

/-- The changes of what a worker holds that are open. -/
inductive Steps (duty : Duty) : Stage → Coordinator → Coordinator → Stage → Prop
  | stay {stage before now} (same : now.held = before.held) : Steps duty stage before now stage
  | read {copies before now} (same : now.held = before.held) :
    Steps duty (reads copies) before now
      (reads fun held => ∃ leaseKey, before.held.get? leaseKey = some held)
  /-- The lease is not held any more under the token of a request. -/
  | missing {copies before now leaseKey token position} (same : now.held = before.held)
      (asked : duty = .request (.checkpoint leaseKey token position))
      (without : before.holds leaseKey token = false) :
    Steps duty (reads copies) before now (noted false)
  | confirm {held stored before now} (time : Nat)
      (changed : now = before.confirm held.lease.leaseKey held.token stored time) :
    Steps duty (wrote held stored) before now (noted (before.holds held.lease.leaseKey held.token))
  | drop {held before now} (changed : now = before.drop held.lease.leaseKey held.token) :
    Steps duty (refused held) before now (noted false)

/-- The jobs that may be started. -/
inductive Starts : Stage → CoordinatorJob → Stage → Stage → Prop
  | renewal {copies : HeldLease → Prop} {held : HeldLease} (copy : copies held) :
    Starts (reads copies) (.renewal held) (reads fun other => other = held) (reads copies)
  | again {copies : HeldLease → Prop} :
    Starts (reads copies) .renewalLoop (reads copies) (reads copies)

/-- Whether nothing is left to be noted. -/
def Rests : Stage → Prop
  | reads _ | noted _ => True
  | wrote _ _ | refused _ => False

/-- The results with which a duty may end: a checkpoint tells what was noted. -/
def Finishes (stage : Stage) (result : Outcome) : Duty → Prop
  | .request (.checkpoint _ _ _) => ∃ kept, stage = noted kept ∧ result = .truth kept
  | _ => stage.Rests

end Stage

/-- The rules for the upkeep of held leases. -/
def upkeep (duty : Duty) : Protocol Coordinator CoordinatorJob Stage where
  hears := Succeeds
  sees := Coordinator.Keyed
  asks := Stage.Asks duty
  steps := Stage.Steps duty
  starts := Stage.Starts

/-- The rules for the upkeep of held leases, for a whole worker. -/
def workerUpkeep (duty : Duty) : Protocol Worker WorkerJob Stage :=
  (upkeep duty).within Worker.coordinator WorkerJob.coordinator

/-- The discipline of workers that only keep up what they hold. -/
def upkeepDiscipline : Discipline Worker Duty Outcome Stage where
  rules _ duty := (workerUpkeep duty).within id Duty.background
  idle := .reads fun _ => False
  finishes _ duty stage result := stage.Finishes result duty

/-! ## Elementary actions -/

namespace Coordinator

variable {duty : Duty} {stage : Stage} {copies : HeldLease → Prop} {held : HeldLease} {α : Type}
  {wanted : Stage → α → Prop}

theorem look_upkeep {next : Coordinator → CoordinatorScript α}
    (rest : ∀ state : Coordinator, state.Keyed → (next state).Follows (upkeep duty) wanted stage) :
    (Script.look.bind next).Follows (upkeep duty) wanted stage := by
  intro state keyed _
  exact ⟨stage, .stay rfl, rest state keyed⟩

theorem record_upkeep (measurement : Measurement) :
    (Script.record measurement : CoordinatorScript Unit).Returns (upkeep duty) stage :=
  fun _ _ => ⟨stage, rfl, rfl⟩

/-- A store call that carries out a deed on a copy ends with the stage after its outcome. -/
theorem store_upkeep (deed : Deed) (copy : copies held) (tends : duty.Tends deed held) :
    (store (.update (deed.propose held.lease) held.lease.counter)).Follows (upkeep duty)
      (fun after result => ∃ outcome, result = .ok outcome ∧ after = .ofOutcome held outcome)
      (.reads copies) := by
  refine look_upkeep fun state _ => state.retry.store_follows stopping ?_ ?_ ?_
  · intro outcome _
    exact ⟨_, ⟨copies, deed, held, rfl, copy, tends, rfl, rfl, rfl⟩, outcome, rfl, rfl⟩
  · intro error succeeds
    exact succeeds.elim
  · intro low high reply
    rfl

/-- Whatever came of a write is noted. -/
theorem applyWrite_upkeep (held : HeldLease) (outcome : UpdateOutcome) :
    (applyWrite held.lease.leaseKey held.token outcome).Follows (upkeep duty)
      (fun after kept => after = .noted kept) (.ofOutcome held outcome) := by
  have lost : (do
      Script.count .leasesLost 1
      dropHeld held.lease.leaseKey held.token
      return false : CoordinatorScript Bool).Follows (upkeep duty)
        (fun after kept => after = .noted kept) (.refused held) := by
    refine (record_upkeep _).bind fun _ => ?_
    intro state _ _
    refine ⟨.noted false, .drop rfl, ?_⟩
    intro reply _
    exact ⟨.noted false, rfl, rfl⟩
  cases outcome with
  | updated stored =>
    intro time _
    refine ⟨.wrote held stored, rfl, ?_⟩
    intro state _ _
    exact ⟨_, .confirm time rfl, rfl⟩
  | versionConflict => exact lost
  | notFound => exact lost

/-! ## The scripts -/

theorem renewOne_upkeep (copy : copies held) (tends : duty.Tends .renew held) :
    (renewOne held).Follows (upkeep duty) (fun after _ => after.Rests) (.reads copies) := by
  refine (Script.follows_bind ..).2 ((store_upkeep .renew copy tends).imp ?_)
  rintro after result ⟨outcome, rfl, rfl⟩
  refine (Script.follows_bind ..).2 ((applyWrite_upkeep held outcome).imp ?_)
  rintro after kept rfl
  trivial

theorem updateCheckpoint_upkeep (leaseKey : String) (token : Token) (position : Checkpoint) :
    (updateCheckpoint leaseKey token position).Follows
      (upkeep (.request (.checkpoint leaseKey token position)))
      (fun after result => ∃ kept, result = .ok kept ∧ after = .noted kept) (.reads copies) := by
  intro state keyed _
  cases found : state.held.get? leaseKey with
  | none =>
    have without : state.holds leaseKey token = false := by simp [holds, found]
    refine ⟨.noted false, .missing rfl rfl without, ?_⟩
    simp [found]
  | some held =>
    by_cases same : held.token = token
    · refine ⟨_, .read rfl, ?_⟩
      subst same
      obtain rfl : held.lease.leaseKey = leaseKey := keyed found
      simp only [Script.done_bind, found, if_true]
      refine (Script.follows_bind ..).2 ((store_upkeep (.checkpoint position) ?_ ?_).imp ?_)
      · exact ⟨held.lease.leaseKey, found⟩
      · exact ⟨rfl, rfl, rfl⟩
      · rintro after result ⟨outcome, rfl, rfl⟩
        refine (Script.follows_bind ..).2 ((applyWrite_upkeep held outcome).imp ?_)
        rintro after kept rfl
        exact ⟨kept, rfl, rfl⟩
    · have without : state.holds leaseKey token = false := by simp [holds, found, same]
      refine ⟨.noted false, .missing rfl rfl without, ?_⟩
      simp [found, same]

/-- Renewals may be started for copies, one after another. -/
theorem startsAll_renewals {base : List HeldLease} (known : ∀ held ∈ base, copies held) :
    ∃ children, (upkeep duty).StartsAll (.reads copies) (base.map .renewal) children
      (.reads copies) := by
  induction base with
  | nil => exact ⟨[], .nil _⟩
  | cons held rest ih =>
    obtain ⟨first, others⟩ := List.forall_mem_cons.1 known
    obtain ⟨children, started⟩ := ih others
    exact ⟨_, .cons (.renewal first) started⟩

theorem renew_upkeep :
    renew.Follows (upkeep duty) (fun after _ => ∃ copies, after = .reads copies) (.reads copies) := by
  intro state _ _
  refine ⟨_, .read rfl, ?_⟩
  obtain ⟨children, started⟩ : ∃ children, (upkeep duty).StartsAll
      (.reads fun held => ∃ leaseKey, state.held.get? leaseKey = some held)
      (state.held.values.map .renewal) children
      (.reads fun held => ∃ leaseKey, state.held.get? leaseKey = some held) :=
    startsAll_renewals fun held mem => SortedMap.mem_values.1 mem
  refine ⟨children, _, started, ?_⟩
  refine look_upkeep fun later _ => (record_upkeep _).imp ?_
  rintro after _ rfl
  exact ⟨_, rfl⟩

/-- A cycle of the renewal loop, after which the next one begins or the loop ends. -/
theorem renewalLoop_upkeep :
    (perform .renewalLoop).Follows (upkeep duty) (fun after next => after.Rests ∧
      ∀ job, next = some job → ∃ child, Stage.Starts after job child child)
      (.reads copies) := by
  refine (Script.follows_bind ..).2 (look_upkeep fun state _ => ?_)
  intro complete
  cases complete with
  | true =>
    refine (Script.follows_bind ..).2 (renew_upkeep.imp ?_)
    rintro after _ ⟨copies, rfl⟩
    refine ⟨trivial, ?_⟩
    rintro job same
    cases same
    exact ⟨_, .again⟩
  | false =>
    intro state _ _
    refine ⟨.reads copies, .stay rfl, trivial, ?_⟩
    intro job same
    cases same

end Coordinator

/-! ## The duties -/

section

variable {place : String} {duty : Duty} {copies : HeldLease → Prop} {stage : Stage} {α : Type}
  {wanted : Stage → α → Prop}

theorem keeping_upkeep {script : CoordinatorScript α}
    (follows : script.Follows (upkeep duty) wanted stage) :
    (Worker.keeping script).Follows (workerUpkeep duty) wanted stage :=
  Script.Follows.within Worker.coordinatorPart (fun _ _ => rfl) follows

theorem script_upkeep {script : WorkerScript α}
    (follows : script.Follows (workerUpkeep duty) wanted stage) :
    (Duty.script script).Follows (upkeepDiscipline.rules place duty) wanted stage :=
  Script.Follows.within { get := id, put := fun worker _ => worker } (fun _ _ => rfl) follows

theorem renew_keeps :
    upkeepDiscipline.Keeps place (.request .renew) (Duty.behaviour (.request .renew))
      (.reads copies) := by
  have performs : (Request.perform .renew).Follows (workerUpkeep (.request .renew))
      (fun after _ => after.Rests) (.reads copies) := by
    refine (Script.follows_bind ..).2 ((keeping_upkeep Coordinator.renew_upkeep).imp ?_)
    rintro after _ ⟨copies, rfl⟩
    trivial
  refine (Script.follows_bind ..).2 ((script_upkeep performs).imp ?_)
  exact fun after result rests => rests

theorem checkpoint_keeps (leaseKey : String) (token : Token) (position : Checkpoint) :
    upkeepDiscipline.Keeps place (.request (.checkpoint leaseKey token position))
      (Duty.behaviour (.request (.checkpoint leaseKey token position))) (.reads copies) := by
  have performs : (Request.perform (.checkpoint leaseKey token position)).Follows
      (workerUpkeep (.request (.checkpoint leaseKey token position)))
      (fun after result => ∃ kept, after = .noted kept ∧ result = .truth kept) (.reads copies) := by
    refine (Script.follows_bind ..).2 ((keeping_upkeep
      (Coordinator.updateCheckpoint_upkeep leaseKey token position)).imp ?_)
    rintro after _ ⟨kept, rfl, rfl⟩
    exact ⟨kept, rfl, rfl⟩
  refine (Script.follows_bind ..).2 ((script_upkeep performs).imp ?_)
  exact fun after result told => told

/-- A background job keeps to the discipline, if its coordinator does and goes on with what may be
started. -/
theorem background_keeps {job : CoordinatorJob}
    (follows : (Coordinator.perform job).Follows (upkeep (.background (.coordinator job)))
      (fun after next => after.Rests ∧
        ∀ job, next = some job → ∃ child, Stage.Starts after job child child) stage) :
    upkeepDiscipline.Keeps place (.background (.coordinator job))
      (Duty.behaviour (.background (.coordinator job))) stage := by
  have performs : (Worker.perform (.coordinator job)).Follows
      (workerUpkeep (.background (.coordinator job)))
      (fun after next => after.Rests ∧ ∀ worker, next = some worker →
        ∃ job, worker = .coordinator job ∧ ∃ child, Stage.Starts after job child child)
      stage := by
    refine (Script.follows_bind ..).2 ((keeping_upkeep follows).imp ?_)
    rintro after next ⟨rests, goesOn⟩
    refine ⟨rests, fun worker same => ?_⟩
    obtain ⟨job, isNext, rfl⟩ := Option.map_eq_some_iff.1 same
    exact ⟨job, rfl, goesOn job isNext⟩
  refine (Script.follows_bind ..).2 ((script_upkeep performs).imp ?_)
  rintro after next ⟨rests, goesOn⟩
  cases next with
  | none => exact rests
  | some worker =>
    obtain ⟨job, rfl, child, starts⟩ := goesOn worker rfl
    exact ⟨child, _, rfl, job, rfl, starts⟩

theorem renewal_keeps (held : HeldLease) :
    upkeepDiscipline.Keeps place (.background (.coordinator (.renewal held)))
      (Duty.behaviour (.background (.coordinator (.renewal held)))) (.reads fun other => other = held) := by
  have tends : (Duty.background (.coordinator (.renewal held))).Tends .renew held := ⟨rfl, rfl⟩
  have renews : (Coordinator.renewOne held).Follows
      (upkeep (.background (.coordinator (.renewal held)))) (fun after _ => after.Rests)
      (.reads fun other => other = held) := Coordinator.renewOne_upkeep rfl tends
  refine background_keeps ((Script.follows_bind ..).2 (renews.imp ?_))
  intro after _ rests
  refine ⟨rests, fun job same => ?_⟩
  cases same

theorem renewalLoop_keeps :
    upkeepDiscipline.Keeps place (.background (.coordinator .renewalLoop))
      (Duty.behaviour (.background (.coordinator .renewalLoop))) (.reads copies) :=
  background_keeps Coordinator.renewalLoop_upkeep

/-- Workers that are asked for the upkeep of what they hold do nothing else. -/
theorem upkeepDiscipline_obeyed : upkeepDiscipline.Obeyed Duty.behaviour Duty.IsUpkeep where
  begun place duty asked := by
    unfold Duty.IsUpkeep at asked
    split at asked
    · exact renew_keeps
    · exact checkpoint_keeps _ _ _
    · exact renewalLoop_keeps
    · exact asked.elim
  started {place duty stage next child after} starts := by
    obtain ⟨worker, rfl, job, rfl, starts⟩ := starts
    cases starts with
    | renewal copy => exact renewal_keeps _
    | again => exact renewalLoop_keeps

end

end LeaseFleet
