import LeaseFleet.Proofs.Fleet.DutyDeeds

/-!
# Taking up leases and handing them back

At one place, a thread that adopts leases, one that stops the coordinator, and the jobs that give
single leases back have marks that say which leases they have to do with. This is a discipline
(`carryingDiscipline`) that leaves all other threads free. An adoption acquires each lease of its
listing once at most, and holds what it has acquired. If its last look shows that the coordinator was
stopped, it hands everything back; only a failed acquisition ends it without that look.
-/

namespace LeaseFleet

/-- What a thread has on its hands when it takes up leases or hands them back. -/
inductive Burden where
  /-- It has done nothing yet. -/
  | idle
  /-- It may acquire these leases, one after another. -/
  | takes (left : List Lease)
  /-- It has acquired a lease that is not held yet, and may go on with others. -/
  | won (stored : Lease) (left : List Lease)
  /-- An acquisition has failed. -/
  | failed (cause : StoreError)
  /-- It has begun to stop the coordinator and will have it hold nothing. -/
  | stops
  /-- It has to hand back these leases, which are not held any more. -/
  | returns (left : List HeldLease)
  /-- It has to offer this lease back to the table. -/
  | offers (held : HeldLease)
  /-- Nothing is left to be done. -/
  | rests

/-- What a thread for a duty has on its hands at first. -/
def Duty.burden : Duty → Burden
  | .background (.coordinator (.release held)) => .offers held
  | _ => .idle

/-- Whether a duty is to take up leases or to hand them back. -/
def Duty.handsOver : Duty → Bool
  | .request .adopt | .request .stopLoops | .background (.coordinator (.release _)) => true
  | _ => false

/-- A listing names every lease once. -/
def ListsOnce : (query : Query) → query.Reply → Prop
  | .store .list, .ok leases => (leases.map Lease.leaseKey).Nodup
  | _, _ => True

namespace Burden

/-- The mark after an attempt to acquire a lease. -/
def attempted (left : List Lease) : Except StoreError UpdateOutcome → Burden
  | .ok (.updated stored) => won stored left
  | .ok _ => takes left
  | .error cause => failed cause

/-- The questions that are open: an adoption lists the leases and tries to acquire the listed ones,
and a release offers its lease. -/
def Asks (duty : Duty) (mark : Burden) : (query : Query) → query.Reply → Burden → Prop
  | .store .list, .ok leases, after => duty = .request .adopt ∧ mark = idle ∧ after = takes leases
  | .store .list, .error _, after => mark = idle ∧ after = idle
  | .store (.update proposal expected), reply, after =>
    (∃ lease left, mark = takes (lease :: left) ∧ proposal.leaseKey = lease.leaseKey ∧
      after = attempted left reply) ∨
    ∃ held, mark = offers held ∧ proposal = Coordinator.released held.lease ∧
      expected = held.lease.counter ∧ after = rests
  | .store _, _, _ => False
  | _, _, after => after = mark

/-- The changes of a coordinator that are open. -/
inductive Steps (duty : Duty) : Burden → Coordinator → Coordinator → Burden → Prop
  | stay {mark before now} (held : now.held = before.held) (stopping : now.stopping = before.stopping) :
    Steps duty mark before now mark
  /-- An adoption picks leases out of its listing. -/
  | pick {left picked before now} (fewer : picked.Sublist left) (same : now = before) :
    Steps duty (takes left) before now (takes picked)
  | hold {stored left before now} (token : Token) (time : Nat) (changed : now = before.hold stored token time) :
    Steps duty (won stored left) before now (takes left)
  /-- An adoption finds that the coordinator was not stopped. -/
  | settle {left before now} (running : before.stopping = false) (same : now = before) :
    Steps duty (takes left) before now rests
  | stop {before now} (asked : duty = .request .stopLoops) (changed : now = { before with stopping := true }) :
    Steps duty idle before now (if before.stopping then rests else stops)
  | clear {mark before now} (open_ : mark = stops ∨ ∃ left, mark = takes left) (changed : now = before.dropAll) :
    Steps duty mark before now (returns before.held.values)

/-- The jobs that may be started. -/
inductive Starts : Burden → CoordinatorJob → Burden → Burden → Prop
  | release {held : HeldLease} {left : List HeldLease} :
    Starts (returns (held :: left)) (.release held) (offers held) (returns left)

/-- How a duty may end: with nothing left, or with the failure of an acquisition. An adoption may fail
before it has listed the leases. -/
def Finishes (duty : Duty) : Burden → Outcome → Prop
  | idle, _ => duty = .request .adopt
  | failed cause, result => result = .failed (.store cause)
  | returns left, _ => left = []
  | rests, _ => True
  | _, _ => False

end Burden

/-- The rules for taking up leases and handing them back. -/
def carrying (duty : Duty) : Protocol Coordinator CoordinatorJob Burden where
  hears := ListsOnce
  sees _ := True
  asks := Burden.Asks duty
  steps := Burden.Steps duty
  starts := Burden.Starts

/-- The rules for taking up leases and handing them back, for a whole worker. -/
def workerCarrying (duty : Duty) : Protocol Worker WorkerJob Burden :=
  (carrying duty).within Worker.coordinator WorkerJob.coordinator

/-- The rules of a thread that is free to do anything. -/
def freely : Protocol Worker Duty Burden where
  hears _ _ := True
  sees _ := True
  asks _ _ _ _ := True
  steps _ _ _ _ := True
  starts _ duty child _ := child = duty.burden

/-- The discipline of those who take up leases and hand them back at a place. -/
def carryingDiscipline (place : String) : Discipline Worker Duty Outcome Burden where
  rules there duty :=
    if there = place ∧ duty.handsOver then (workerCarrying duty).within id Duty.background else freely
  idle := .idle
  finishes there duty mark result := there = place → duty.handsOver → mark.Finishes duty result

/-- Who takes up leases or hands them back at the place has rules. -/
theorem carryingDiscipline_rules (place : String) {duty : Duty} (hands : duty.handsOver = true) :
    (carryingDiscipline place).rules place duty = (workerCarrying duty).within id Duty.background :=
  if_pos ⟨rfl, hands⟩

/-- All others are free. -/
theorem carryingDiscipline_rules_free {place there : String} {duty : Duty}
    (other : ¬(there = place ∧ duty.handsOver = true)) : (carryingDiscipline place).rules there duty = freely :=
  if_neg other

theorem Script.follows_freely {α : Type} {wanted : Burden → α → Prop} (script : Script Worker Duty α)
    (any : ∀ mark value, wanted mark value) (mark : Burden) : script.Follows freely wanted mark := by
  have startsAll (duties : List Duty) : freely.StartsAll mark duties (duties.map Duty.burden) mark := by
    induction duties with
    | nil => exact .nil mark
    | cons duty rest ih => exact .cons rfl ih
  induction script with
  | done value => exact any mark value
  | ask query next ih => exact fun reply _ => ⟨mark, trivial, ih reply⟩
  | step ready change next ih => exact fun state _ _ => ⟨mark, trivial, ih state⟩
  | sleep millis stopped next ih => exact fun complete => ih complete
  | spawn duty next ih => exact ⟨_, mark, rfl, ih⟩
  | gather duties next ih => exact ⟨_, mark, startsAll duties, ih⟩

/-! ## The scripts -/

namespace Coordinator

variable {duty : Duty} {mark : Burden} {α : Type} {wanted : Burden → α → Prop}

theorem look_carrying {next : Coordinator → CoordinatorScript α}
    (rest : ∀ state, (next state).Follows (carrying duty) wanted mark) :
    (Script.look.bind next).Follows (carrying duty) wanted mark :=
  fun state _ _ => ⟨mark, .stay rfl rfl, rest state⟩

theorem record_carrying (measurement : Measurement) :
    (Script.record measurement : CoordinatorScript Unit).Returns (carrying duty) mark :=
  fun _ _ => ⟨mark, rfl, rfl⟩

/-- What was acquired is held. -/
theorem holdStored_carrying (stored : Lease) (left : List Lease) :
    (holdStored stored).Follows (carrying duty) (fun after _ => after = .takes left) (.won stored left) := by
  intro token _
  refine ⟨_, rfl, fun now _ => ⟨_, rfl, fun state _ _ => ⟨.takes left, .hold token now rfl, ?_⟩⟩⟩
  exact (record_carrying _).bind fun _ => record_carrying _

theorem acquire_carrying (lease : Lease) (left : List Lease) :
    (acquire lease).Follows (carrying duty)
      (fun after result => (∃ won, result = .ok won ∧ after = .takes left) ∨
        ∃ cause, result = .error (.store cause) ∧ after = .failed cause) (.takes (lease :: left)) := by
  refine look_carrying fun state => (Script.follows_bind ..).2 fun reply _ => ?_
  have tries (reply : Except StoreError UpdateOutcome) :
      Burden.Asks duty (.takes (lease :: left))
        (.store (.update (lease.transferredTo (some state.workerId)) lease.counter)) reply (.attempted left reply) :=
    .inl ⟨lease, left, rfl, rfl, rfl⟩
  cases reply with
  | error cause => exact ⟨_, tries (.error cause), .inr ⟨cause, rfl, rfl⟩⟩
  | ok outcome =>
    cases outcome with
    | updated stored =>
      refine ⟨_, tries (.ok (.updated stored)), ?_⟩
      refine (Script.follows_bind ..).2 ((holdStored_carrying stored left).imp ?_)
      rintro after _ rfl
      exact .inl ⟨true, rfl, rfl⟩
    | versionConflict => exact ⟨_, tries (.ok .versionConflict), .inl ⟨false, rfl, rfl⟩⟩
    | notFound => exact ⟨_, tries (.ok .notFound), .inl ⟨false, rfl, rfl⟩⟩

/-- Leases are acquired one after another until one cannot be had for a failure of the store. -/
theorem acquireAll_carrying (leases : List Lease) :
    (acquireAll leases).Follows (carrying duty)
      (fun after result => result = .ok () ∧ after = .takes [] ∨
        ∃ cause, result = .error (.store cause) ∧ after = .failed cause) (.takes leases) := by
  induction leases with
  | nil => exact .inl ⟨rfl, rfl⟩
  | cons lease rest ih =>
    refine (Script.follows_bind ..).2 ((acquire_carrying lease rest).imp ?_)
    rintro after result (⟨won, rfl, rfl⟩ | ⟨cause, rfl, rfl⟩)
    · exact ih
    · exact .inr ⟨cause, rfl, rfl⟩

/-- Releases may be started for all leases that are to be handed back. -/
theorem startsAll_releases (left : List HeldLease) :
    (carrying duty).StartsAll (.returns left) (left.map .release) (left.map .offers) (.returns []) := by
  induction left with
  | nil => exact .nil _
  | cons held rest ih => exact .cons .release ih

theorem releaseAll_carrying (open_ : mark = .stops ∨ ∃ left, mark = .takes left) :
    releaseAll.Follows (carrying duty) (fun after _ => after = .returns []) mark := by
  intro state _ _
  refine ⟨_, .clear open_ rfl, _, _, startsAll_releases _, ?_⟩
  exact record_carrying _

theorem scan_carrying (leases : List Lease) : (scan leases).Returns (carrying duty) mark :=
  fun _ _ => ⟨mark, rfl, fun _ _ _ => ⟨mark, .stay rfl rfl, rfl⟩⟩

/-- How an adoption ends: it has nothing on its hands, or an acquisition has failed. -/
theorem adopt_carrying :
    adopt.Follows (carrying (.request .adopt))
      (fun after result => after = .idle ∨ after = .returns [] ∨ after = .rests ∨
        ∃ cause, result = .error (.store cause) ∧ after = .failed cause) .idle := by
  have listed : (store .list).Follows (carrying (.request .adopt))
      (fun after result => after = .idle ∧ (∃ error, result = .error error) ∨
        ∃ leases, result = .ok leases ∧ after = .takes leases) .idle := by
    refine look_carrying fun state => state.retry.store_follows stopping ?_ ?_ ?_
    · exact fun leases _ => ⟨.takes leases, ⟨rfl, rfl, rfl⟩, .inr ⟨leases, rfl, rfl⟩⟩
    · exact fun error _ => ⟨⟨rfl, rfl⟩, fun reason => .inl ⟨rfl, reason, rfl⟩⟩
    · exact fun _ _ _ => rfl
  refine (Script.follows_bind ..).2 (listed.imp ?_)
  rintro after result (⟨rfl, error, rfl⟩ | ⟨leases, rfl, rfl⟩)
  · exact .inl rfl
  · refine (scan_carrying leases).bind fun _ state _ _ => ?_
    refine ⟨.takes (leases.filter (·.isOwnedBy state.workerId)), .pick List.filter_sublist rfl, ?_⟩
    simp only [Script.done_bind]
    refine (Script.follows_bind ..).2 ((acquireAll_carrying _).imp ?_)
    rintro after result (⟨rfl, rfl⟩ | ⟨cause, rfl, rfl⟩)
    · intro state _ _
      cases stopped : state.stopping with
      | true =>
        refine ⟨.takes [], .stay rfl rfl, ?_⟩
        simp only [Script.done_bind, stopped, if_true]
        refine (Script.follows_bind ..).2 ((releaseAll_carrying (.inr ⟨[], rfl⟩)).imp ?_)
        rintro after _ rfl
        exact .inr (.inl rfl)
      | false =>
        refine ⟨.rests, .settle stopped rfl, ?_⟩
        simp only [Script.done_bind, stopped]
        exact .inr (.inr (.inl rfl))
    · exact .inr (.inr (.inr ⟨cause, rfl, rfl⟩))

/-- A stop that comes first hands everything back; a further one has nothing to do. -/
theorem stop_carrying :
    stop.Follows (carrying (.request .stopLoops)) (fun after _ => after = .returns [] ∨ after = .rests) .idle := by
  intro state _ _
  refine ⟨_, .stop rfl rfl, ?_⟩
  cases stopped : state.stopping with
  | true =>
    simp only [Script.done_bind, stopped, if_true]
    exact .inr rfl
  | false =>
    simp only [Script.done_bind, stopped]
    refine fun later _ _ => ⟨.stops, .stay rfl rfl, ?_⟩
    refine (releaseAll_carrying (.inl rfl)).imp ?_
    exact fun after _ same => .inl same

theorem releaseOne_carrying (held : HeldLease) :
    (releaseOne held).Follows (carrying duty) (fun after _ => after = .rests) (.offers held) :=
  fun _ _ => ⟨.rests, .inr ⟨held, rfl, rfl, rfl, rfl⟩, rfl⟩

end Coordinator

/-! ## The duties -/

section

variable {place : String} {duty : Duty} {mark : Burden} {α : Type} {wanted : Burden → α → Prop}

theorem keeping_carrying {script : CoordinatorScript α} (follows : script.Follows (carrying duty) wanted mark) :
    (Worker.keeping script).Follows (workerCarrying duty) wanted mark :=
  Script.Follows.within Worker.coordinatorPart (fun _ _ => rfl) follows

theorem script_carrying {script : WorkerScript α} (hands : duty.handsOver = true)
    (follows : script.Follows (workerCarrying duty) wanted mark) :
    (Duty.script script).Follows ((carryingDiscipline place).rules place duty) wanted mark := by
  rw [carryingDiscipline_rules place hands]
  exact Script.Follows.within { get := id, put := fun worker _ => worker } (fun _ _ => rfl) follows

theorem adopt_keeps_carrying :
    (carryingDiscipline place).Keeps place (.request .adopt) (Duty.behaviour (.request .adopt)) .idle := by
  have performs : (Request.perform .adopt).Follows (workerCarrying (.request .adopt))
      (fun after result => after.Finishes (.request .adopt) result) .idle := by
    refine (Script.follows_bind ..).2 ((keeping_carrying Coordinator.adopt_carrying).imp ?_)
    rintro after result (rfl | rfl | rfl | ⟨cause, rfl, rfl⟩)
    · exact rfl
    · exact rfl
    · trivial
    · exact rfl
  refine (Script.follows_bind ..).2 ((script_carrying rfl performs).imp ?_)
  exact fun after result finishes _ _ => finishes

theorem stop_keeps_carrying :
    (carryingDiscipline place).Keeps place (.request .stopLoops) (Duty.behaviour (.request .stopLoops)) .idle := by
  have performs : (Request.perform .stopLoops).Follows (workerCarrying (.request .stopLoops))
      (fun after result => after.Finishes (.request .stopLoops) result) .idle := by
    refine (Script.follows_bind ..).2 ((keeping_carrying Coordinator.stop_carrying).imp ?_)
    rintro after result (rfl | rfl)
    · exact rfl
    · trivial
  refine (Script.follows_bind ..).2 ((script_carrying rfl performs).imp ?_)
  exact fun after result finishes _ _ => finishes

theorem release_keeps_carrying (held : HeldLease) :
    (carryingDiscipline place).Keeps place (.background (.coordinator (.release held)))
      (Duty.behaviour (.background (.coordinator (.release held)))) (.offers held) := by
  have performs : (Worker.perform (.coordinator (.release held))).Follows
      (workerCarrying (.background (.coordinator (.release held))))
      (fun after next => next = none ∧ after = .rests) (.offers held) := by
    have offers : (Coordinator.perform (.release held)).Follows
        (carrying (.background (.coordinator (.release held))))
        (fun after next => next = none ∧ after = .rests) (.offers held) :=
      (Script.follows_bind ..).2 ((Coordinator.releaseOne_carrying held).imp fun _ _ same => ⟨rfl, same⟩)
    refine (Script.follows_bind ..).2 ((keeping_carrying offers).imp ?_)
    rintro after next ⟨rfl, rfl⟩
    exact ⟨rfl, rfl⟩
  refine (Script.follows_bind ..).2 ((script_carrying rfl performs).imp ?_)
  rintro after next ⟨rfl, rfl⟩
  exact fun _ _ => trivial

/-- Every duty keeps to the discipline from its first mark. -/
theorem behaviour_carrying (there : String) (duty : Duty) :
    (carryingDiscipline place).Keeps there duty (Duty.behaviour duty) duty.burden := by
  by_cases ours : there = place ∧ duty.handsOver = true
  · obtain ⟨rfl, hands⟩ := ours
    unfold Duty.handsOver at hands
    split at hands
    · exact adopt_keeps_carrying
    · exact stop_keeps_carrying
    · exact release_keeps_carrying _
    · cases hands
  · have rules := carryingDiscipline_rules_free ours
    unfold Discipline.Keeps
    rw [rules]
    refine Script.follows_freely _ (fun mark ending => ?_) _
    cases ending with
    | inl next => exact ⟨next.burden, by rw [rules]; rfl⟩
    | inr result => exact fun atPlace hands => absurd ⟨atPlace, hands⟩ ours

/-- Whatever is asked of the workers from outside keeps to the discipline. -/
theorem carryingDiscipline_obeyed :
    (carryingDiscipline place).Obeyed Duty.behaviour fun duty => duty.background? = none where
  begun there duty asked := by
    have idle : duty.burden = .idle := by
      cases duty with
      | background job => cases asked
      | _ => rfl
    have keeps : (carryingDiscipline place).Keeps there duty (Duty.behaviour duty) duty.burden :=
      behaviour_carrying there duty
    rwa [idle] at keeps
  started {there duty mark next child after} starts := by
    suffices first : child = next.burden from first ▸ behaviour_carrying there next
    by_cases ours : there = place ∧ duty.handsOver = true
    · obtain ⟨rfl, hands⟩ := ours
      rw [carryingDiscipline_rules there hands] at starts
      obtain ⟨worker, rfl, job, rfl, isOpen⟩ := starts
      cases isOpen
      rfl
    · rw [carryingDiscipline_rules_free ours] at starts
      exact starts

end

end LeaseFleet
