import LeaseFleet.Proofs.Fleet.CoordinatorDeeds
import LeaseFleet.Proofs.Interleaving.Discipline
import LeaseFleet.Proofs.Fleet.WorkBesideLeases

/-!
# The discipline of a fleet

Each duty of a worker is for some deeds only (`Deed.IsPartOf`): leases are acquired by those who
take them, moved by those who rebalance, renewed and released by jobs about a held lease, and
checkpointed on request, the last three by the owner. This is a discipline that every duty keeps to
(`fleetDiscipline_obeyed`).
-/

namespace LeaseFleet

deriving instance DecidableEq for CoordinatorJob

deriving instance DecidableEq for WorkerJob

deriving instance DecidableEq for Request

deriving instance DecidableEq for Duty

/-- The job among a worker's background duties, if it is one. -/
def Duty.background? : Duty → Option WorkerJob
  | background job => some job
  | _ => none

/-- Whether a duty is to take leases over. -/
def Duty.Acquires : Duty → Prop
  | request .adopt | request .take | request .bringUp | run => True
  | background (.coordinator .takingLoop) => True
  | _ => False

/-- Whether a deed, done to a version, is part of a duty at a place. -/
def Deed.IsPartOf (duty : Duty) (place : String) (base : Lease) : Deed → Prop
  | acquire worker => worker = place ∧ duty.Acquires
  | renew => base.owner = some place ∧
      ∃ held, held.lease = base ∧ duty = .background (.coordinator (.renewal held))
  | checkpoint position => base.owner = some place ∧
      ∃ token, duty = .request (.checkpoint base.leaseKey token position)
  | release => base.owner = some place ∧
      ∃ held, held.lease = base ∧ duty = .background (.coordinator (.release held))
  | move _ => duty = .request .rebalance ∨ duty = .background (.coordinator .rebalanceLoop)

/-- The rules for a whole worker, where the given deeds are allowed. -/
def workerDealings (worker : String) (may : Deed → Lease → Prop) : Protocol Worker WorkerJob Knowledge :=
  (dealings worker may).along Worker.coordinator WorkerJob.coordinator?

/-- A thread of a fleet knows the versions that it may use, and does the deeds of its duty. -/
def fleetDiscipline : Discipline Worker Duty Outcome Knowledge where
  rules place duty :=
    (workerDealings place fun deed base => deed.IsPartOf duty place base).along id Duty.background?
  idle _ := False
  finishes _ _ _ _ := True

section

variable {worker : String} {may : Deed → Lease → Prop} {known : Knowledge}

theorem honest_of_not_update {question : Query} (other : question.isUpdate = false) :
    Honest may known question := by
  unfold Honest
  split
  · cases other
  · trivial

theorem workerDealings_tolerant (worker : String) (may : Deed → Lease → Prop) :
    Tolerant (workerDealings worker may) where
  asks _ _ _ other := ⟨honest_of_not_update other, fun _ => .inl⟩
  steps _ {before after} same := by
    refine ⟨⟨?_, fun found => .inl ?_⟩, fun _ => .inl⟩
    · rw [same]
    · rwa [same] at found
  starts mark job none := by simp [workerDealings, Protocol.along, none]

theorem keeping_follows {α : Type} {wanted : Knowledge → α → Prop} {script : CoordinatorScript α}
    (follows : script.Follows (dealings worker may) wanted known) :
    (Worker.keeping script).Follows (workerDealings worker may) wanted known :=
  Script.Follows.embed (dealings worker may) (fun _ _ => id) (fun _ => id) (fun _ _ _ _ => id)
    (fun _ _ _ _ => id) (fun _ _ _ _ => id) follows

theorem keeping_safe {α : Type} {script : CoordinatorScript α}
    (safe : script.Safe (dealings worker may)) :
    (Worker.keeping script).Safe (workerDealings worker may) :=
  fun mark => keeping_follows (safe mark)

/-- The deeds that a request is for are allowed. -/
def Request.Permits (worker : String) (may : Deed → Lease → Prop) : Request → Prop
  | adopt | take | bringUp => ∀ lease, may (.acquire worker) lease
  | rebalance => ∀ target lease, may (.move target) lease
  | checkpoint leaseKey _ position =>
    ∀ lease : Lease, lease.Belongs worker leaseKey → may (.checkpoint position) lease
  | _ => True

theorem bringUp_safe (allowed : ∀ lease, may (.acquire worker) lease) :
    Worker.bringUp.Safe (workerDealings worker may) :=
  (workerDealings_tolerant worker may).bringUp_safe (keeping_safe (Coordinator.adopt_safe allowed))
    (keeping_safe Coordinator.start_safe)

theorem processOnce_returns : Worker.processOnce.Returns (workerDealings worker may) known :=
  (workerDealings_tolerant worker may).processOnce_returns (keeping_follows Coordinator.isLeader_returns)

/-- What is asked of a worker is done by the rules. -/
theorem Request.perform_safe {asked : Request} (permits : asked.Permits worker may) :
    asked.perform.Safe (workerDealings worker may) := by
  have tolerant := workerDealings_tolerant worker may
  cases asked with
  | adopt => exact (keeping_safe (Coordinator.adopt_safe permits)).bind fun _ => Script.safe_done _
  | take => exact (keeping_safe (Coordinator.take_safe permits)).bind fun _ => Script.safe_done _
  | renew => exact (keeping_safe Coordinator.renew_safe).bind fun _ => Script.safe_done _
  | rebalance =>
    exact (keeping_safe (Coordinator.rebalance_safe permits)).bind fun _ => Script.safe_done _
  | startLoops => exact (keeping_safe Coordinator.start_safe).bind fun _ => Script.safe_done _
  | stopLoops => exact (keeping_safe Coordinator.stop_safe).bind fun _ => Script.safe_done _
  | isLeader =>
    exact fun mark =>
      Script.Returns.bind (keeping_follows Coordinator.isLeader_returns) fun _ => trivial
  | checkpoint leaseKey token position =>
    exact (keeping_safe (Coordinator.updateCheckpoint_safe leaseKey token position permits)).bind
      fun _ => Script.safe_done _
  | bringUp => exact (bringUp_safe permits).bind fun _ => Script.safe_done _
  | shutdown =>
    exact (tolerant.shutdown_safe (keeping_safe Coordinator.stop_safe)).bind
      fun _ => Script.safe_done _
  | processOnce => exact fun mark => processOnce_returns.bind fun _ => trivial
  | shouldFillTable => exact fun mark => tolerant.shouldFillTable_returns.bind fun _ => trivial
  | engage shard => exact fun mark => (tolerant.consumerFor_returns shard).bind fun _ => trivial
  | dismissOthers keep =>
    exact fun mark => (tolerant.dismissOthers_returns keep).bind fun _ => trivial
  | report rejection =>
    exact fun mark => (tolerant.reportRejection_returns rejection).bind fun _ => trivial
  | lookup leaseKey =>
    intro mark
    refine (tolerant.query_returns (.store .list) rfl).bind fun reply => ?_
    cases reply <;> trivial

end

/-- A duty that is about a held lease carries what it needs. -/
def Duty.Carries (place : String) (known : Knowledge) (duty : Duty) : Prop :=
  ∀ job, duty = .background (.coordinator job) → job.Carries place known

section

variable {place : String} {duty : Duty} {known : Knowledge}

/-- The script of a worker among its duties. -/
theorem script_follows {α : Type} {wanted : Knowledge → α → Prop} {script : WorkerScript α}
    (follows : script.Follows (workerDealings place fun deed base => deed.IsPartOf duty place base)
      wanted known) :
    (Duty.script script).Follows (fleetDiscipline.rules place duty) wanted known :=
  Script.Follows.embed _ (fun _ _ => id) (fun _ => id) (fun _ _ _ _ => id) (fun _ _ _ _ => id)
    (fun _ _ _ _ => id) follows

/-- A duty that is not in the background may always be started. -/
theorem starts_of_not_background {next : Duty} (other : next.background? = none) :
    (fleetDiscipline.rules place duty).starts known next known known := by
  simp [fleetDiscipline, Protocol.along, other]

/-- A new thread knows no more than the one that starts it. -/
theorem starts_subset {next : Duty} {child after : Knowledge}
    (starts : (fleetDiscipline.rules place duty).starts known next child after) :
    (∀ lease, child lease → known lease) ∧ ∀ lease, after lease → known lease := by
  cases background : next.background? with
  | none =>
    obtain ⟨rfl, rfl⟩ : child = known ∧ after = known := by
      simpa [fleetDiscipline, Protocol.along, background] using starts
    exact ⟨fun _ => id, fun _ => id⟩
  | some job =>
    cases inner : job.coordinator? with
    | none =>
      obtain ⟨rfl, rfl⟩ : child = known ∧ after = known := by
        simpa [fleetDiscipline, workerDealings, Protocol.along, background, inner] using starts
      exact ⟨fun _ => id, fun _ => id⟩
    | some inner' =>
      have open_ : (dealings place fun deed base => deed.IsPartOf duty place base).starts known inner'
          child after := by
        simpa [fleetDiscipline, workerDealings, Protocol.along, background, inner] using starts
      exact open_.2

theorem request_permits (place : String) (asked : Request) :
    asked.Permits place fun deed base => deed.IsPartOf (.request asked) place base := by
  cases asked with
  | adopt | take | bringUp => exact fun _ => ⟨rfl, trivial⟩
  | rebalance => exact fun _ _ => .inl rfl
  | checkpoint leaseKey token position =>
    intro lease belongs
    exact ⟨belongs.owner, token, by rw [belongs.key]⟩
  | _ => trivial

theorem job_permits {job : CoordinatorJob} (carries : job.Carries place known) :
    Coordinator.Permits place
      (fun deed base => deed.IsPartOf (.background (.coordinator job)) place base) job := by
  cases job with
  | renewal held | release held => exact ⟨carries.2, held, rfl, rfl⟩
  | renewalLoop => trivial
  | takingLoop => exact fun _ => ⟨rfl, trivial⟩
  | rebalanceLoop => exact fun _ _ => .inr rfl

/-- What a background job does is done by the rules, and so is what follows it. -/
theorem workerPerform_follows {job : WorkerJob} {may : Deed → Lease → Prop}
    (allowed : ∀ inner, job = .coordinator inner →
      inner.Carries place known ∧ Coordinator.Permits place may inner) :
    (Worker.perform job).Follows (workerDealings place may)
      (fun after next => ∀ job, next = some job →
        (workerDealings place may).starts after job after after) known := by
  cases inner : job.coordinator? with
  | none =>
    have tolerant := workerDealings_tolerant place may
    refine (tolerant.perform_follows inner).imp fun after next ⟨_, others⟩ job same => ?_
    exact tolerant.starts after (others job same)
  | some inner =>
    cases job with
    | coordinator job =>
      obtain ⟨carries, permits⟩ := allowed job rfl
      refine (Script.follows_bind ..).2
        ((keeping_follows (Coordinator.perform_follows carries permits)).imp ?_)
      intro after next carried job same
      obtain ⟨next, rfl, rfl⟩ := Option.map_eq_some_iff.1 same
      exact ⟨carried next rfl, fun _ => id, fun _ => id⟩
    | _ => cases inner

/-- Every duty that carries what it needs keeps to the discipline. -/
theorem behaviour_keeps (carries : duty.Carries place known) :
    fleetDiscipline.Keeps place duty (Duty.behaviour duty) known := by
  cases duty with
  | request asked =>
    refine (Script.follows_bind ..).2
      ((script_follows (Request.perform_safe (request_permits place asked) known)).imp ?_)
    exact fun _ _ _ => trivial
  | background job =>
    refine (Script.follows_bind ..).2 ((script_follows (workerPerform_follows ?_)).imp ?_)
    · rintro inner rfl
      exact ⟨carries inner rfl, job_permits (carries inner rfl)⟩
    · intro after next isOpen
      cases next with
      | none => trivial
      | some next => exact ⟨after, isOpen next rfl⟩
  | run =>
    refine (Script.follows_bind ..).2 ((script_follows (bringUp_safe ?_ known)).imp ?_)
    · exact fun lease => ⟨rfl, trivial⟩
    · intro after result _
      cases result with
      | ok _ => exact ⟨after, starts_of_not_background rfl⟩
      | error error => trivial
  | process =>
    refine Script.Returns.bind (script_follows processOnce_returns) fun _ => ?_
    intro worker _ _
    refine ⟨known, ⟨.of_same_held rfl rfl, fun _ => .inl⟩, fun complete => ?_⟩
    cases complete with
    | false => trivial
    | true => exact ⟨known, starts_of_not_background rfl⟩

/-- Whatever may be asked of the workers of a fleet is done by the rules. -/
theorem fleetDiscipline_obeyed {asked : Duty → Prop}
    (fromOutside : ∀ duty, asked duty → duty.background? = none) :
    fleetDiscipline.Obeyed Duty.behaviour asked where
  begun place duty may := by
    refine behaviour_keeps fun job same => ?_
    have other := fromOutside duty may
    rw [same] at other
    cases other
  started {place duty known next child after} starts := by
    refine behaviour_keeps fun job same => ?_
    subst same
    exact starts.1

end

end LeaseFleet
