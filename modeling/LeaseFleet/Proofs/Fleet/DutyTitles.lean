import LeaseFleet.Proofs.Fleet.DutyDeeds
import LeaseFleet.Proofs.Fleet.CoordinatorTitles

/-!
# The offices of a fleet

Every duty of a worker goes by titles, as its office has it: a checkpoint that is stored on request and
the renewal of a held lease write under a token, those who take leases over earn titles, and nobody else
needs any. This is a discipline that every duty keeps to (`titleDiscipline_obeyed`).
-/

namespace LeaseFleet

/-- The rules for a whole worker, for an office. -/
def workerTitling (office : Office) : Protocol Worker WorkerJob Titles :=
  (titling office).along Worker.coordinator WorkerJob.coordinator?

/-- The threads of a fleet go by titles. -/
def titleDiscipline : Discipline Worker Duty Outcome Titles where
  rules _ duty := (workerTitling duty.office).along id Duty.background?
  idle _ := False
  finishes _ _ _ _ := True

section

variable {office : Office} {titles : Titles} {α : Type} {wanted : Titles → α → Prop}

theorem entitled_of_not_update {query : Query} (other : query.isUpdate = false) :
    Entitled office titles query := by
  unfold Entitled
  split
  · cases other
  · trivial

theorem workerTitling_tolerant (office : Office) : Tolerant (workerTitling office) where
  asks _ _ _ other := ⟨entitled_of_not_update other, earns_nothing ..⟩
  steps _ {before after} same := ⟨.of_same_held (by rw [same]), fun _ => .inl⟩
  starts mark job none := by simp [workerTitling, Protocol.along, none]

theorem keeping_titling {script : CoordinatorScript α}
    (follows : script.Follows (titling office) wanted titles) :
    (Worker.keeping script).Follows (workerTitling office) wanted titles :=
  Script.Follows.embed (titling office) (fun _ _ => id) (fun _ => id) (fun _ _ _ _ => id)
    (fun _ _ _ _ => id) (fun _ _ _ _ => id) follows

theorem keeping_titling_safe {script : CoordinatorScript α}
    (returns : ∀ titles, script.Returns (titling office) titles) :
    (Worker.keeping script).Safe (workerTitling office) :=
  fun titles => (keeping_titling (returns titles)).imp fun _ _ _ => trivial

theorem bringUp_titling : Worker.bringUp.Safe (workerTitling .takes) :=
  (workerTitling_tolerant .takes).bringUp_safe (keeping_titling_safe fun _ => Coordinator.adopt_titling)
    (keeping_titling_safe fun _ => Coordinator.start_titling)

theorem processOnce_titling : Worker.processOnce.Returns (workerTitling office) titles :=
  (workerTitling_tolerant office).processOnce_returns (keeping_titling Coordinator.isLeader_titling)

/-- What is asked of a worker is done by its titles. -/
theorem Request.perform_titling (asked : Request) :
    asked.perform.Safe (workerTitling (Duty.request asked).office) := by
  have tolerant := workerTitling_tolerant (Duty.request asked).office
  have free := Office.isFree_other
  cases asked with
  | adopt =>
    exact (keeping_titling_safe fun _ => Coordinator.adopt_titling).bind fun _ => Script.safe_done _
  | take =>
    exact (keeping_titling_safe fun _ => Coordinator.take_titling).bind fun _ => Script.safe_done _
  | renew =>
    intro titles
    exact (Script.follows_bind ..).2 ((keeping_titling (Coordinator.renew_titling titles)).imp
      fun _ _ _ => trivial)
  | rebalance =>
    exact (keeping_titling_safe fun _ => Coordinator.rebalance_titling free).bind fun _ => Script.safe_done _
  | startLoops =>
    exact (keeping_titling_safe fun _ => Coordinator.start_titling).bind fun _ => Script.safe_done _
  | stopLoops =>
    exact (keeping_titling_safe fun _ => Coordinator.stop_titling free).bind fun _ => Script.safe_done _
  | isLeader =>
    exact (keeping_titling_safe fun _ => Coordinator.isLeader_titling).bind fun _ => Script.safe_done _
  | checkpoint leaseKey token position =>
    intro titles
    exact (Script.follows_bind ..).2 ((keeping_titling
      (Coordinator.updateCheckpoint_titling leaseKey token position titles)).imp fun _ _ _ => trivial)
  | bringUp => exact bringUp_titling.bind fun _ => Script.safe_done _
  | shutdown =>
    exact (tolerant.shutdown_safe (keeping_titling_safe fun _ => Coordinator.stop_titling free)).bind
      fun _ => Script.safe_done _
  | processOnce => exact fun titles => processOnce_titling.bind fun _ => trivial
  | shouldFillTable => exact fun titles => tolerant.shouldFillTable_returns.bind fun _ => trivial
  | engage shard => exact fun titles => (tolerant.consumerFor_returns shard).bind fun _ => trivial
  | dismissOthers keep => exact fun titles => (tolerant.dismissOthers_returns keep).bind fun _ => trivial
  | report rejection => exact fun titles => (tolerant.reportRejection_returns rejection).bind fun _ => trivial
  | lookup leaseKey =>
    intro titles
    refine (tolerant.query_returns (.store .list) rfl).bind fun reply => ?_
    cases reply <;> trivial

end

/-- The renewal of a held lease goes by a copy of it. -/
def Duty.Rests (titles : Titles) (duty : Duty) : Prop :=
  ∀ job, duty = .background (.coordinator job) → job.Rests titles

section

variable {place : String} {duty : Duty} {titles : Titles}

theorem script_titling {α : Type} {wanted : Titles → α → Prop} {script : WorkerScript α}
    (follows : script.Follows (workerTitling duty.office) wanted titles) :
    (Duty.script script).Follows (titleDiscipline.rules place duty) wanted titles :=
  Script.Follows.embed _ (fun _ _ => id) (fun _ => id) (fun _ _ _ _ => id) (fun _ _ _ _ => id)
    (fun _ _ _ _ => id) follows

theorem starts_titling_of_not_background {next : Duty} (other : next.background? = none) :
    (titleDiscipline.rules place duty).starts titles next titles titles := by
  simp [titleDiscipline, Protocol.along, other]

/-- A new thread has no more titles than the one that starts it, and what it rests on. -/
theorem starts_titling {next : Duty} {child after : Titles}
    (starts : (titleDiscipline.rules place duty).starts titles next child after) :
    next.Rests child ∧ (∀ title, child title → titles title) ∧ ∀ title, after title → titles title := by
  cases next with
  | background job =>
    cases job with
    | coordinator job =>
      obtain ⟨rests, fewer⟩ : (titling duty.office).starts titles job child after := starts
      refine ⟨?_, fewer⟩
      rintro other same
      cases same
      exact rests
    | _ =>
      obtain ⟨rfl, rfl⟩ : child = titles ∧ after = titles := starts
      exact ⟨fun _ => nofun, fun _ => id, fun _ => id⟩
  | _ =>
    obtain ⟨rfl, rfl⟩ : child = titles ∧ after = titles := starts
    exact ⟨fun _ => nofun, fun _ => id, fun _ => id⟩

/-- What a background job does is done by its titles, and so is what follows it. -/
theorem workerPerform_titling (place : String) {job : WorkerJob} (rests : (Duty.background job).Rests titles) :
    (Worker.perform job).Follows (workerTitling (Duty.background job).office)
      (fun after next => ∀ following, next = some following →
        (titleDiscipline.rules place (.background job)).starts after (.background following) after after)
      titles := by
  cases inner : job.coordinator? with
  | none =>
    have tolerant := workerTitling_tolerant (Duty.background job).office
    refine (tolerant.perform_follows inner).imp fun after next ⟨_, others⟩ following same => ?_
    exact tolerant.starts after (others following same)
  | some inner =>
    cases job with
    | coordinator job =>
      have office : (Duty.background (.coordinator job)).office = job.office := by cases job <;> rfl
      rw [office]
      refine (Script.follows_bind ..).2
        ((keeping_titling (Coordinator.perform_titling (rests job rfl))).imp ?_)
      intro after next rested following same
      obtain ⟨next, rfl, rfl⟩ := Option.map_eq_some_iff.1 same
      exact ⟨rested next rfl, fun _ => id, fun _ => id⟩
    | _ => cases inner

/-- Every duty with the titles that it rests on keeps to the discipline. -/
theorem behaviour_titling (place : String) (rests : duty.Rests titles) :
    titleDiscipline.Keeps place duty (Duty.behaviour duty) titles := by
  cases duty with
  | request asked =>
    refine (Script.follows_bind ..).2 ((script_titling (asked.perform_titling titles)).imp ?_)
    exact fun _ _ _ => trivial
  | background job =>
    refine (Script.follows_bind ..).2 ((script_titling (workerPerform_titling place rests)).imp ?_)
    intro after next isOpen
    cases next with
    | none => trivial
    | some next => exact ⟨after, isOpen next rfl⟩
  | run =>
    have comesUp : (Duty.script Worker.bringUp).Follows (titleDiscipline.rules place .run)
        (fun _ _ => True) titles := script_titling (bringUp_titling titles)
    refine (Script.follows_bind ..).2 (comesUp.imp fun after result _ => ?_)
    cases result with
    | ok _ => exact ⟨after, starts_titling_of_not_background rfl⟩
    | error error => trivial
  | process =>
    refine Script.Returns.bind (script_titling processOnce_titling) fun _ => ?_
    intro worker _ _
    refine ⟨titles, ⟨.of_same_held rfl, fun _ => .inl⟩, fun complete => ?_⟩
    cases complete with
    | false => trivial
    | true => exact ⟨titles, starts_titling_of_not_background rfl⟩

/-- Whatever may be asked of the workers of a fleet is done by titles. -/
theorem titleDiscipline_obeyed :
    titleDiscipline.Obeyed Duty.behaviour fun duty => duty.background? = none where
  begun place duty may := by
    refine behaviour_titling place fun job same => ?_
    subst same
    cases may
  started {place _ _ _ _ _} starts := behaviour_titling place (starts_titling starts).1

end

end LeaseFleet
