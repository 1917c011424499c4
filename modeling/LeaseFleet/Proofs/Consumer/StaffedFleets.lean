import LeaseFleet.Proofs.Fleet.Fencing
import LeaseFleet.Proofs.Consumer.ServedShards
import LeaseFleet.Proofs.Worker.WorkBesideConsumers

/-!
# Staffed fleets

Whatever a worker does, it stays staffed: most of it leaves the consumers alone (`Sparing`), and the
few steps that do not start, ask or forget consumers one by one. So every worker is staffed at every
instant of a run of a fleet (`staffed_of_run`).
-/

namespace LeaseFleet

/-- A question, or a change after which a staffed worker is staffed still. -/
def Act.KeepsStaffed : Act Worker → Prop
  | asked _ _ => True
  | changed found now => found.Staffed → now.Staffed

theorem sparing_keepsStaffed : Sparing Act.KeepsStaffed where
  asked _ _ := trivial
  changed consumers crew staffed :=
    staffed.of_fewer (fun found => consumers ▸ found) (Nat.le_of_eq (congrArg (·.members.length) crew.symm))

namespace Worker

variable {worker : Worker}

theorem Staffed.engaged (staffed : worker.Staffed) (shard : AssignedShard) :
    (worker.engaged shard).Staffed := by
  unfold Worker.engaged
  cases same : worker.engage shard with
  | error error => exact staffed
  | ok result => exact staffed.engage same

theorem Staffed.finishConsumer (staffed : worker.Staffed) (number : Nat) :
    (worker.finishConsumer number).Staffed := by
  have finished : ({ worker with crew := worker.crew.finish number } : Worker).Staffed :=
    staffed.of_fewer id (Nat.le_of_eq (Crew.length_finish ..).symm)
  unfold Worker.finishConsumer
  split
  · dsimp only
    split
    · exact finished
    · exact finished.of_fewer id (Nat.le_refl _)
  · exact finished

theorem Staffed.beginShutdown (staffed : worker.Staffed) : worker.beginShutdown.Staffed := by
  have asks (numbers : List Nat) (crew : Crew) :
      (numbers.foldl (fun crew number => crew.askOnce number .requested) crew).members.length =
        crew.members.length := by
    induction numbers generalizing crew with
    | nil => rfl
    | cons number rest ih => rw [List.foldl_cons, ih, Crew.length_askOnce]
  unfold Worker.beginShutdown
  split
  · exact staffed
  · refine staffed.of_fewer (fun found => ?_) ?_
    · simpa using found
    · exact Nat.le_of_eq ((asks _ _).trans (by simp)).symm

end Worker

theorem working_keepsStaffed : Working Act.KeepsStaffed where
  toRoutine := sparing_keepsStaffed.routine
  engaged _ shard staffed := staffed.engaged shard
  dismiss _ keep staffed := staffed.dismiss keep
  serve _ staffed := (Worker.attended_serve staffed).staffed
  finishConsumer _ number staffed := staffed.finishConsumer number

namespace Staffing

open Worker

variable {α : Type}

/-- Whatever the script does, it leaves a staffed worker staffed. -/
abbrev Stays (script : WorkerScript α) : Prop := Script.Stays Act.KeepsStaffed script

/-- A coordinator has nothing to do with consumers. -/
theorem keeping_stays (script : CoordinatorScript α) : Stays (keeping script) :=
  Script.embed_stays sparing_keepsStaffed.asked (fun _ _ => sparing_keepsStaffed.changed rfl rfl) script

theorem shutdown_stays : Stays shutdown := by
  refine Script.step_only (fun _ _ => Staffed.beginShutdown) fun found _ => ?_
  split
  · trivial
  · refine (keeping_stays _).bind fun _ => working_keepsStaffed.step (fun _ => rfl) fun _ => ?_
    exact working_keepsStaffed.enter .shutDown fun _ => trivial

theorem request_stays (request : Request) : Stays request.perform := by
  by_cases isShutdown : request = .shutdown
  · subst isShutdown
    exact shutdown_stays.bind fun _ => trivial
  · by_cases isStop : request = .stopLoops
    · subst isStop
      exact (keeping_stays _).bind fun _ => trivial
    · exact working_keepsStaffed.request isShutdown isStop

end Staffing

/-! ## Runs of a fleet -/

/-- The rules of a fleet whose workers stay staffed. -/
def staffingDiscipline : Discipline Worker Duty Outcome Unit where
  rules _ _ := .only (fun _ => True) Act.KeepsStaffed
  idle := ()
  finishes _ _ _ _ := True

theorem staffing_script {α : Type} {script : WorkerScript α} (stays : Staffing.Stays script) :
    (Duty.script script).Stays Act.KeepsStaffed :=
  Script.Follows.embed _ (fun _ _ => id) (fun _ => id) (fun _ _ _ _ => id) (fun _ _ _ _ => id)
    (fun _ _ _ _ => id) stays

theorem staffing_behaviour (place : String) (duty : Duty) :
    staffingDiscipline.Keeps place duty (Duty.behaviour duty) () := by
  have ends (ending : Duty ⊕ Outcome) : staffingDiscipline.Ends place duty () ending := by
    cases ending with
    | inl next => exact ⟨(), trivial⟩
    | inr outcome => trivial
  have stays : (Duty.behaviour duty).Stays Act.KeepsStaffed := by
    cases duty with
    | request asked => exact (staffing_script (Staffing.request_stays asked)).bind fun _ => trivial
    | background job =>
      refine (staffing_script (working_keepsStaffed.perform job)).bind fun next => ?_
      cases next <;> trivial
    | run =>
      refine (staffing_script working_keepsStaffed.bringUp).bind fun result => ?_
      cases result <;> trivial
    | process =>
      refine (staffing_script working_keepsStaffed.processOnce).bind fun _ => ?_
      refine Script.step_only (fun _ _ => id) fun _ _ => Script.sleep_stays fun complete => ?_
      cases complete <;> trivial
  exact Script.Follows.imp stays fun _ ending _ => ends ending

theorem staffingDiscipline_obeyed {asked : Duty → Prop} :
    staffingDiscipline.Obeyed Duty.behaviour asked where
  begun place duty _ := staffing_behaviour place duty
  started {place _ _ next _ _} _ := staffing_behaviour place next

/-- The worker at every place is staffed. -/
def Staffs (s : FleetState) : Prop :=
  ∀ {place worker}, s.places.get? place = some worker → worker.Staffed

theorem Staffs.of_same_places {s after : FleetState} (staffs : Staffs s) (same : after.places = s.places) :
    Staffs after :=
  fun found => staffs (same ▸ found)

theorem Staffs.move {asked : Duty → Prop} {event : Event Duty Outcome} {s after : FleetState}
    {marks remarked : Nat → Unit} (staffs : Staffs s)
    (move : staffingDiscipline.Move Duty.behaviour asked s marks event after remarked) : Staffs after := by
  cases move with
  | ask script found answers isOpen => exact staffs.of_same_places answers.places
  | change script found here isOpen =>
    exact SortedMap.forall_insert (P := fun _ worker => worker.Staffed) (isOpen (staffs here))
      fun _ there => staffs there
  | outside may answers =>
    exact staffs.of_same_places ((Interleaving.keepCopies_places ..).trans answers.places)
  | _ => exact staffs.of_same_places rfl

/-- Every worker of a fleet is staffed, at every instant of a run. -/
theorem staffed_of_run {leases : List Lease} {setups : List WorkerSetup} {trace : List (Event Duty Outcome)}
    {s : FleetState} {place : String} {worker : Worker} (run : FleetRun (fleetStart leases setups) trace s)
    (found : s.places.get? place = some worker) : worker.Staffed := by
  have start : Staffs (fleetStart leases setups) := fun found => by
    obtain ⟨setup, _, rfl⟩ := places_fleetStart found
    exact Worker.staffed_of_empty rfl
  obtain ⟨_, _, staffs⟩ := Discipline.Run.keeps_marked (fun _ s _ => Staffs s) (fun _ => True)
    staffingDiscipline_obeyed (fun staffs move _ => staffs.move move) (fun staffs => staffs)
    (fun _ _ _ => trivial) (fun _ _ => trivial) (Discipline.marked_of_no_threads (fun _ => ()) rfl)
    start run fun _ _ => trivial
  exact staffs found

end LeaseFleet
