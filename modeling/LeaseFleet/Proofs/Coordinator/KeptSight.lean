import LeaseFleet.Coordinator.Lifecycle
import LeaseFleet.Proofs.Script.Journals

/-!
# What leaves the sight of the fleet alone

A coordinator judges the other workers by what it has seen of their leases, and only a scan changes
this. Everything else that it does leaves its sight as it was (`SameSight`): claiming, holding,
renewing and releasing ask neither for a listing nor for the summaries (`Calm`), and what the leader
does after it has found that it leads never asks for the time (`Untimed`).
-/

namespace LeaseFleet

namespace Coordinator

/-- The same worker with the same settings. -/
structure SameSelf (found now : Coordinator) : Prop where
  workerId : now.workerId = found.workerId
  settings : now.settings = found.settings
  assignment : now.assignment = found.assignment

/-- Nothing has been learnt or forgotten about the leases of the fleet. -/
structure SameSight (found now : Coordinator) : Prop extends SameSelf found now where
  observed : now.observed = found.observed
  allLeases : now.allLeases = found.allLeases

namespace SameSelf

variable {first found now : Coordinator}

theorem refl (state : Coordinator) : state.SameSelf state := ⟨rfl, rfl, rfl⟩

theorem trans (earlier : first.SameSelf found) (later : found.SameSelf now) : first.SameSelf now :=
  ⟨later.workerId.trans earlier.workerId, later.settings.trans earlier.settings,
    later.assignment.trans earlier.assignment⟩

theorem observe (state : Coordinator) (leases : List Lease) (time : Nat) :
    state.SameSelf (state.observe leases time) := ⟨rfl, rfl, rfl⟩

end SameSelf

namespace SameSight

theorem refl (state : Coordinator) : state.SameSight state := ⟨.refl state, rfl, rfl⟩

theorem hold (state : Coordinator) (lease : Lease) (token : Token) (now : Nat) :
    state.SameSight (state.hold lease token now) := ⟨⟨rfl, rfl, rfl⟩, rfl, rfl⟩

theorem confirm (state : Coordinator) (leaseKey : String) (token : Token) (stored : Lease) (now : Nat) :
    state.SameSight (state.confirm leaseKey token stored now) := by
  unfold Coordinator.confirm
  split
  · exact ⟨⟨rfl, rfl, rfl⟩, rfl, rfl⟩
  · exact .refl state

theorem drop (state : Coordinator) (leaseKey : String) (token : Token) :
    state.SameSight (state.drop leaseKey token) := by
  unfold Coordinator.drop
  split
  · exact ⟨⟨rfl, rfl, rfl⟩, rfl, rfl⟩
  · exact .refl state

theorem dropAll (state : Coordinator) : state.SameSight state.dropAll := ⟨⟨rfl, rfl, rfl⟩, rfl, rfl⟩

theorem noteLeading (state : Coordinator) (live : SortedSet String) :
    state.SameSight (noteLeading live state) := ⟨⟨rfl, rfl, rfl⟩, rfl, rfl⟩

theorem markStarted (state : Coordinator) : state.SameSight state.markStarted := by
  unfold Coordinator.markStarted
  split
  · exact ⟨⟨rfl, rfl, rfl⟩, rfl, rfl⟩
  · exact .refl state

end SameSight

end Coordinator

/-- A question of some kind, or a change that leaves the sight as it was. -/
def Act.Within (asks : Query → Prop) : Act Coordinator → Prop
  | asked query _ => asks query
  | changed found now => found.SameSight now

/-- Neither a listing nor the summaries; a lease is written only as it may be. -/
def Calm (writes : Lease → Nat → Prop) : Query → Prop
  | .store (.update proposal expected) => writes proposal expected
  | .store _ | .summaries => False
  | _ => True

/-- Anything but the time. -/
def Untimed (query : Query) : Prop := query ≠ .clock

theorem Untimed.store (call : StoreCall) : Untimed (.store call) := nofun

theorem Untimed.draw (low high : Nat) : Untimed (.draw low high) := nofun

theorem Untimed.record (measurement : Measurement) : Untimed (.record measurement) := nofun

/-- Calmly, whatever is written. -/
abbrev Quietly : Act Coordinator → Prop := Act.Within (Calm fun _ _ => True)

/-- Without asking for the time. -/
abbrev Timelessly : Act Coordinator → Prop := Act.Within Untimed

/-- Measurements only. -/
def Shown : Query → Prop
  | .record _ => True
  | _ => False

/-- The write by which a worker takes one of the leases as it was listed. -/
def Claims (worker : String) (leases : List Lease) (proposal : Lease) (expected : Nat) : Prop :=
  ∃ lease ∈ leases, proposal = lease.transferredTo (some worker) ∧ expected = lease.counter

theorem Calm.anything {writes : Lease → Nat → Prop} {query : Query} (calm : Calm writes query) :
    Calm (fun _ _ => True) query := by
  unfold Calm at calm ⊢
  split at calm
  · trivial
  · exact calm.elim
  · exact calm.elim
  · trivial

theorem Act.Within.quietly {writes : Lease → Nat → Prop} {act : Act Coordinator}
    (within : act.Within (Calm writes)) : Quietly act := by
  cases act with
  | asked query reply => exact Calm.anything within
  | changed found now => exact within

theorem Act.Attempts.timeless {call : StoreCall} (act : Act Coordinator) (attempts : act.Attempts call) :
    Timelessly act :=
  attempts.elim (fun _ => Untimed.store call) fun low high _ => Untimed.draw low high

theorem Act.Within.timeless (act : Act Coordinator) (within : act.Within Shown) : Timelessly act := by
  cases act with
  | changed found now => exact within
  | asked query reply =>
    cases query with
    | record measurement => exact .record measurement
    | _ => exact within.elim

namespace Coordinator

section

variable {first : Coordinator} {asks : Query → Prop} {β : Type}

theorem look_within {wanted : β → Prop} {next : Coordinator → CoordinatorScript β}
    (rest : ∀ state, first.SameSelf state → (next state).Only first.SameSelf (Act.Within asks) wanted) :
    (Script.look.bind next).Only first.SameSelf (Act.Within asks) wanted :=
  Script.step_only (fun state _ => .refl state) rest

theorem record_within {measurement : Measurement} (asked : asks (.record measurement)) :
    (Script.record measurement : CoordinatorScript Unit).Keeps first.SameSelf (Act.Within asks) :=
  Script.query_only fun _ => asked

/-- Whether the worker leads is found out without a question. -/
theorem leads_within (shown : ∀ measurement, asks (.record measurement)) (live : SortedSet String) :
    (leads live : CoordinatorScript Bool).Only first.SameSelf (Act.Within asks)
      fun leading => leading = isLeaderAmong first.workerId live := by
  refine Script.step_only (fun state _ => .noteLeading state live) fun found self => ?_
  have same : isLeaderAmong found.workerId live = isLeaderAmong first.workerId live := by
    rw [self.workerId]
  dsimp only
  split
  · exact (record_within (shown _)).bind fun _ _ => same
  · exact same

end

/-! ## Claiming and holding -/

section

variable {first : Coordinator} {writes : Lease → Nat → Prop}

theorem showHeld_calm : showHeld.Keeps first.SameSelf (Act.Within (Calm writes)) :=
  look_within fun _ _ => record_within trivial

theorem holdStored_calm (stored : Lease) :
    (holdStored stored).Keeps first.SameSelf (Act.Within (Calm writes)) := by
  refine Script.Only.bind (Script.query_only fun _ => trivial) fun token _ => ?_
  refine Script.Only.bind (Script.query_only fun _ => trivial) fun now _ => ?_
  refine Script.step_only (fun state _ => .hold state stored token now) fun found _ => ?_
  exact (record_within trivial).bind fun _ _ => record_within trivial

theorem acquire_calm {lease : Lease}
    (allowed : writes (lease.transferredTo (some first.workerId)) lease.counter) :
    (acquire lease).Keeps first.SameSelf (Act.Within (Calm writes)) := by
  refine look_within fun state self => ?_
  rw [self.workerId]
  refine Script.Only.bind (Script.query_only fun _ => allowed) fun reply _ => ?_
  match reply with
  | .error error => trivial
  | .ok (.updated stored) => exact (holdStored_calm stored).bind fun _ _ => trivial
  | .ok .versionConflict => trivial
  | .ok .notFound => trivial

theorem acquireAll_calm {leases : List Lease}
    (allowed : ∀ lease ∈ leases, writes (lease.transferredTo (some first.workerId)) lease.counter) :
    (acquireAll leases).Keeps first.SameSelf (Act.Within (Calm writes)) := by
  induction leases with
  | nil => trivial
  | cons lease rest ih =>
    obtain ⟨here, others⟩ := List.forall_mem_cons.1 allowed
    refine (acquire_calm here).bind fun result _ => ?_
    cases result with
    | ok _ => exact ih others
    | error error => trivial

/-- Leases are acquired by claims on them. -/
theorem acquireAll_claims (leases : List Lease) :
    (acquireAll leases).Keeps first.SameSelf (Act.Within (Calm (Claims first.workerId leases))) :=
  acquireAll_calm fun lease mem => ⟨lease, mem, rfl, rfl⟩

theorem claim_calm {capacity : Nat} {leases : List Lease}
    (allowed : ∀ lease ∈ leases, writes (lease.transferredTo (some first.workerId)) lease.counter) :
    (claim capacity leases).Keeps first.SameSelf (Act.Within (Calm writes)) := by
  induction leases generalizing capacity with
  | nil => cases capacity <;> trivial
  | cons lease rest ih =>
    cases capacity with
    | zero => trivial
    | succ capacity =>
      obtain ⟨here, others⟩ := List.forall_mem_cons.1 allowed
      refine (acquire_calm here).bind fun result _ => ?_
      cases result with
      | error error => trivial
      | ok won => cases won <;> exact ih others

theorem claimShare_claims (free expired : List Lease) (capacity : Nat) :
    (claimShare free expired capacity).Keeps first.SameSelf
      (Act.Within (Calm (Claims first.workerId (free ++ expired)))) := by
  have claims {lease : Lease} (mem : lease ∈ free ++ expired) :
      Claims first.workerId (free ++ expired) (lease.transferredTo (some first.workerId)) lease.counter :=
    ⟨lease, mem, rfl, rfl⟩
  refine (claim_calm fun _ mem => claims (List.mem_append_left _ mem)).bind fun result _ => ?_
  cases result with
  | error error => trivial
  | ok left =>
    refine look_within fun state _ => ?_
    refine (claim_calm fun _ mem => claims (List.mem_append_right _ mem)).bind fun result _ => ?_
    cases result <;> trivial

theorem dropHeld_calm (leaseKey : String) (token : Token) :
    (dropHeld leaseKey token).Keeps first.SameSelf (Act.Within (Calm writes)) :=
  Script.step_only (fun state _ => .drop state leaseKey token) fun _ _ => record_within trivial

theorem applyWrite_calm (leaseKey : String) (token : Token) (outcome : UpdateOutcome) :
    (applyWrite leaseKey token outcome).Keeps first.SameSelf (Act.Within (Calm writes)) := by
  have lost : (do
      Script.count .leasesLost 1
      dropHeld leaseKey token
      return false : CoordinatorScript Bool).Keeps first.SameSelf (Act.Within (Calm writes)) :=
    (record_within trivial).bind fun _ _ => (dropHeld_calm leaseKey token).bind fun _ _ => trivial
  cases outcome with
  | updated stored =>
    refine Script.Only.bind (Script.query_only fun _ => trivial) fun now _ => ?_
    exact Script.step_only (fun state _ => .confirm state leaseKey token stored now) fun _ _ => trivial
  | versionConflict => exact lost
  | notFound => exact lost

theorem store_update_calm {proposal : Lease} {expected : Nat} (allowed : writes proposal expected) :
    (store (.update proposal expected)).Keeps first.SameSelf (Act.Within (Calm writes)) := by
  refine look_within fun state _ => state.retry.store_only stopping fun act attempts => ?_
  exact attempts.elim (fun _ => allowed) fun _ _ _ => trivial

end

/-! ## Everything else that is calm -/

section

variable {first : Coordinator}

theorem renewOne_calm (held : HeldLease) : (renewOne held).Keeps first.SameSelf Quietly := by
  refine (store_update_calm trivial).bind fun result _ => ?_
  cases result with
  | ok outcome => exact (applyWrite_calm _ _ outcome).bind fun _ _ => trivial
  | error error =>
    refine (record_within trivial).bind fun _ _ => ?_
    refine Script.Only.bind (Script.query_only fun _ => trivial) fun now _ => look_within fun state _ => ?_
    split
    · exact dropHeld_calm _ _
    · trivial

theorem renew_calm : renew.Keeps first.SameSelf Quietly :=
  look_within fun _ _ => Script.gather_only _ showHeld_calm

theorem isLeader_calm : isLeader.Keeps first.SameSelf Quietly :=
  look_within fun state _ => (leads_within (fun _ => trivial) state.live).imp fun _ _ => trivial

theorem releaseOne_calm (held : HeldLease) : (releaseOne held).Keeps first.SameSelf Quietly :=
  Script.Only.bind (Script.query_only fun _ => trivial) fun _ _ => trivial

theorem releaseAll_calm : releaseAll.Keeps first.SameSelf Quietly :=
  Script.step_only (fun state _ => .dropAll state) fun _ _ => Script.gather_only _ (record_within trivial)

theorem updateCheckpoint_calm (leaseKey : String) (token : Token) (checkpoint : Checkpoint) :
    (updateCheckpoint leaseKey token checkpoint).Keeps first.SameSelf Quietly := by
  refine look_within fun state _ => ?_
  split
  · trivial
  · split
    · refine (store_update_calm trivial).bind fun result _ => ?_
      cases result with
      | error error => trivial
      | ok outcome => exact (applyWrite_calm leaseKey token outcome).bind fun _ _ => trivial
    · trivial

theorem start_calm : start.Keeps first.SameSelf Quietly := by
  refine Script.step_only (fun state _ => .markStarted state) fun found _ => ?_
  split
  · exact Script.spawnAll_only loops
  · trivial

theorem stop_calm : stop.Keeps first.SameSelf Quietly := by
  refine Script.step_only (fun _ _ => ⟨⟨rfl, rfl, rfl⟩, rfl, rfl⟩) fun found _ => ?_
  split
  · trivial
  · exact Script.step_only (fun state _ => .refl state) fun _ _ => releaseAll_calm

theorem nextCycle_calm (interval : Coordinator → Nat) :
    (nextCycle interval).Keeps first.SameSelf Quietly :=
  look_within fun state _ => Script.sleep_only (interval state) stopping

theorem endLoop_calm : endLoop.Keeps first.SameSelf Quietly :=
  Script.Only.bind (Script.change_only fun _ _ => ⟨⟨rfl, rfl, rfl⟩, rfl, rfl⟩) fun _ _ => trivial

end

/-! ## What is never timed -/

section

variable {first : Coordinator}

theorem store_list_timeless : (store .list).Keeps first.SameSelf Timelessly :=
  look_within fun state _ => state.retry.store_only stopping Act.Attempts.timeless

theorem summariesToUse_timeless : summariesToUse.Keeps first.SameSelf Timelessly := by
  refine look_within fun state _ => ?_
  split
  · trivial
  · refine state.retry.run_follows stopping ?_ fun low high _ => Untimed.draw low high
    refine (Script.follows_bind ..).2 fun reply _ => ⟨(), nofun, ?_⟩
    exact ⟨trivial, fun _ _ => ⟨rfl, fun _ => trivial⟩⟩

theorem executeMoves_timeless (moves : List LeaseMove) :
    (executeMoves moves : CoordinatorScript _).Keeps first.SameSelf Timelessly := by
  induction moves with
  | nil => trivial
  | cons move rest ih =>
    refine Script.Only.bind (Script.query_only fun _ => .store _) fun reply _ => ?_
    match reply with
    | .error error => exact ih
    | .ok (.updated stored) =>
      exact (record_within (.record _)).bind fun _ _ => ih.bind fun _ _ => trivial
    | .ok .versionConflict => exact (record_within (.record _)).bind fun _ _ => ih
    | .ok .notFound => exact (record_within (.record _)).bind fun _ _ => ih

theorem runEngine_timeless (leases : List Lease) (summaries : List WorkerSummary) (live : List String) :
    (runEngine leases summaries live).Keeps first.SameSelf Timelessly := by
  have runPass (engine : AssignmentEngine) (seen : Observed) :
      (engine.runPass seen : CoordinatorScript _).Keeps first.SameSelf Timelessly := by
    have planned : (engine.plan seen : CoordinatorScript _).Keeps first.SameSelf Timelessly :=
      (record_within (.record _)).bind fun _ _ => trivial
    refine planned.bind fun result _ => ?_
    obtain ⟨plan, engine⟩ := result
    dsimp only
    split
    · trivial
    · refine (executeMoves_timeless plan.moves).bind fun applied _ => ?_
      exact (record_within (.record _)).bind fun _ _ => trivial
  refine Script.step_only (fun _ _ => ⟨⟨rfl, rfl, rfl⟩, rfl, rfl⟩) fun found _ => ?_
  refine Script.Only.bind (Script.query_only fun _ => nofun) fun now _ => ?_
  refine (runPass found.engine _).bind fun result _ => ?_
  refine Script.Only.bind (Script.change_only fun _ _ => ⟨⟨rfl, rfl, rfl⟩, rfl, rfl⟩) fun _ _ => trivial

/-- What the leader does, once it has found that it leads. -/
theorem lead_timeless (live : SortedSet String) :
    (do
      match ← store .list with
      | .error error => return .error error
      | .ok leases =>
        match ← summariesToUse with
        | .error error => return .error error
        | .ok summaries => return .ok (← runEngine leases summaries live.toList) :
      CoordinatorScript (Except WorkerError Nat)).Keeps first.SameSelf Timelessly := by
  refine store_list_timeless.bind fun listed _ => ?_
  cases listed with
  | error error => trivial
  | ok leases =>
    refine summariesToUse_timeless.bind fun summaries _ => ?_
    cases summaries with
    | error error => trivial
    | ok summaries => exact (runEngine_timeless leases summaries live.toList).bind fun _ _ => trivial

end

end Coordinator

end LeaseFleet
