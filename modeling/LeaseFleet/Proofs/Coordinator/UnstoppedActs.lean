import LeaseFleet.Proofs.Script.ActKinds

/-!
# What does not stop a coordinator

A coordinator is stopped by being told so, and by nothing else: whatever else it does leaves it as it
was in this respect (`Act.LeavesStopping`).
-/

namespace LeaseFleet

/-- A question, or a change by which the coordinator is neither stopped nor set going. -/
def Act.LeavesStopping : Act Coordinator → Prop
  | asked _ _ => True
  | changed found now => now.stopping = found.stopping

namespace Coordinator

/-- The script does not stop the coordinator. -/
abbrev GoesOn {Job α : Type} (script : Script Coordinator Job α) : Prop := script.Stays Act.LeavesStopping

section

variable {Job α : Type} {state : Coordinator}

theorem stopping_confirm (leaseKey : String) (token : Token) (stored : Lease) (now : Nat) :
    (state.confirm leaseKey token stored now).stopping = state.stopping := by
  unfold Coordinator.confirm
  split <;> rfl

theorem stopping_drop (leaseKey : String) (token : Token) :
    (state.drop leaseKey token).stopping = state.stopping := by
  unfold Coordinator.drop
  split <;> rfl

theorem stopping_markStarted : state.markStarted.stopping = state.stopping := by
  unfold Coordinator.markStarted
  split <;> rfl

theorem step_goesOn {ready : Coordinator → Bool} {change : Coordinator → Coordinator}
    {next : Coordinator → Script Coordinator Job α} (same : ∀ state, (change state).stopping = state.stopping)
    (rest : ∀ state, GoesOn (next state)) : GoesOn ((Script.step ready change .done).bind next) :=
  Script.step_only (fun state _ => same state) fun state _ => rest state

theorem look_goesOn {next : Coordinator → Script Coordinator Job α} (rest : ∀ state, GoesOn (next state)) :
    GoesOn (Script.look.bind next) :=
  step_goesOn (fun _ => rfl) rest

theorem query_goesOn {question : Query} {next : question.Reply → Script Coordinator Job α}
    (rest : ∀ reply, GoesOn (next reply)) : GoesOn ((Script.query question).bind next) :=
  Script.Stays.bind (Script.query_only fun _ => trivial) rest

theorem record_goesOn (measurement : Measurement) :
    GoesOn (Script.record measurement : Script Coordinator Job Unit) :=
  Script.query_only fun _ => trivial

end

theorem store_goesOn (call : StoreCall) : GoesOn (store call) :=
  look_goesOn fun state => RetryPolicy.store_stays (fun _ _ => trivial) state.retry stopping call

/-! ## Holding and releasing -/

theorem showHeld_goesOn : GoesOn showHeld := look_goesOn fun _ => record_goesOn _

theorem holdStored_goesOn (stored : Lease) : GoesOn (holdStored stored) := by
  refine query_goesOn fun token => query_goesOn fun now => step_goesOn (fun _ => rfl) fun found => ?_
  exact (record_goesOn _).bind fun _ => record_goesOn _

theorem acquire_goesOn (lease : Lease) : GoesOn (acquire lease) := by
  refine look_goesOn fun state => query_goesOn fun reply => ?_
  match reply with
  | .error error => trivial
  | .ok (.updated stored) => exact (holdStored_goesOn stored).bind fun _ => trivial
  | .ok .versionConflict => trivial
  | .ok .notFound => trivial

theorem acquireAll_goesOn (leases : List Lease) : GoesOn (acquireAll leases) := by
  induction leases with
  | nil => trivial
  | cons lease rest ih =>
    refine (acquire_goesOn lease).bind fun result => ?_
    cases result with
    | ok _ => exact ih
    | error error => trivial

theorem dropHeld_goesOn (leaseKey : String) (token : Token) : GoesOn (dropHeld leaseKey token) :=
  step_goesOn (fun _ => stopping_drop leaseKey token) fun _ => record_goesOn _

theorem applyWrite_goesOn (leaseKey : String) (token : Token) (outcome : UpdateOutcome) :
    GoesOn (applyWrite leaseKey token outcome) := by
  have lost : GoesOn (do
      Script.count .leasesLost 1
      dropHeld leaseKey token
      return false : CoordinatorScript Bool) :=
    (record_goesOn _).bind fun _ => (dropHeld_goesOn leaseKey token).bind fun _ => trivial
  cases outcome with
  | updated stored =>
    exact query_goesOn fun now => step_goesOn (fun _ => stopping_confirm leaseKey token stored now) fun _ => trivial
  | versionConflict => exact lost
  | notFound => exact lost

theorem renewOne_goesOn (held : HeldLease) : GoesOn (renewOne held) := by
  refine (store_goesOn _).bind fun result => ?_
  cases result with
  | ok outcome => exact (applyWrite_goesOn _ _ outcome).bind fun _ => trivial
  | error error =>
    refine (record_goesOn _).bind fun _ => query_goesOn fun now => look_goesOn fun state => ?_
    split
    · exact dropHeld_goesOn _ _
    · trivial

theorem renew_goesOn : GoesOn renew := look_goesOn fun _ => Script.gather_only _ showHeld_goesOn

theorem releaseOne_goesOn (held : HeldLease) : GoesOn (releaseOne held) := query_goesOn fun _ => trivial

theorem releaseAll_goesOn : GoesOn releaseAll :=
  step_goesOn (fun _ => rfl) fun _ => Script.gather_only _ (record_goesOn _)

theorem updateCheckpoint_goesOn (leaseKey : String) (token : Token) (checkpoint : Checkpoint) :
    GoesOn (updateCheckpoint leaseKey token checkpoint) := by
  refine look_goesOn fun state => ?_
  split
  · trivial
  · split
    · refine (store_goesOn _).bind fun result => ?_
      cases result with
      | error error => trivial
      | ok outcome => exact (applyWrite_goesOn leaseKey token outcome).bind fun _ => trivial
    · trivial

/-! ## Taking -/

theorem findLiving_goesOn (leases : List Lease) : GoesOn (findLiving leases) := by
  refine look_goesOn fun state => query_goesOn fun now => query_goesOn fun summaries => query_goesOn fun epoch => ?_
  exact step_goesOn (fun _ => rfl) fun _ => trivial

theorem scan_goesOn (leases : List Lease) : GoesOn (scan leases) :=
  query_goesOn fun _ => Script.change_only fun _ _ => rfl

theorem claim_goesOn (capacity : Nat) (leases : List Lease) : GoesOn (claim capacity leases) := by
  induction leases generalizing capacity with
  | nil => cases capacity <;> trivial
  | cons lease rest ih =>
    cases capacity with
    | zero => trivial
    | succ capacity =>
      refine (acquire_goesOn lease).bind fun result => ?_
      match result with
      | .error error => trivial
      | .ok true => exact ih capacity
      | .ok false => exact ih (capacity + 1)

theorem claimShare_goesOn (free expired : List Lease) (capacity : Nat) :
    GoesOn (claimShare free expired capacity) := by
  refine (claim_goesOn capacity free).bind fun result => ?_
  cases result with
  | error error => trivial
  | ok left =>
    refine look_goesOn fun state => (claim_goesOn _ expired).bind fun result => ?_
    cases result <;> trivial

theorem take_goesOn : GoesOn take := by
  refine (store_goesOn .list).bind fun result => ?_
  cases result with
  | error error => trivial
  | ok leases =>
    refine (scan_goesOn leases).bind fun _ => (findLiving_goesOn leases).bind fun live => ?_
    refine look_goesOn fun before => (acquireAll_goesOn _).bind fun result => ?_
    cases result with
    | error error => trivial
    | ok _ =>
      refine look_goesOn fun state => ?_
      dsimp only
      split
      · trivial
      · exact query_goesOn fun now => claimShare_goesOn _ _ _

/-! ## Rebalancing -/

theorem leads_goesOn {Job : Type} (live : SortedSet String) :
    GoesOn (leads live : Script Coordinator Job Bool) := by
  refine step_goesOn (fun _ => rfl) fun found => ?_
  dsimp only
  split
  · exact (record_goesOn _).bind fun _ => trivial
  · trivial

theorem isLeader_goesOn : GoesOn isLeader := look_goesOn fun state => leads_goesOn state.live

theorem summariesToUse_goesOn : GoesOn summariesToUse := by
  refine look_goesOn fun state => ?_
  split
  · trivial
  · refine state.retry.run_follows stopping ?_ fun low high _ => trivial
    refine (Script.follows_bind ..).2 fun reply _ => ⟨(), trivial, ?_⟩
    exact ⟨trivial, fun _ _ => ⟨rfl, fun _ => trivial⟩⟩

theorem executeMoves_goesOn (moves : List LeaseMove) : GoesOn (executeMoves moves : CoordinatorScript _) := by
  induction moves with
  | nil => trivial
  | cons move rest ih =>
    refine query_goesOn fun reply => ?_
    match reply with
    | .error error => exact ih
    | .ok (.updated stored) => exact (record_goesOn _).bind fun _ => ih.bind fun _ => trivial
    | .ok .versionConflict => exact (record_goesOn _).bind fun _ => ih
    | .ok .notFound => exact (record_goesOn _).bind fun _ => ih

theorem runEngine_goesOn (leases : List Lease) (summaries : List WorkerSummary) (live : List String) :
    GoesOn (runEngine leases summaries live) := by
  have runPass (engine : AssignmentEngine) (seen : Observed) :
      GoesOn (engine.runPass seen : CoordinatorScript _) := by
    have planned : GoesOn (engine.plan seen : CoordinatorScript _) := (record_goesOn _).bind fun _ => trivial
    refine planned.bind fun result => ?_
    obtain ⟨plan, engine⟩ := result
    dsimp only
    split
    · trivial
    · exact (executeMoves_goesOn plan.moves).bind fun applied => (record_goesOn _).bind fun _ => trivial
  refine step_goesOn (fun _ => rfl) fun found => query_goesOn fun now => ?_
  refine (runPass found.engine _).bind fun result => ?_
  exact step_goesOn (fun _ => rfl) fun _ => trivial

theorem rebalance_goesOn : GoesOn rebalance := by
  refine look_goesOn fun state => (findLiving_goesOn _).bind fun live => (leads_goesOn live).bind fun leading => ?_
  split
  · trivial
  · refine (store_goesOn .list).bind fun result => ?_
    cases result with
    | error error => trivial
    | ok leases =>
      refine summariesToUse_goesOn.bind fun result => ?_
      cases result with
      | error error => trivial
      | ok summaries => exact (runEngine_goesOn leases summaries live.toList).bind fun _ => trivial

/-! ## Starting, and the background loops -/

theorem adopt_goesOn : GoesOn adopt := by
  refine (store_goesOn .list).bind fun result => ?_
  cases result with
  | error error => trivial
  | ok leases =>
    refine (scan_goesOn leases).bind fun _ => look_goesOn fun state => (acquireAll_goesOn _).bind fun result => ?_
    cases result with
    | error error => trivial
    | ok _ =>
      refine look_goesOn fun state => ?_
      split
      · exact releaseAll_goesOn.bind fun _ => trivial
      · trivial

theorem start_goesOn : GoesOn start := by
  refine step_goesOn (fun _ => stopping_markStarted) fun found => ?_
  split
  · exact Script.spawnAll_only loops
  · trivial

theorem nextCycle_goesOn (interval : Coordinator → Nat) : GoesOn (nextCycle interval) :=
  look_goesOn fun state => Script.sleep_only (interval state) stopping

theorem perform_goesOn (job : CoordinatorJob) : GoesOn (perform job) := by
  have ended : GoesOn endLoop := step_goesOn (fun _ => rfl) fun _ => trivial
  cases job with
  | renewal held => exact (renewOne_goesOn held).bind fun _ => trivial
  | release held => exact (releaseOne_goesOn held).bind fun _ => trivial
  | renewalLoop =>
    refine (nextCycle_goesOn _).bind fun goesOn => ?_
    cases goesOn with
    | false => exact ended
    | true => exact renew_goesOn.bind fun _ => trivial
  | takingLoop =>
    refine take_goesOn.bind fun _ => (nextCycle_goesOn _).bind fun goesOn => ?_
    cases goesOn with
    | false => exact ended
    | true => trivial
  | rebalanceLoop =>
    refine (nextCycle_goesOn _).bind fun goesOn => ?_
    cases goesOn with
    | false => exact ended
    | true => exact rebalance_goesOn.bind fun _ => trivial

end Coordinator

end LeaseFleet
