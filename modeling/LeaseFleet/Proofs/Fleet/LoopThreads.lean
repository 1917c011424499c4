import LeaseFleet.Proofs.Fleet.WorkBesideLeases
import Mathlib.Algebra.Ring.Nat

/-!
# Who keeps the loops of a coordinator going

The mark of a thread says how many loops of its coordinator it has still to start or to end. Whoever marks
the coordinator as started has all its loops to start, every loop that is started has itself to end, and
what is left is passed on when a loop follows on itself. While nothing is left for a thread it has no way
to start or to end a loop. Its duty and what is left say whether it may call the lease store, hold further
leases, or give leases back. This is a protocol (`looping`) to which every duty keeps (`Duty.keeps`).
-/

namespace LeaseFleet

/-- Whether a job is a background loop. -/
def CoordinatorJob.isLoop : CoordinatorJob → Bool
  | renewalLoop | takingLoop | rebalanceLoop => true
  | renewal _ | release _ => false

namespace Duty

/-- How many loops a new thread has to end. -/
def loops : Duty → Nat
  | background (.coordinator job) => if job.isLoop then 1 else 0
  | _ => 0

/-- The calls of the lease store that are open to a thread. Loops make some only as long as they have not
ended; who starts or stops loops makes none; a release makes one. -/
def MayCall (duty : Duty) (left : Nat) (call : StoreCall) : Prop :=
  match duty with
  | request .startLoops | request .stopLoops | request .shutdown => False
  | background (.coordinator .renewalLoop) | background (.coordinator .takingLoop)
  | background (.coordinator .rebalanceLoop) => 0 < left
  | background (.coordinator (.release held)) =>
    call = .update (Coordinator.released held.lease) held.lease.counter
  | _ => True

/-- Whether a thread may have its coordinator hold further leases. -/
def MayGain (duty : Duty) (left : Nat) : Prop :=
  match duty with
  | request .adopt | request .take | request .bringUp | run => True
  | background (.coordinator .takingLoop) => 0 < left
  | _ => False

/-- Whether a duty may stop its coordinator. -/
def mayStop : Duty → Bool
  | request .stopLoops | request .shutdown => true
  | _ => false

/-- Whether a duty may give leases back. -/
def mayRelease : Duty → Bool
  | request .adopt | request .bringUp | run => true
  | duty => duty.mayStop

/-- Whether a duty leaves it to others to take leases up, to give them back, to look after consumers, and to
stop anything. -/
def isCalm : Duty → Bool
  | background (.coordinator (.release _)) => false
  | background _ => true
  | request .renew | request .rebalance | request .startLoops | request .isLeader
  | request .shouldFillTable | request (.report _) | request (.lookup _)
  | request (.checkpoint _ _ _) => true
  | _ => false

end Duty

namespace Coordinator

/-- Nothing has changed that concerns the loops. -/
structure SameLoops (found now : Coordinator) : Prop where
  running : now.running = found.running
  started : now.started = found.started
  stopping : now.stopping = found.stopping

/-- What a thread may do to its coordinator. -/
inductive Turns (duty : Duty) : Nat → Coordinator → Coordinator → Nat → Prop
  | stay {left : Nat} {found now : Coordinator} (same : found.SameLoops now)
      (held : duty.MayGain left ∨ (found.held = .empty → now.held = .empty)) : Turns duty left found now left
  | start {left : Nat} {found : Coordinator} (can : found.canStart = true) :
      Turns duty left found found.markStarted (left + loops.length)
  | stop {left : Nat} {found : Coordinator} (may : duty.mayStop = true) :
      Turns duty left found { found with stopping := true } left
  | finish {left : Nat} {found : Coordinator} :
      Turns duty (left + 1) found { found with running := found.running - 1 } left

/-- The jobs that a thread may start. -/
inductive Launches (duty : Duty) : Nat → CoordinatorJob → Nat → Nat → Prop
  | renewal {left : Nat} (held : HeldLease) : Launches duty left (.renewal held) 0 left
  | release {left : Nat} (may : duty.mayRelease = true) (held : HeldLease) :
      Launches duty left (.release held) 0 left
  | loop {left : Nat} {job : CoordinatorJob} (isLoop : job.isLoop = true) : Launches duty (left + 1) job 1 left

/-- The rules by which loops are started and ended. -/
def looping (duty : Duty) : Protocol Coordinator CoordinatorJob Nat where
  hears _ _ := True
  sees _ := True
  asks left query _ after := after = left ∧ ∀ call, query = .store call → duty.MayCall left call
  steps := Turns duty
  starts := Launches duty

section

variable {duty : Duty} {left : Nat} {α β : Type} {wanted : Nat → β → Prop}

/-- The script leaves the loops alone. -/
abbrev Spares (duty : Duty) (left : Nat) (script : CoordinatorScript α) : Prop :=
  script.Returns (looping duty) left

theorem step_looping {ready : Coordinator → Bool} {change : Coordinator → Coordinator}
    {next : Coordinator → CoordinatorScript β} (same : ∀ state, SameLoops state (change state))
    (held : ∀ state, duty.MayGain left ∨ (state.held = .empty → (change state).held = .empty))
    (rest : ∀ state, (next state).Follows (looping duty) wanted left) :
    ((Script.step ready change .done).bind next).Follows (looping duty) wanted left :=
  fun state _ _ => ⟨left, .stay (same state) (held state), rest state⟩

theorem look_looping {next : Coordinator → CoordinatorScript β}
    (rest : ∀ state, (next state).Follows (looping duty) wanted left) :
    (Script.look.bind next).Follows (looping duty) wanted left :=
  step_looping (fun _ => ⟨rfl, rfl, rfl⟩) (fun _ => .inr id) rest

theorem query_looping (question : Query) (other : ∀ call, question ≠ .store call)
    {next : question.Reply → CoordinatorScript β}
    (rest : ∀ reply, (next reply).Follows (looping duty) wanted left) :
    ((Script.query question).bind next).Follows (looping duty) wanted left :=
  fun reply _ => ⟨left, ⟨rfl, fun call same => absurd same (other call)⟩, rest reply⟩

theorem record_looping (measurement : Measurement) :
    Spares duty left (Script.record measurement) :=
  fun _ _ => ⟨left, ⟨rfl, fun _ same => by cases same⟩, rfl⟩

theorem call_looping {call : StoreCall} (may : duty.MayCall left call)
    {next : call.Reply → CoordinatorScript β} (rest : ∀ reply, (next reply).Follows (looping duty) wanted left) :
    ((Script.call call).bind next).Follows (looping duty) wanted left :=
  fun reply _ => ⟨left, ⟨rfl, fun _ same => by cases same; exact may⟩, rest reply⟩

theorem store_looping {call : StoreCall} (may : duty.MayCall left call) : Spares duty left (store call) := by
  have asks (reply : call.Reply) : (looping duty).asks left (.store call) reply left :=
    ⟨rfl, fun _ same => by cases same; exact may⟩
  refine look_looping fun state => state.retry.store_follows stopping ?_ ?_ ?_
  · exact fun answer _ => ⟨left, asks _, rfl⟩
  · exact fun error _ => ⟨asks _, fun _ => rfl⟩
  · exact fun _ _ _ => ⟨rfl, fun _ same => by cases same⟩

/-! ## Holding and renewing -/

theorem showHeld_looping : Spares duty left showHeld := look_looping fun _ => record_looping _

theorem empty_drop {state : Coordinator} {leaseKey : String} {token : Token} (nothing : state.held = .empty) :
    (state.drop leaseKey token).held = .empty := by
  simp [Coordinator.drop, holds, nothing]

theorem empty_confirm {state : Coordinator} {leaseKey : String} {token : Token} {stored : Lease} {now : Nat}
    (nothing : state.held = .empty) : (state.confirm leaseKey token stored now).held = .empty := by
  simp [confirm, holds, nothing]

theorem sameLoops_drop (state : Coordinator) (leaseKey : String) (token : Token) :
    state.SameLoops (state.drop leaseKey token) := by
  unfold Coordinator.drop
  split <;> exact ⟨rfl, rfl, rfl⟩

theorem sameLoops_confirm (state : Coordinator) (leaseKey : String) (token : Token) (stored : Lease) (now : Nat) :
    state.SameLoops (state.confirm leaseKey token stored now) := by
  unfold confirm
  split <;> exact ⟨rfl, rfl, rfl⟩

theorem dropHeld_looping (leaseKey : String) (token : Token) : Spares duty left (dropHeld leaseKey token) :=
  step_looping (fun state => state.sameLoops_drop leaseKey token) (fun _ => .inr empty_drop) fun _ =>
    record_looping _

theorem applyWrite_looping (leaseKey : String) (token : Token) (outcome : UpdateOutcome) :
    Spares duty left (applyWrite leaseKey token outcome) := by
  have lost : Spares duty left (do
      Script.count .leasesLost 1
      dropHeld leaseKey token
      return false) :=
    (record_looping _).bind fun _ => (dropHeld_looping leaseKey token).bind fun _ => rfl
  cases outcome with
  | updated stored =>
    refine query_looping .clock nofun fun now => ?_
    exact step_looping (fun state => state.sameLoops_confirm leaseKey token stored now)
      (fun _ => .inr empty_confirm) fun _ => rfl
  | versionConflict => exact lost
  | notFound => exact lost

theorem renewOne_looping {held : HeldLease} (may : duty.MayCall left (.update held.lease held.lease.counter)) :
    Spares duty left (renewOne held) := by
  refine (store_looping may).bind fun result => ?_
  cases result with
  | ok outcome => exact (applyWrite_looping _ _ outcome).bind fun _ => rfl
  | error error =>
    refine (record_looping _).bind fun _ => query_looping .clock nofun fun now => look_looping fun state => ?_
    split
    · exact dropHeld_looping _ _
    · rfl

theorem renew_looping : Spares duty left renew := by
  have startsAll (leases : List HeldLease) :
      (looping duty).StartsAll left (leases.map .renewal) (leases.map fun _ => 0) left := by
    induction leases with
    | nil => exact .nil _
    | cons held rest ih => exact .cons (.renewal held) ih
  exact look_looping fun _ => ⟨_, left, startsAll _, showHeld_looping⟩

theorem updateCheckpoint_looping (calls : ∀ call, duty.MayCall left call) (leaseKey : String) (token : Token)
    (position : Checkpoint) : Spares duty left (updateCheckpoint leaseKey token position) := by
  refine look_looping fun state => ?_
  split
  · rfl
  · split
    · refine (store_looping (calls _)).bind fun result => ?_
      cases result with
      | error error => rfl
      | ok outcome => exact (applyWrite_looping _ _ outcome).bind fun _ => rfl
    · rfl

/-! ## Giving back -/

theorem releaseOne_looping {held : HeldLease}
    (may : duty.MayCall left (.update (released held.lease) held.lease.counter)) :
    Spares duty left (releaseOne held) :=
  call_looping may fun _ => rfl

theorem releaseAll_looping (may : duty.mayRelease = true) : Spares duty left releaseAll := by
  have startsAll (leases : List HeldLease) :
      (looping duty).StartsAll left (leases.map .release) (leases.map fun _ => 0) left := by
    induction leases with
    | nil => exact .nil _
    | cons held rest ih => exact .cons (.release may held) ih
  exact step_looping (fun _ => ⟨rfl, rfl, rfl⟩) (fun _ => .inr fun _ => rfl) fun _ =>
    ⟨_, left, startsAll _, record_looping _⟩

/-! ## Rebalancing -/

theorem findLiving_looping (leases : List Lease) : Spares duty left (findLiving leases) := by
  refine look_looping fun state => query_looping .clock nofun fun now => ?_
  refine query_looping .summaries nofun fun summaries => query_looping .epoch nofun fun epoch => ?_
  exact step_looping (fun _ => ⟨rfl, rfl, rfl⟩) (fun _ => .inr id) fun _ => rfl

theorem scan_looping (leases : List Lease) : Spares duty left (scan leases) :=
  query_looping .clock nofun fun _ => step_looping (fun _ => ⟨rfl, rfl, rfl⟩) (fun _ => .inr id) fun _ => rfl

theorem leads_looping (live : SortedSet String) : Spares duty left (leads live) := by
  refine step_looping (fun _ => ⟨rfl, rfl, rfl⟩) (fun _ => .inr id) fun found => ?_
  dsimp only
  split
  · exact (record_looping _).bind fun _ => rfl
  · rfl

theorem isLeader_looping : Spares duty left isLeader := look_looping fun state => leads_looping state.live

theorem summariesToUse_looping : Spares duty left summariesToUse := by
  refine look_looping fun state => ?_
  split
  · rfl
  · refine state.retry.run_follows stopping ?_ fun low high _ => ⟨rfl, fun _ same => by cases same⟩
    refine (Script.follows_bind ..).2 fun reply _ => ⟨left, ⟨rfl, fun _ same => by cases same⟩, rfl, fun _ _ => ?_⟩
    exact ⟨rfl, fun _ => rfl⟩

section

variable (calls : ∀ call, duty.MayCall left call)

include calls

theorem executeMoves_looping (moves : List LeaseMove) :
    Spares duty left (executeMoves moves : CoordinatorScript _) := by
  induction moves with
  | nil => rfl
  | cons move rest ih =>
    refine call_looping (calls _) fun reply => ?_
    match reply with
    | .error error => exact ih
    | .ok (.updated stored) => exact (record_looping _).bind fun _ => ih.bind fun _ => rfl
    | .ok .versionConflict => exact (record_looping _).bind fun _ => ih
    | .ok .notFound => exact (record_looping _).bind fun _ => ih

theorem runEngine_looping (leases : List Lease) (summaries : List WorkerSummary) (live : List String) :
    Spares duty left (runEngine leases summaries live) := by
  have runPass (engine : AssignmentEngine) (seen : Observed) :
      Spares duty left (engine.runPass seen : CoordinatorScript _) := by
    have planned : Spares duty left (engine.plan seen : CoordinatorScript _) :=
      (record_looping _).bind fun _ => rfl
    refine planned.bind fun result => ?_
    obtain ⟨plan, engine⟩ := result
    dsimp only
    split
    · rfl
    · exact (executeMoves_looping calls plan.moves).bind fun applied => (record_looping _).bind fun _ => rfl
  refine step_looping (fun _ => ⟨rfl, rfl, rfl⟩) (fun _ => .inr id) fun found => ?_
  refine query_looping .epoch nofun fun now => ?_
  refine (runPass found.engine _).bind fun result => ?_
  exact step_looping (fun _ => ⟨rfl, rfl, rfl⟩) (fun _ => .inr id) fun _ => rfl

theorem rebalance_looping : Spares duty left rebalance := by
  refine look_looping fun state => (findLiving_looping _).bind fun live => ?_
  refine (leads_looping live).bind fun leading => ?_
  split
  · rfl
  · refine (store_looping (calls _)).bind fun result => ?_
    cases result with
    | error error => rfl
    | ok leases =>
      refine summariesToUse_looping.bind fun result => ?_
      cases result with
      | error error => rfl
      | ok summaries => exact (runEngine_looping calls leases summaries live.toList).bind fun _ => rfl

/-! ## Taking -/

variable (gains : duty.MayGain left)

include gains

theorem acquire_looping (lease : Lease) : Spares duty left (acquire lease) := by
  have holds (stored : Lease) : Spares duty left (holdStored stored) := by
    refine query_looping .token nofun fun token => query_looping .clock nofun fun now => ?_
    exact step_looping (fun _ => ⟨rfl, rfl, rfl⟩) (fun _ => .inl gains) fun found =>
      (record_looping _).bind fun _ => record_looping _
  refine look_looping fun state => call_looping (calls _) fun reply => ?_
  match reply with
  | .error error => rfl
  | .ok (.updated stored) => exact (holds stored).bind fun _ => rfl
  | .ok .versionConflict => rfl
  | .ok .notFound => rfl

theorem acquireAll_looping (leases : List Lease) : Spares duty left (acquireAll leases) := by
  induction leases with
  | nil => rfl
  | cons lease rest ih =>
    refine (acquire_looping calls gains lease).bind fun result => ?_
    cases result with
    | ok _ => exact ih
    | error error => rfl

theorem claim_looping (capacity : Nat) (leases : List Lease) : Spares duty left (claim capacity leases) := by
  induction leases generalizing capacity with
  | nil => cases capacity <;> rfl
  | cons lease rest ih =>
    cases capacity with
    | zero => rfl
    | succ capacity =>
      refine (acquire_looping calls gains lease).bind fun result => ?_
      match result with
      | .error error => rfl
      | .ok true => exact ih capacity
      | .ok false => exact ih (capacity + 1)

theorem claimShare_looping (free expired : List Lease) (capacity : Nat) :
    Spares duty left (claimShare free expired capacity) := by
  refine (claim_looping calls gains capacity free).bind fun result => ?_
  cases result with
  | error error => rfl
  | ok most =>
    refine look_looping fun state => (claim_looping calls gains _ expired).bind fun result => ?_
    cases result <;> rfl

theorem take_looping : Spares duty left take := by
  refine (store_looping (calls _)).bind fun result => ?_
  cases result with
  | error error => rfl
  | ok leases =>
    refine (scan_looping leases).bind fun _ => (findLiving_looping leases).bind fun live => ?_
    refine look_looping fun before => (acquireAll_looping calls gains _).bind fun result => ?_
    cases result with
    | error error => rfl
    | ok _ =>
      refine look_looping fun state => ?_
      dsimp only
      split
      · rfl
      · exact query_looping .clock nofun fun now => claimShare_looping calls gains _ _ _

theorem adopt_looping (may : duty.mayRelease = true) : Spares duty left adopt := by
  refine (store_looping (calls _)).bind fun result => ?_
  cases result with
  | error error => rfl
  | ok leases =>
    refine (scan_looping leases).bind fun _ => look_looping fun state => ?_
    refine (acquireAll_looping calls gains _).bind fun result => ?_
    cases result with
    | error error => rfl
    | ok _ =>
      refine look_looping fun state => ?_
      split
      · exact (releaseAll_looping may).bind fun _ => rfl
      · rfl

end

/-! ## Starting and stopping -/

/-- Whoever starts the loops has them to start, and has done so in the end. -/
theorem start_looping : Spares duty left start := by
  intro state _ _
  by_cases can : state.canStart = true
  · refine ⟨left + loops.length, .start can, ?_⟩
    simp only [Script.done_bind, can, if_true]
    exact ⟨1, left + 2, .loop rfl, 1, left + 1, .loop rfl, 1, left, .loop rfl, rfl⟩
  · have same : state.markStarted = state := if_neg can
    rw [same]
    refine ⟨left, .stay ⟨rfl, rfl, rfl⟩ (.inr id), ?_⟩
    simp only [Script.done_bind, can]
    rfl

theorem stop_looping (may : duty.mayStop = true) (also : duty.mayRelease = true) : Spares duty left stop := by
  refine fun state _ _ => ⟨left, .stop may, ?_⟩
  simp only [Script.done_bind]
  split
  · rfl
  · exact step_looping (fun _ => ⟨rfl, rfl, rfl⟩) (fun _ => .inr id) fun _ => releaseAll_looping also

/-- A loop that follows on itself has passed on that it is to end, and one that ends has ended. -/
def LoopEnds (left : Nat) (next : Option CoordinatorJob) : Prop :=
  ∀ job, next = some job → job.isLoop = true ∧ left = 1

theorem endLoop_looping : endLoop.Follows (looping duty) LoopEnds 1 :=
  fun _ _ _ => ⟨0, .finish, nofun⟩

theorem nextCycle_looping (interval : Coordinator → Nat) : Spares duty left (nextCycle interval) :=
  look_looping fun _ => fun _ => rfl

/-- A loop has itself to end, and all other jobs have nothing to do with loops. -/
theorem perform_looping (job : CoordinatorJob) :
    (perform job).Follows (looping (.background (.coordinator job))) LoopEnds
      (Duty.loops (.background (.coordinator job))) := by
  have goesOn {duty : Duty} {job : CoordinatorJob} (isLoop : job.isLoop = true) :
      (Script.done (some job) : CoordinatorScript _).Follows (looping duty) LoopEnds 1 := by
    rintro _ ⟨⟩
    exact ⟨isLoop, rfl⟩
  cases job with
  | renewal held => exact Script.Returns.bind (renewOne_looping trivial) fun _ => nofun
  | release held => exact Script.Returns.bind (releaseOne_looping rfl) fun _ => nofun
  | renewalLoop =>
    refine Script.Returns.bind (nextCycle_looping _) fun waited => ?_
    cases waited with
    | false => exact endLoop_looping
    | true => exact Script.Returns.bind renew_looping fun _ => goesOn rfl
  | takingLoop =>
    refine Script.Returns.bind (take_looping (fun _ => Nat.one_pos) Nat.one_pos) fun _ => ?_
    refine Script.Returns.bind (nextCycle_looping _) fun waited => ?_
    cases waited with
    | false => exact endLoop_looping
    | true => exact goesOn rfl
  | rebalanceLoop =>
    refine Script.Returns.bind (nextCycle_looping _) fun waited => ?_
    cases waited with
    | false => exact endLoop_looping
    | true => exact Script.Returns.bind (rebalance_looping fun _ => Nat.one_pos) fun _ => goesOn rfl

end

end Coordinator

/-! ## The duties -/

/-- The rules by which loops are started and ended, for a whole worker. -/
def workerLooping (duty : Duty) : Protocol Worker WorkerJob Nat :=
  (Coordinator.looping duty).along Worker.coordinator WorkerJob.coordinator?

namespace Duty

/-- The rules by which a duty starts and ends loops. -/
def looping (duty : Duty) : Protocol Worker Duty Nat := (workerLooping duty).within id background

/-- How a duty may end: a loop that follows on it is one that was left, and a calm duty stays calm. -/
def Ends (duty : Duty) (left : Nat) : Duty ⊕ Outcome → Prop
  | .inl next => next.loops ≤ left ∧ (duty.isCalm = true → next.isCalm = true)
  | .inr _ => True

/-- A script of a duty keeps to the rules, with some loops left to it. -/
abbrev Minds (duty : Duty) (rest : Script Worker Duty (Duty ⊕ Outcome)) (left : Nat) : Prop :=
  rest.Follows duty.looping duty.Ends left

variable {duty : Duty} {left : Nat} {α : Type}

theorem tolerant_looping (duty : Duty) (calls : ∀ left call, duty.MayCall left call) :
    Tolerant (workerLooping duty) where
  asks left _ _ _ := ⟨rfl, fun call _ => calls left call⟩
  steps left _ _ same := by
    show Coordinator.Turns ..
    rw [same]
    exact .stay ⟨rfl, rfl, rfl⟩ (.inr id)
  starts left job none := by simp [workerLooping, Protocol.along, none]

theorem keeping_looping {wanted : Nat → α → Prop} {script : CoordinatorScript α}
    (follows : script.Follows (Coordinator.looping duty) wanted left) :
    (Worker.keeping script).Follows (workerLooping duty) wanted left :=
  Script.Follows.embed _ (fun _ _ => id) (fun _ => id) (fun _ _ _ _ => id) (fun _ _ _ _ => id)
    (fun _ _ _ _ => id) follows

theorem script_looping {wanted : Nat → α → Prop} {script : WorkerScript α}
    (follows : script.Follows (workerLooping duty) wanted left) :
    (Duty.script script).Follows duty.looping wanted left :=
  Script.Follows.within { get := id, put := fun worker _ => worker } (fun _ _ => rfl) follows

/-- What is started is started for good reason, and whatever a calm duty starts is calm. -/
theorem starts_cases {next : Duty} {child after : Nat} (starts : duty.looping.starts left next child after) :
    left = after + next.loops ∧ (duty.mayRelease = false → next.isCalm = true) := by
  obtain ⟨job, rfl, starts⟩ := starts
  cases job with
  | coordinator job =>
    have launches : Coordinator.Launches duty left job child after := starts
    cases launches with
    | renewal held => exact ⟨rfl, fun _ => rfl⟩
    | release may held => exact ⟨rfl, fun mayNot => nomatch may.symm.trans mayNot⟩
    | loop isLoop =>
      refine ⟨by simp [loops, isLoop], fun _ => ?_⟩
      cases job with
      | release held => cases isLoop
      | _ => rfl
  | _ => exact ⟨starts.2.symm, fun _ => rfl⟩

theorem startsAll_cases {duties : List Duty} {children : List Nat} {after : Nat}
    (starts : duty.looping.StartsAll left duties children after) :
    left = after + (duties.map loops).sum ∧ (duty.mayRelease = false → ∀ next ∈ duties, next.isCalm = true) := by
  induction starts with
  | nil => exact ⟨rfl, by simp⟩
  | cons first _ ih =>
    obtain ⟨same, calm⟩ := starts_cases first
    obtain ⟨others, calmToo⟩ := ih
    refine ⟨?_, fun mayNot => List.forall_mem_cons.2 ⟨calm mayNot, calmToo mayNot⟩⟩
    rw [List.map_cons, List.sum_cons]
    omega

theorem mayRelease_of_calm (calm : duty.isCalm = true) : duty.mayRelease = false := by
  cases duty with
  | request asked => cases asked <;> first | rfl | cases calm
  | background job => rfl
  | run | process => cases calm

theorem mayStop_of_calm (calm : duty.isCalm = true) : duty.mayStop = false := by
  cases duty with
  | request asked => cases asked <;> first | rfl | cases calm
  | background job => rfl
  | run | process => cases calm

/-- Of the calm duties only a loop has its coordinator hold further leases. -/
theorem pos_of_gain (calm : duty.isCalm = true) (gains : duty.MayGain left) : 0 < left := by
  unfold MayGain at gains
  split at gains
  · cases calm
  · cases calm
  · cases calm
  · cases calm
  · exact gains
  · exact gains.elim

/-- What can be asked of a worker minds the loops. -/
theorem request_looping (asked : Request) :
    asked.perform.Follows (workerLooping (.request asked)) (fun _ _ => True) 0 := by
  have ended {α : Type} {script : WorkerScript α} {answer : α → Outcome}
      (returns : script.Returns (workerLooping (.request asked)) 0) :
      (script.bind fun value => .done (answer value)).Follows (workerLooping (.request asked))
        (fun _ _ => True) 0 :=
    returns.bind fun _ => trivial
  cases asked with
  | adopt => exact ended (keeping_looping (Coordinator.adopt_looping (fun _ => trivial) trivial rfl))
  | take => exact ended (keeping_looping (Coordinator.take_looping (fun _ => trivial) trivial))
  | renew => exact ended (keeping_looping Coordinator.renew_looping)
  | rebalance => exact ended (keeping_looping (Coordinator.rebalance_looping fun _ => trivial))
  | startLoops => exact ended (keeping_looping Coordinator.start_looping)
  | stopLoops => exact ended (keeping_looping (Coordinator.stop_looping rfl rfl))
  | isLeader => exact ended (keeping_looping Coordinator.isLeader_looping)
  | checkpoint leaseKey token position =>
    have calls (call : StoreCall) : MayCall (.request (.checkpoint leaseKey token position)) 0 call := trivial
    exact ended (keeping_looping (Coordinator.updateCheckpoint_looping calls leaseKey token position))
  | bringUp =>
    have tolerant := tolerant_looping (.request .bringUp) fun _ _ => trivial
    refine (Script.follows_bind ..).2 ((tolerant.bringUp_safe ?_ ?_ 0).imp fun _ _ _ => trivial)
    · exact Script.safe_of_returns fun _ =>
        keeping_looping (Coordinator.adopt_looping (fun _ => trivial) trivial rfl)
    · exact Script.safe_of_returns fun _ => keeping_looping Coordinator.start_looping
  | shutdown =>
    have stays {left : Nat} {found now : Worker} (same : now.coordinator = found.coordinator) :
        (workerLooping (.request .shutdown)).steps left found now left := by
      show Coordinator.Turns ..
      rw [same]
      exact .stay ⟨rfl, rfl, rfl⟩ (.inr id)
    refine (Script.follows_bind ..).2 fun found _ _ => ⟨0, stays found.beginShutdown_coordinator, ?_⟩
    simp only [Script.done_bind]
    split
    · trivial
    · refine Script.Returns.bind (keeping_looping (Coordinator.stop_looping rfl rfl)) fun _ => ?_
      exact fun waited _ _ => ⟨0, stays rfl, fun last _ _ => ⟨0, stays (last.enter_coordinator _), trivial⟩⟩
  | processOnce =>
    have tolerant := tolerant_looping (.request .processOnce) fun _ _ => trivial
    exact ended (tolerant.processOnce_returns (keeping_looping Coordinator.isLeader_looping))
  | shouldFillTable =>
    exact ended (tolerant_looping (.request .shouldFillTable) fun _ _ => trivial).shouldFillTable_returns
  | engage shard =>
    exact ended ((tolerant_looping (.request (.engage shard)) fun _ _ => trivial).consumerFor_returns shard)
  | dismissOthers keep =>
    exact ended
      ((tolerant_looping (.request (.dismissOthers keep)) fun _ _ => trivial).dismissOthers_returns keep)
  | report rejection =>
    exact ended
      ((tolerant_looping (.request (.report rejection)) fun _ _ => trivial).reportRejection_returns rejection)
  | lookup leaseKey =>
    have tolerant := tolerant_looping (.request (.lookup leaseKey)) fun _ _ => trivial
    refine ended ((tolerant.query_returns (.store .list) rfl).bind fun reply => ?_)
    cases reply <;> rfl

theorem background_looping (job : WorkerJob) :
    (Worker.perform job).Follows (workerLooping (.background job))
      (fun left next => ∀ job, next = some job → (background job).loops ≤ left ∧ (background job).isCalm = true)
      (loops (.background job)) := by
  have others {job : WorkerJob} (other : job.coordinator? = none)
      (tolerant : Tolerant (workerLooping (.background job))) :
      (Worker.perform job).Follows (workerLooping (.background job))
        (fun left next => ∀ job, next = some job → (background job).loops ≤ left ∧ (background job).isCalm = true)
        0 := by
    refine (tolerant.perform_follows other).imp ?_
    rintro _ next ⟨rfl, others⟩ job same
    have other := others job same
    cases job with
    | coordinator job => cases other
    | _ => exact ⟨Nat.le_refl _, rfl⟩
  cases job with
  | coordinator job =>
    refine (Script.follows_bind ..).2 ((keeping_looping (Coordinator.perform_looping job)).imp ?_)
    intro left next ends job same
    obtain ⟨next, rfl, rfl⟩ := Option.map_eq_some_iff.1 same
    obtain ⟨isLoop, rfl⟩ := ends next rfl
    refine ⟨by simp [loops, isLoop], ?_⟩
    cases next with
    | release held => cases isLoop
    | _ => rfl
  | consume number => exact others rfl (tolerant_looping (.background (.consume number)) fun _ _ => trivial)
  | captureLoop => exact others rfl (tolerant_looping (.background .captureLoop) fun _ _ => trivial)
  | reportLoop => exact others rfl (tolerant_looping (.background .reportLoop) fun _ _ => trivial)

/-- Every duty minds the loops, if at first it has itself to end. -/
theorem minds (duty : Duty) : duty.Minds duty.behaviour duty.loops := by
  cases duty with
  | request asked =>
    exact (Script.follows_bind ..).2 ((script_looping (request_looping asked)).imp fun _ _ _ => trivial)
  | background job =>
    refine (Script.follows_bind ..).2 ((script_looping (background_looping job)).imp fun left next ends => ?_)
    cases next with
    | none => trivial
    | some next => exact ⟨(ends next rfl).1, fun _ => (ends next rfl).2⟩
  | run =>
    have tolerant := tolerant_looping .run fun _ _ => trivial
    have follows := fun adopts starts => script_looping (tolerant.bringUp_safe adopts starts 0)
    refine (Script.follows_bind ..).2 ((follows ?_ ?_).imp fun left result _ => ?_)
    · exact Script.safe_of_returns fun _ =>
        keeping_looping (Coordinator.adopt_looping (fun _ => trivial) trivial rfl)
    · exact Script.safe_of_returns fun _ => keeping_looping Coordinator.start_looping
    · cases result with
      | ok _ => exact ⟨Nat.zero_le _, nofun⟩
      | error error => trivial
  | process =>
    have tolerant := tolerant_looping .process fun _ _ => trivial
    refine Script.Returns.bind
      (script_looping (tolerant.processOnce_returns (keeping_looping Coordinator.isLeader_looping))) fun _ => ?_
    refine fun found _ _ => ⟨0, .stay ⟨rfl, rfl, rfl⟩ (.inr id), fun complete => ?_⟩
    cases complete with
    | false => trivial
    | true => exact ⟨Nat.le_refl _, nofun⟩

end Duty

end LeaseFleet
