import LeaseFleet.Proofs.Fleet.LeaseDeeds
import LeaseFleet.Proofs.Assignment.PlanTargets

/-!
# A coordinator's dealings

Every script of a coordinator keeps to the rules for its dealings with leases, if the deeds that the
script is for are allowed. The last result, `perform_follows`, is about the background jobs.
-/

namespace LeaseFleet.Coordinator

variable {worker : String} {may : Deed → Lease → Prop} {known : Knowledge}

/-! ## Store calls -/

theorem store_follows (call : StoreCall) {wanted : Knowledge → Except WorkerError call.Answer → Prop}
    (honest : Honest may known (.store call))
    (answered : ∀ answer, Faithful (.store call) (.ok answer) →
      wanted (fun lease => known lease ∨ Tells (.store call) (.ok answer) lease) (.ok answer))
    (failed : ∀ reason, wanted known (.error reason)) :
    (store call).Follows (dealings worker may) wanted known := by
  refine look_follows fun state _ => state.retry.store_follows stopping ?_ ?_ ?_
  · exact fun answer heard => ⟨_, ⟨honest, fun _ => id⟩, answered answer heard⟩
  · exact fun error _ => ⟨⟨honest, fun _ => .inl⟩, failed⟩
  · exact fun low high reply => ⟨trivial, fun _ => .inl⟩

/-- After a listing, its versions are known. -/
theorem store_list_follows {wanted : Knowledge → Except WorkerError (List Lease) → Prop}
    (listed : ∀ leases : List Lease, wanted (fun lease => known lease ∨ lease ∈ leases) (.ok leases))
    (failed : ∀ reason, wanted known (.error reason)) :
    (store .list).Follows (dealings worker may) wanted known :=
  store_follows .list trivial (fun leases _ => listed leases) failed

/-! ## Holding -/

theorem showHeld_returns : showHeld.Returns (dealings worker may) known :=
  look_follows fun _ _ => record_returns _

theorem holdStored_follows {kept : Knowledge} {stored : Lease}
    (owner : stored.owner = some worker) (mem : known stored)
    (keeps : ∀ lease, kept lease → known lease) :
    (holdStored stored).Follows (dealings worker may) (fun after _ => after = kept) known := by
  refine (query_returns .token trivial).bind fun token => (query_returns .clock trivial).bind fun now => ?_
  refine step_returns keeps (fun state _ => gains_hold owner mem token now) fun state _ => ?_
  exact (record_returns _).bind fun _ => record_returns _

/-- A known version may be acquired, where acquiring is allowed. -/
theorem acquire_returns {lease : Lease} (mem : known lease) (allowed : may (.acquire worker) lease) :
    (acquire lease).Returns (dealings worker may) known := by
  refine look_follows fun state holds => ?_
  rw [holds.worker_eq]
  refine (Script.follows_bind ..).2 fun reply heard => ?_
  have honest : Honest may known (.store (.update (lease.transferredTo (some worker)) lease.counter)) :=
    ⟨.acquire worker, lease, mem, allowed, rfl, rfl⟩
  cases reply with
  | error error => exact ⟨known, ⟨honest, fun _ => .inl⟩, rfl⟩
  | ok outcome =>
    cases outcome with
    | updated stored =>
      refine ⟨fun other => known other ∨ other = stored, ⟨honest, fun _ => id⟩, ?_⟩
      have owner : stored.owner = some worker := by rw [show stored = _ from heard]; rfl
      refine (Script.follows_bind ..).2 ((holdStored_follows owner (.inr rfl) fun _ => .inl).imp ?_)
      exact fun after _ same => same
    | versionConflict => exact ⟨known, ⟨honest, fun _ => .inl⟩, rfl⟩
    | notFound => exact ⟨known, ⟨honest, fun _ => .inl⟩, rfl⟩

theorem acquireAll_returns {leases : List Lease} (mem : ∀ lease ∈ leases, known lease)
    (allowed : ∀ lease, may (.acquire worker) lease) :
    (acquireAll leases).Returns (dealings worker may) known := by
  induction leases with
  | nil => rfl
  | cons lease rest ih =>
    obtain ⟨first, others⟩ := List.forall_mem_cons.1 mem
    refine (acquire_returns first (allowed lease)).bind fun result => ?_
    cases result with
    | ok _ => exact ih others
    | error error => rfl

theorem dropHeld_returns (leaseKey : String) (token : Token) :
    (dropHeld leaseKey token).Returns (dealings worker may) known :=
  step_returns (fun _ => id) (fun _ _ => gains_drop leaseKey token) fun _ _ => record_returns _

/-- What came of a write is applied; a stored version has to be known and to belong to the
worker. -/
theorem applyWrite_follows {kept : Knowledge} {leaseKey : String} {outcome : UpdateOutcome}
    (stored : ∀ lease, outcome = .updated lease → known lease ∧ lease.Belongs worker leaseKey)
    (keeps : ∀ lease, kept lease → known lease) (token : Token) :
    (applyWrite leaseKey token outcome).Follows (dealings worker may) (fun after _ => after = kept)
      known := by
  have lost : (do
      Script.count .leasesLost 1
      dropHeld leaseKey token
      return false : CoordinatorScript Bool).Follows (dealings worker may)
        (fun after _ => after = kept) known := by
    refine (record_returns _).bind fun _ => (Script.follows_bind ..).2 ?_
    exact step_returns keeps (fun _ _ => gains_drop leaseKey token) fun _ _ => record_returns _
  cases outcome with
  | updated lease =>
    obtain ⟨mem, belongs⟩ := stored lease rfl
    refine (query_returns .clock trivial).bind fun now => ?_
    exact step_returns keeps (fun _ _ => gains_confirm belongs mem token now) fun _ _ => rfl
  | versionConflict => exact lost
  | notFound => exact lost

/-- The write of a known version of the worker's own, by a deed that leaves the owner. -/
theorem store_deed_follows (deed : Deed) {base : Lease} {leaseKey : String}
    {wanted : Knowledge → Except WorkerError UpdateOutcome → Prop} (mem : known base)
    (allowed : may deed base) (belongs : base.Belongs worker leaseKey)
    (sameOwner : (deed.propose base).owner = base.owner)
    (applied : ∀ (learnt : Knowledge) (outcome : UpdateOutcome), (∀ lease, known lease → learnt lease) →
      (∀ lease, outcome = .updated lease → learnt lease ∧ lease.Belongs worker leaseKey) →
        wanted learnt (.ok outcome))
    (failed : ∀ reason, wanted known (.error reason)) :
    (store (.update (deed.propose base) base.counter)).Follows (dealings worker may) wanted known := by
  refine store_follows (.update (deed.propose base) base.counter)
    ⟨deed, base, mem, allowed, rfl, rfl⟩ (fun outcome heard => ?_) failed
  refine applied _ outcome (fun _ => .inl) fun lease same => ?_
  subst same
  have written : lease = { deed.propose base with counter := base.counter + 1 } := heard
  subst written
  exact ⟨.inr rfl, (deed.propose_leaseKey base).trans belongs.key, sameOwner.trans belongs.owner⟩

/-- A held version of the worker's own may be renewed. -/
theorem renewOne_returns {held : HeldLease} (mem : known held.lease)
    (owner : held.lease.owner = some worker) (allowed : may .renew held.lease) :
    (renewOne held).Returns (dealings worker may) known := by
  refine (Script.follows_bind ..).2 (store_deed_follows .renew mem allowed
    ⟨rfl, owner⟩ rfl (fun learnt outcome keeps stored => ?_) fun reason => ?_)
  · exact (Script.follows_bind ..).2 ((applyWrite_follows stored keeps _).imp fun _ _ same => same)
  · refine (record_returns _).bind fun _ => (query_returns .clock trivial).bind fun now => ?_
    refine look_follows fun state _ => ?_
    split
    · exact dropHeld_returns _ _
    · rfl

theorem releaseOne_returns {held : HeldLease} (mem : known held.lease)
    (allowed : may .release held.lease) : (releaseOne held).Returns (dealings worker may) known := by
  refine Script.Returns.bind (query_returns (.store (.update (released held.lease) held.lease.counter))
    ⟨.release, held.lease, mem, allowed, rfl, rfl⟩) fun _ => rfl

/-- Jobs about what is held carry their versions. -/
theorem startsAll_held {state : Coordinator} (holds : state.HoldsOwn worker)
    (job : HeldLease → CoordinatorJob)
    (carries : ∀ held known, known held.lease → held.lease.owner = some worker →
      (job held).Carries worker known) :
    ∃ children, (dealings worker may).StartsAll
      (fun lease => known lease ∨
        ∃ leaseKey held, state.held.get? leaseKey = some held ∧ held.lease = lease)
      (state.held.values.map job) children
      fun lease => known lease ∨
        ∃ leaseKey held, state.held.get? leaseKey = some held ∧ held.lease = lease := by
  refine startsAll_of_carries fun started mem => ?_
  obtain ⟨held, inMap, rfl⟩ := List.mem_map.1 mem
  obtain ⟨leaseKey, found⟩ := SortedMap.mem_values.1 inMap
  exact carries held _ (.inr ⟨leaseKey, held, found, rfl⟩) (holds.held found).owner

theorem renew_safe : renew.Safe (dealings worker may) := by
  refine fun known => step_follows (fun _ _ => .of_same_held rfl rfl) fun state holds => ?_
  obtain ⟨children, started⟩ := startsAll_held holds .renewal fun _ _ mem owner => ⟨mem, owner⟩
  exact ⟨children, _, started, showHeld_returns.imp fun _ _ _ => trivial⟩

theorem releaseAll_safe : releaseAll.Safe (dealings worker may) := by
  refine fun known => step_follows (fun _ _ => gains_dropAll) fun state holds => ?_
  obtain ⟨children, started⟩ := startsAll_held holds .release fun _ _ mem owner => ⟨mem, owner⟩
  exact ⟨children, _, started, (record_returns _).imp fun _ _ _ => trivial⟩

/-- A checkpoint may be stored for a lease that the worker holds. -/
theorem updateCheckpoint_safe (leaseKey : String) (token : Token) (checkpoint : Checkpoint)
    (allowed : ∀ lease : Lease, lease.Belongs worker leaseKey → may (.checkpoint checkpoint) lease) :
    (updateCheckpoint leaseKey token checkpoint).Safe (dealings worker may) := by
  refine fun known => step_follows (fun _ _ => .of_same_held rfl rfl) fun state holds => ?_
  cases found : state.held.get? leaseKey with
  | none => trivial
  | some held =>
    have belongs := holds.held found
    dsimp only
    split
    · refine (Script.follows_bind ..).2 (store_deed_follows (.checkpoint checkpoint)
        (.inr ⟨leaseKey, held, found, rfl⟩) (allowed _ belongs) belongs rfl
        (fun learnt outcome keeps stored => ?_) fun reason => trivial)
      exact (Script.follows_bind ..).2
        ((applyWrite_follows stored (fun _ => id) token).imp fun _ _ _ => trivial)
    · trivial

/-! ## Taking -/

theorem findLiving_returns (leases : List Lease) :
    (findLiving leases).Returns (dealings worker may) known := by
  refine look_follows fun state _ => (query_returns .clock trivial).bind fun now => ?_
  refine (query_returns .summaries trivial).bind fun summaries => ?_
  refine (query_returns .epoch trivial).bind fun epoch => ?_
  refine Script.Returns.bind (change_returns fun _ _ => ?_) fun _ => ?_
  · exact .of_same_held rfl rfl
  · rfl

theorem scan_returns (leases : List Lease) : (scan leases).Returns (dealings worker may) known :=
  (query_returns .clock trivial).bind fun _ => change_returns fun _ _ => .of_same_held rfl rfl

theorem claim_returns {capacity : Nat} {leases : List Lease} (mem : ∀ lease ∈ leases, known lease)
    (allowed : ∀ lease, may (.acquire worker) lease) :
    (claim capacity leases).Returns (dealings worker may) known := by
  induction leases generalizing capacity with
  | nil => cases capacity <;> rfl
  | cons lease rest ih =>
    cases capacity with
    | zero => rfl
    | succ capacity =>
      obtain ⟨first, others⟩ := List.forall_mem_cons.1 mem
      refine (acquire_returns first (allowed lease)).bind fun result => ?_
      cases result with
      | error error => rfl
      | ok won => cases won <;> exact ih others

theorem claimShare_returns {free expired : List Lease} (mem : ∀ lease ∈ free, known lease)
    (memExpired : ∀ lease ∈ expired, known lease) (capacity : Nat)
    (allowed : ∀ lease, may (.acquire worker) lease) :
    (claimShare free expired capacity).Returns (dealings worker may) known := by
  refine (claim_returns mem allowed).bind fun result => ?_
  cases result with
  | error error => rfl
  | ok left =>
    refine look_follows fun state _ => (claim_returns memExpired allowed).bind fun result => ?_
    cases result <;> rfl

/-- A taking cycle acquires versions of its own listing only. -/
theorem take_safe (allowed : ∀ lease, may (.acquire worker) lease) :
    take.Safe (dealings worker may) := by
  refine fun known => (Script.follows_bind ..).2 (store_list_follows (fun leases => ?_) fun _ => trivial)
  have among {lease : Lease} {keep : Lease → Bool} (mem : lease ∈ leases.filter keep) :
      known lease ∨ lease ∈ leases := .inr (List.mem_filter.1 mem).1
  refine (scan_returns leases).bind fun _ => (findLiving_returns leases).bind fun live => ?_
  refine look_follows fun before _ => ?_
  refine (acquireAll_returns (fun _ mem => among mem) allowed).bind fun result => ?_
  cases result with
  | error error => trivial
  | ok _ =>
    refine look_follows fun state _ => ?_
    dsimp only
    split
    · trivial
    · refine (query_returns .clock trivial).bind fun now => ?_
      exact (claimShare_returns (fun _ mem => among mem) (fun _ mem => among mem) _ allowed).imp
        fun _ _ _ => trivial

/-! ## Rebalancing -/

theorem leads_returns (live : SortedSet String) :
    (leads live : CoordinatorScript Bool).Returns (dealings worker may) known := by
  refine step_returns (fun _ => id) (fun _ _ => .of_same_held rfl rfl) fun found _ => ?_
  dsimp only
  split
  · exact (record_returns _).bind fun _ => rfl
  · rfl

theorem isLeader_returns : isLeader.Returns (dealings worker may) known :=
  look_follows fun state _ => leads_returns state.live

theorem summariesToUse_returns : summariesToUse.Returns (dealings worker may) known := by
  refine look_follows fun state _ => ?_
  split
  · rfl
  · refine state.retry.run_follows stopping ?_ fun _ _ _ => ⟨trivial, fun _ => .inl⟩
    exact (query_returns .summaries trivial).bind fun _ => ⟨rfl, fun _ _ => ⟨rfl, fun _ => rfl⟩⟩

theorem executeMoves_returns {moves : List LeaseMove} (mem : ∀ move ∈ moves, known move.lease)
    (allowed : ∀ target lease, may (.move target) lease) :
    (executeMoves moves : CoordinatorScript (List LeaseMove)).Returns (dealings worker may) known := by
  induction moves with
  | nil => rfl
  | cons move rest ih =>
    obtain ⟨first, others⟩ := List.forall_mem_cons.1 mem
    refine (query_returns (.store move.write)
      ⟨.move move.target, move.lease, first, allowed _ _, rfl, rfl⟩).bind fun reply => ?_
    match reply with
    | .error error => exact ih others
    | .ok (.updated stored) =>
      refine (record_returns _).bind fun _ => (ih others).bind fun _ => rfl
    | .ok .versionConflict => exact (record_returns _).bind fun _ => ih others
    | .ok .notFound => exact (record_returns _).bind fun _ => ih others

theorem runPass_returns {seen : Observed} (engine : AssignmentEngine)
    (mem : ∀ lease ∈ seen.leases, known lease) (allowed : ∀ target lease, may (.move target) lease) :
    (engine.runPass seen : CoordinatorScript _).Returns (dealings worker may) known := by
  have planned : (engine.plan seen : CoordinatorScript _).Follows (dealings worker may)
      (fun after result => after = known ∧ ∀ move ∈ result.1.moves, known move.lease) known := by
    refine (record_returns _).bind fun _ => ⟨rfl, fun move inPlan => ?_⟩
    exact mem _ (planRebalance_lease_mem inPlan)
  refine (Script.follows_bind ..).2 (planned.imp fun after result ⟨same, moves⟩ => ?_)
  subst same
  obtain ⟨plan, engine⟩ := result
  dsimp only
  split
  · rfl
  · refine (executeMoves_returns moves allowed).bind fun applied => ?_
    exact (record_returns _).bind fun _ => rfl

theorem runEngine_returns {leases : List Lease} (mem : ∀ lease ∈ leases, known lease)
    (allowed : ∀ target lease, may (.move target) lease) (summaries : List WorkerSummary)
    (live : List String) :
    (runEngine leases summaries live).Returns (dealings worker may) known := by
  refine step_returns (fun _ => id) (fun _ _ => .of_same_held rfl rfl) fun found _ => ?_
  refine (query_returns .epoch trivial).bind fun now => ?_
  refine (runPass_returns found.engine mem allowed).bind fun result => ?_
  refine Script.Returns.bind (change_returns fun _ _ => ?_) fun _ => ?_
  · exact .of_same_held rfl rfl
  · rfl

/-- A rebalancing pass moves versions of its own listing only. -/
theorem rebalance_safe (allowed : ∀ target lease, may (.move target) lease) :
    rebalance.Safe (dealings worker may) := by
  refine fun known => look_follows fun state _ => (findLiving_returns _).bind fun live => ?_
  refine (leads_returns live).bind fun leading => ?_
  split
  · trivial
  · refine (Script.follows_bind ..).2 (store_list_follows (fun leases => ?_) fun _ => trivial)
    refine summariesToUse_returns.bind fun summaries => ?_
    cases summaries with
    | error error => trivial
    | ok summaries =>
      exact (runEngine_returns (fun _ => .inr) allowed summaries live.toList).bind fun _ => trivial

/-! ## The life of a coordinator -/

/-- Adopting acquires versions of its own listing only. -/
theorem adopt_safe (allowed : ∀ lease, may (.acquire worker) lease) :
    adopt.Safe (dealings worker may) := by
  refine fun known => (Script.follows_bind ..).2 (store_list_follows (fun leases => ?_) fun _ => trivial)
  refine (scan_returns leases).bind fun _ => look_follows fun state _ => ?_
  refine (acquireAll_returns (fun _ mem => .inr (List.mem_filter.1 mem).1) allowed).bind
    fun result => ?_
  cases result with
  | error error => trivial
  | ok _ =>
    refine look_follows fun state _ => ?_
    split
    · exact releaseAll_safe.bind (fun _ => Script.safe_done _) _
    · trivial

theorem start_safe : start.Safe (dealings worker may) := by
  refine fun known => step_returns (fun _ => id) (fun state _ => ?_) fun found _ => ?_
  · unfold markStarted
    split <;> exact .of_same_held rfl rfl
  · split
    · refine (spawnAll_returns fun job mem => ?_).imp fun _ _ _ => trivial
      simp only [loops, List.mem_cons, List.not_mem_nil, or_false] at mem
      rcases mem with rfl | rfl | rfl <;> trivial
    · trivial

theorem stop_safe : stop.Safe (dealings worker may) := by
  refine fun known => step_returns (fun _ => id) (fun _ _ => .of_same_held rfl rfl) fun found _ => ?_
  split
  · trivial
  · exact step_returns (fun _ => id) (fun _ _ => .of_same_held rfl rfl) fun _ _ => releaseAll_safe _

/-- The deeds that a job is for are allowed. -/
def Permits (worker : String) (may : Deed → Lease → Prop) : CoordinatorJob → Prop
  | .renewal held => may .renew held.lease
  | .release held => may .release held.lease
  | .takingLoop => ∀ lease, may (.acquire worker) lease
  | .rebalanceLoop => ∀ target lease, may (.move target) lease
  | .renewalLoop => True

theorem endLoop_returns : endLoop.Follows (dealings worker may)
    (fun _ next => next = none) known := by
  refine Script.Returns.bind (change_returns fun _ _ => ?_) fun _ => ?_
  · exact .of_same_held rfl rfl
  · rfl

/-- A job that carries what it needs keeps to the rules, and so does the job that follows it. -/
theorem perform_follows {job : CoordinatorJob} (carries : job.Carries worker known)
    (permits : Permits worker may job) :
    (perform job).Follows (dealings worker may)
      (fun after next => ∀ job : CoordinatorJob, next = some job → job.Carries worker after) known := by
  have ended (known : Knowledge) : endLoop.Follows (dealings worker may)
      (fun after next => ∀ job : CoordinatorJob, next = some job → job.Carries worker after) known :=
    endLoop_returns.imp fun _ _ same _ isSome => by simp [same] at isSome
  have goesTo {known : Knowledge} (job : CoordinatorJob) (carries : job.Carries worker known) :
      (Script.done (some job) : CoordinatorScript _).Follows (dealings worker may)
        (fun after next => ∀ job : CoordinatorJob, next = some job → job.Carries worker after)
          known :=
    fun _ same => Option.some.inj same ▸ carries
  have cycled {interval : Coordinator → Nat} {known : Knowledge} {next : Bool → CoordinatorScript _}
      (rest : ∀ goesOn, (next goesOn).Follows (dealings worker may)
        (fun after next => ∀ job : CoordinatorJob, next = some job → job.Carries worker after) known) :
      ((nextCycle interval).bind next).Follows (dealings worker may)
        (fun after next => ∀ job : CoordinatorJob, next = some job → job.Carries worker after) known := by
    refine Script.Returns.bind (look_follows fun state _ complete => rfl) rest
  cases job with
  | renewal held =>
    exact (renewOne_returns carries.1 carries.2 permits).bind fun _ _ isSome => by cases isSome
  | release held =>
    exact (releaseOne_returns carries.1 permits).bind fun _ _ isSome => by cases isSome
  | renewalLoop =>
    refine cycled fun goesOn => ?_
    cases goesOn with
    | false => exact ended known
    | true => exact renew_safe.then (fun _ _ => goesTo .renewalLoop trivial) known
  | takingLoop =>
    refine (take_safe permits).then (fun _ after => cycled fun goesOn => ?_) known
    cases goesOn with
    | false => exact ended after
    | true => exact goesTo .takingLoop trivial
  | rebalanceLoop =>
    refine cycled fun goesOn => ?_
    cases goesOn with
    | false => exact ended known
    | true =>
      exact (rebalance_safe permits).then (fun _ _ => goesTo .rebalanceLoop trivial) known

end LeaseFleet.Coordinator
