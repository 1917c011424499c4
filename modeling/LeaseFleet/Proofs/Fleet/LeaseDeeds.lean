import LeaseFleet.Coordinator.Lifecycle
import LeaseFleet.Proofs.Script.Protocol

/-!
# Deeds

Workers write leases by whole copies, but each copy comes from a version of the lease that the
worker has learnt, by one of five deeds, and is fenced by the counter of that version. This is a
protocol (`dealings`) whose marks are the versions that a thread has learnt and may still use. The
state of a coordinator matters in one point only: what it holds names its worker as the owner.
-/

namespace LeaseFleet

/-- Why a lease is written. -/
inductive Deed where
  /-- Takes the lease over in the name of a worker. -/
  | acquire (worker : String)
  | renew
  | checkpoint (checkpoint : Checkpoint)
  | release
  /-- Assigns the lease to a worker. -/
  | move (target : String)

namespace Deed

/-- The copy that a deed makes of a version. -/
def propose : Deed → Lease → Lease
  | acquire worker, base => base.transferredTo (some worker)
  | renew, base => base
  | checkpoint position, base => Coordinator.checkpointed base position
  | release, base => Coordinator.released base
  | move target, base => base.transferredTo (some target)

/-- The version that is stored by a deed. -/
def written (deed : Deed) (base : Lease) : Lease :=
  { deed.propose base with counter := base.counter + 1 }

@[simp] theorem propose_leaseKey (deed : Deed) (base : Lease) :
    (deed.propose base).leaseKey = base.leaseKey := by
  cases deed <;> rfl

@[simp] theorem written_leaseKey (deed : Deed) (base : Lease) :
    (deed.written base).leaseKey = base.leaseKey :=
  deed.propose_leaseKey base

@[simp] theorem written_counter (deed : Deed) (base : Lease) :
    (deed.written base).counter = base.counter + 1 := rfl

end Deed

/-- The versions that a thread has learnt and may still use. -/
abbrev Knowledge := Lease → Prop

/-- The versions that an answer tells of. -/
def Tells : (query : Query) → query.Reply → Lease → Prop
  | .store .list, .ok leases, lease => lease ∈ leases
  | .store (.update _ _), .ok (.updated stored), lease => lease = stored
  | _, _, _ => False

/-- An update writes a known version, by a deed that is allowed, against the counter of that
version. -/
def Honest (may : Deed → Lease → Prop) (known : Knowledge) : Query → Prop
  | .store (.update proposal expected) =>
    ∃ deed base, known base ∧ may deed base ∧ proposal = deed.propose base ∧ expected = base.counter
  | _ => True

theorem Honest.imp {may : Deed → Lease → Prop} {known more : Knowledge} {query : Query}
    (honest : Honest may known query) (known_more : ∀ lease, known lease → more lease) :
    Honest may more query := by
  unfold Honest at honest ⊢
  split
  · obtain ⟨deed, base, mem, rest⟩ := honest
    exact ⟨deed, base, known_more base mem, rest⟩
  · trivial

theorem not_tells_failed {call : StoreCall} {error : StoreError} {lease : Lease} :
    ¬Tells (.store call) (call.failed error) lease := by
  cases call <;> exact id

theorem not_tells_of_not_call {query : Query} (notCall : ∀ call, query ≠ .store call)
    {reply : query.Reply} {lease : Lease} : ¬Tells query reply lease := by
  cases query with
  | store call => exact absurd rfl (notCall call)
  | _ => exact id

/-- An applied update answers with the version that was written. -/
def Faithful : (query : Query) → query.Reply → Prop
  | .store (.update proposal expected), .ok (.updated stored) =>
    stored = { proposal with counter := expected + 1 }
  | _, _ => True

/-- A lease has the given key and names the given worker as its owner. -/
structure Lease.Belongs (lease : Lease) (worker leaseKey : String) : Prop where
  key : lease.leaseKey = leaseKey
  owner : lease.owner = some worker

namespace Coordinator

/-- What a coordinator holds is held under its key and names the worker as the owner. -/
structure HoldsOwn (worker : String) (state : Coordinator) : Prop where
  worker_eq : state.workerId = worker
  held : ∀ {leaseKey held}, state.held.get? leaseKey = some held →
    held.lease.Belongs worker leaseKey

/-- A change of a coordinator with the given knowledge: what it holds afterwards was held before or
is a known version of which its worker is the owner. -/
structure Gains (worker : String) (known : Knowledge) (before after : Coordinator) : Prop where
  worker_eq : after.workerId = before.workerId
  held : ∀ {leaseKey held}, after.held.get? leaseKey = some held →
    before.held.get? leaseKey = some held ∨ held.lease.Belongs worker leaseKey ∧ known held.lease

variable {worker : String} {known : Knowledge} {state : Coordinator}

/-- A change that keeps what is held gains nothing. -/
theorem Gains.of_same_held {after : Coordinator} (sameWorker : after.workerId = state.workerId)
    (sameHeld : after.held = state.held) : state.Gains worker known after where
  worker_eq := sameWorker
  held found := .inl (sameHeld ▸ found)

theorem gains_hold {lease : Lease} (owner : lease.owner = some worker) (mem : known lease)
    (token : Token) (now : Nat) : state.Gains worker known (state.hold lease token now) where
  worker_eq := rfl
  held found := by
    rcases SortedMap.get?_insert_eq_some_iff.1 found with ⟨rfl, rfl⟩ | ⟨_, found⟩
    · exact .inr ⟨⟨rfl, owner⟩, mem⟩
    · exact .inl found

theorem gains_confirm {lease : Lease} {leaseKey : String} (belongs : lease.Belongs worker leaseKey)
    (mem : known lease) (token : Token) (now : Nat) :
    state.Gains worker known (state.confirm leaseKey token lease now) := by
  unfold confirm
  split
  · refine ⟨rfl, fun {key held} found => ?_⟩
    rcases SortedMap.get?_insert_eq_some_iff.1 found with ⟨rfl, rfl⟩ | ⟨_, found⟩
    · exact .inr ⟨belongs, mem⟩
    · exact .inl found
  · exact .of_same_held rfl rfl

theorem gains_drop (leaseKey : String) (token : Token) :
    state.Gains worker known (state.drop leaseKey token) := by
  unfold drop
  split
  · exact ⟨rfl, fun found => .inl (SortedMap.get?_erase_eq_some_iff.1 found).2⟩
  · exact .of_same_held rfl rfl

theorem gains_dropAll : state.Gains worker known state.dropAll :=
  ⟨rfl, fun found => by simp [dropAll] at found⟩

/-- A worker that holds its own goes on to do so, whatever it gains. -/
theorem HoldsOwn.gains {after : Coordinator} (holds : state.HoldsOwn worker)
    (gains : state.Gains worker known after) : after.HoldsOwn worker where
  worker_eq := gains.worker_eq.trans holds.worker_eq
  held found := (gains.held found).elim holds.held And.left

end Coordinator

/-- A job that is about a held lease knows that version, and the worker owns it. -/
def CoordinatorJob.Carries (worker : String) (known : Knowledge) : CoordinatorJob → Prop
  | renewal held | release held => known held.lease ∧ held.lease.owner = some worker
  | renewalLoop | takingLoop | rebalanceLoop => True

/-- The rules for a worker's dealings with leases, where the given deeds are allowed. -/
def dealings (worker : String) (may : Deed → Lease → Prop) :
    Protocol Coordinator CoordinatorJob Knowledge where
  hears := Faithful
  sees := Coordinator.HoldsOwn worker
  asks known query reply after :=
    Honest may known query ∧ ∀ lease, after lease → known lease ∨ Tells query reply lease
  steps known before now after :=
    before.Gains worker known now ∧
      ∀ lease, after lease → known lease ∨
        ∃ leaseKey held, before.held.get? leaseKey = some held ∧ held.lease = lease
  starts known job child after :=
    job.Carries worker child ∧ (∀ lease, child lease → known lease) ∧
      ∀ lease, after lease → known lease

/-! ## Elementary dealings -/

section

variable {worker : String} {may : Deed → Lease → Prop} {known : Knowledge} {α : Type}
  {wanted : Knowledge → α → Prop}

/-- A question that is no update of a lease teaches nothing that matters. -/
theorem query_returns (question : Query) (honest : Honest may known question) :
    (Script.query question : CoordinatorScript _).Returns (dealings worker may) known :=
  fun _ _ => ⟨known, ⟨honest, fun _ => .inl⟩, rfl⟩

theorem record_returns (measurement : Measurement) :
    (Script.record measurement : CoordinatorScript Unit).Returns (dealings worker may) known :=
  query_returns (.record measurement) trivial

/-- A change of state that gains only what is known; what was held becomes known. -/
theorem step_follows {ready : Coordinator → Bool} {change : Coordinator → Coordinator}
    {next : Coordinator → CoordinatorScript α}
    (gains : ∀ state : Coordinator, state.HoldsOwn worker → state.Gains worker known (change state))
    (rest : ∀ state : Coordinator, state.HoldsOwn worker → (next state).Follows (dealings worker may) wanted
      fun lease => known lease ∨
        ∃ leaseKey held, state.held.get? leaseKey = some held ∧ held.lease = lease) :
    ((Script.step ready change .done).bind next).Follows (dealings worker may) wanted known :=
  fun state holds _ => ⟨_, ⟨gains state holds, fun _ => id⟩, rest state holds⟩

/-- A change of state after which only the given versions will be used. -/
theorem step_returns {kept : Knowledge} {ready : Coordinator → Bool}
    {change : Coordinator → Coordinator} {next : Coordinator → CoordinatorScript α}
    (keeps : ∀ lease, kept lease → known lease)
    (gains : ∀ state : Coordinator, state.HoldsOwn worker → state.Gains worker known (change state))
    (rest : ∀ state : Coordinator, state.HoldsOwn worker →
      (next state).Follows (dealings worker may) wanted kept) :
    ((Script.step ready change .done).bind next).Follows (dealings worker may) wanted known :=
  fun state holds _ =>
    ⟨kept, ⟨gains state holds, fun lease mem => .inl (keeps lease mem)⟩, rest state holds⟩

theorem look_follows {next : Coordinator → CoordinatorScript α}
    (rest : ∀ state : Coordinator, state.HoldsOwn worker →
      (next state).Follows (dealings worker may) wanted known) :
    (Script.look.bind next).Follows (dealings worker may) wanted known :=
  step_returns (fun _ => id) (fun _ _ => .of_same_held rfl rfl) rest

theorem change_returns {change : Coordinator → Coordinator}
    (gains : ∀ state : Coordinator, state.HoldsOwn worker → state.Gains worker known (change state)) :
    (Script.change change : CoordinatorScript Unit).Returns (dealings worker may) known :=
  fun state holds _ => ⟨known, ⟨gains state holds, fun _ => .inl⟩, rfl⟩

theorem spawnAll_returns {jobs : List CoordinatorJob}
    (carries : ∀ job ∈ jobs, job.Carries worker known) :
    (Script.spawnAll jobs : CoordinatorScript Unit).Returns (dealings worker may) known := by
  induction jobs with
  | nil => rfl
  | cons job rest ih =>
    obtain ⟨first, others⟩ := List.forall_mem_cons.1 carries
    exact ⟨known, known, ⟨first, fun _ => id, fun _ => id⟩, ih others⟩

theorem startsAll_of_carries {jobs : List CoordinatorJob}
    (carries : ∀ job ∈ jobs, job.Carries worker known) :
    ∃ children, (dealings worker may).StartsAll known jobs children known := by
  induction jobs with
  | nil => exact ⟨[], .nil known⟩
  | cons job rest ih =>
    obtain ⟨first, others⟩ := List.forall_mem_cons.1 carries
    obtain ⟨children, started⟩ := ih others
    exact ⟨known :: children, .cons ⟨first, fun _ => id, fun _ => id⟩ started⟩

end

end LeaseFleet
