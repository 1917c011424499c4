import LeaseFleet.Proofs.Fleet.UpkeepThreads

/-!
# Titles

A token stands for one acquisition of a lease. What a thread may do with a lease under a token rests on
titles: the version that an acquisition has stored, the token that was given for it, and the copies that
were held or written under that token. This is a protocol (`titling`) whose marks are the titles of a
thread. A thread that writes a lease under a token writes from copies of that token only, and leaves
alone whatever is held under another one.
-/

namespace LeaseFleet

/-- What a thread may go by. -/
inductive Title where
  /-- An acquisition has stored the version. -/
  | won (stored : Lease)
  /-- The token was given for the acquisition that has stored the version. -/
  | granted (stored : Lease) (token : Token)
  /-- The version was held under the token, or was written under it. -/
  | copy (lease : Lease) (token : Token)

/-- The titles of a thread. -/
abbrev Titles := Title → Prop

/-- What a duty has to do with the leases that it writes. -/
inductive Office where
  /-- It writes one lease, under one token. -/
  | tends (leaseKey : String) (token : Token)
  /-- It takes leases over. -/
  | takes
  | other

/-- It is about no token. -/
def Office.IsFree (office : Office) : Prop := ∀ leaseKey token, office ≠ .tends leaseKey token

namespace Duty

def office : Duty → Office
  | request (.checkpoint leaseKey token _) => .tends leaseKey token
  | background (.coordinator (.renewal held)) => .tends held.lease.leaseKey held.token
  | request .adopt | request .take | request .bringUp | run => .takes
  | background (.coordinator .takingLoop) => .takes
  | _ => .other

end Duty

/-- Whether an answer may give a title. -/
def Gives (office : Office) (titles : Titles) : (query : Query) → query.Reply → Title → Prop
  | .store (.update _ _), .ok (.updated stored), title =>
    match office with
    | .tends _ token => title = .copy stored token
    | .takes => title = .won stored
    | .other => False
  | .token, token, title => ∃ stored, titles (.won stored) ∧ title = .granted stored token
  | _, _, _ => False

theorem not_gives_failed {office : Office} {titles : Titles} {call : StoreCall} {error : StoreError}
    {title : Title} : ¬Gives office titles (.store call) (call.failed error) title := by
  cases call <;> exact id

theorem not_gives_of_other {office : Office} {titles : Titles} {query : Query} {reply : query.Reply}
    {title : Title} (notCall : ∀ call, query ≠ .store call) (notToken : query ≠ .token) :
    ¬Gives office titles query reply title := by
  cases query with
  | store call => exact absurd rfl (notCall call)
  | token => exact absurd rfl notToken
  | _ => exact id

/-- The titles of a thread after an answer, which gives one title at most. -/
def Earns (office : Office) (titles : Titles) (query : Query) (reply : query.Reply) (after : Titles) : Prop :=
  ∃ given : Option Title, (∀ title, given = some title → Gives office titles query reply title) ∧
    ∀ title, after title → titles title ∨ given = some title

theorem earns_nothing (office : Office) (titles : Titles) (query : Query) (reply : query.Reply) :
    Earns office titles query reply titles :=
  ⟨none, nofun, fun _ => .inl⟩

theorem Gives.earns {office : Office} {titles : Titles} {query : Query} {reply : query.Reply} {given : Title}
    (gives : Gives office titles query reply given) :
    Earns office titles query reply fun title => titles title ∨ title = given := by
  refine ⟨some given, fun title same => ?_, fun title mem => ?_⟩
  · cases same
    exact gives
  · exact mem.imp_right fun same => congrArg some same.symm

/-- Who writes a lease under a token does it against the counter of a copy of that token. -/
def Entitled (office : Office) (titles : Titles) : Query → Prop
  | .store (.update proposal expected) => ∀ leaseKey token, office = .tends leaseKey token →
    proposal.leaseKey = leaseKey ∧
      ∃ base, titles (.copy base token) ∧ base.leaseKey = leaseKey ∧ expected = base.counter
  | _ => True

theorem Office.IsFree.entitled {office : Office} (free : office.IsFree) (titles : Titles) (query : Query) :
    Entitled office titles query := by
  unfold Entitled
  split
  · exact fun _ _ same => absurd same (free _ _)
  · trivial

namespace Coordinator

/-- What a step may do to what is held: a lease is newly held by a grant, or gets another version under
the token under which it is written, and what is held under another token is left alone by that. -/
structure Changes (office : Office) (titles : Titles) (before now : Coordinator) : Prop where
  held : ∀ {leaseKey held}, now.held.get? leaseKey = some held → before.held.get? leaseKey = some held ∨
    held.lease.leaseKey = leaseKey ∧ (titles (.granted held.lease held.token) ∨
      office = .tends leaseKey held.token ∧ titles (.copy held.lease held.token) ∧
        before.holds leaseKey held.token = true)
  spares : ∀ {leaseKey token other held}, office = .tends leaseKey token →
    before.held.get? other = some held → (other = leaseKey ∧ held.token = token) ∨
      now.held.get? other = some held

variable {office : Office} {titles : Titles} {state after : Coordinator}

theorem Changes.of_same_held (same : after.held = state.held) : state.Changes office titles after where
  held found := .inl (same ▸ found)
  spares _ found := .inr (same ▸ found)

/-- Whoever writes under no token may stop holding leases. -/
theorem Changes.of_fewer (free : office.IsFree)
    (fewer : ∀ {leaseKey held}, after.held.get? leaseKey = some held → state.held.get? leaseKey = some held) :
    state.Changes office titles after where
  held found := .inl (fewer found)
  spares same := absurd same (free _ _)

theorem changes_hold (free : office.IsFree) {stored : Lease} {token : Token}
    (granted : titles (.granted stored token)) (now : Nat) :
    state.Changes office titles (state.hold stored token now) where
  held found := by
    rcases SortedMap.get?_insert_eq_some_iff.1 found with ⟨rfl, rfl⟩ | ⟨_, found⟩
    · exact .inr ⟨rfl, .inl granted⟩
    · exact .inl found
  spares same := absurd same (free _ _)

theorem changes_confirm {leaseKey : String} {token : Token} {stored : Lease}
    (tends : office = .tends leaseKey token) (copy : titles (.copy stored token))
    (isKey : stored.leaseKey = leaseKey) (now : Nat) :
    state.Changes office titles (state.confirm leaseKey token stored now) := by
  unfold confirm
  split
  · rename_i holds
    constructor
    · intro other held found
      rcases SortedMap.get?_insert_eq_some_iff.1 found with ⟨rfl, rfl⟩ | ⟨_, found⟩
      · exact .inr ⟨isKey, .inr ⟨tends, copy, holds⟩⟩
      · exact .inl found
    · intro key under other held same found
      obtain ⟨rfl, rfl⟩ := Office.tends.inj (tends.symm.trans same)
      by_cases isIt : other = leaseKey
      · subst isIt
        have sameToken : held.token = token := by simpa [Coordinator.holds, found] using holds
        exact .inl ⟨rfl, sameToken⟩
      · exact .inr (SortedMap.get?_insert_eq_some_iff.2 (.inr ⟨isIt, found⟩))
  · exact .of_same_held rfl

theorem changes_drop {leaseKey : String} {token : Token} (tends : office = .tends leaseKey token) :
    state.Changes office titles (state.drop leaseKey token) := by
  unfold drop
  split
  · rename_i holds
    refine ⟨fun found => .inl (SortedMap.get?_erase_eq_some_iff.1 found).2, ?_⟩
    intro key under other held same found
    obtain ⟨rfl, rfl⟩ := Office.tends.inj (tends.symm.trans same)
    by_cases isIt : other = leaseKey
    · subst isIt
      have sameToken : held.token = token := by simpa [Coordinator.holds, found] using holds
      exact .inl ⟨rfl, sameToken⟩
    · exact .inr (SortedMap.get?_erase_eq_some_iff.2 ⟨isIt, found⟩)
  · exact .of_same_held rfl

/-- Leases stay held under their own keys. -/
theorem Keyed.changes (keyed : state.Keyed) (changes : state.Changes office titles after) : after.Keyed :=
  fun found => (changes.held found).elim keyed And.left

end Coordinator

/-- The renewal of a held lease goes by a copy of it. -/
def CoordinatorJob.Rests (titles : Titles) (job : CoordinatorJob) : Prop :=
  ∀ {held}, job = .renewal held → titles (.copy held.lease held.token)

/-- The titles to the copies that a coordinator holds, beside others. -/
def Coordinator.TitlesWith (state : Coordinator) (titles : Titles) : Titles := fun title =>
  titles title ∨ ∃ leaseKey held, state.held.get? leaseKey = some held ∧ title = .copy held.lease held.token

/-- The rules for what a coordinator does with leases and tokens. -/
def titling (office : Office) : Protocol Coordinator CoordinatorJob Titles where
  hears := Faithful
  sees := Coordinator.Keyed
  asks titles query reply after := Entitled office titles query ∧ Earns office titles query reply after
  steps titles before now after :=
    before.Changes office titles now ∧ ∀ title, after title → before.TitlesWith titles title
  starts titles job child after :=
    job.Rests child ∧ (∀ title, child title → titles title) ∧ ∀ title, after title → titles title

/-! ## Elementary actions -/

section

variable {office : Office} {titles : Titles} {α : Type} {wanted : Titles → α → Prop}

theorem query_titling (question : Query) (entitled : Entitled office titles question) :
    (Script.query question : CoordinatorScript _).Returns (titling office) titles :=
  fun _ _ => ⟨titles, ⟨entitled, earns_nothing ..⟩, rfl⟩

theorem record_titling (measurement : Measurement) :
    (Script.record measurement : CoordinatorScript Unit).Returns (titling office) titles :=
  query_titling (.record measurement) trivial

/-- A change of state after which the thread goes by some of its titles. -/
theorem step_titling {kept : Titles} {ready : Coordinator → Bool} {change : Coordinator → Coordinator}
    {next : Coordinator → CoordinatorScript α} (keeps : ∀ title, kept title → titles title)
    (changes : ∀ state : Coordinator, state.Changes office titles (change state))
    (rest : ∀ state : Coordinator, state.Keyed → (next state).Follows (titling office) wanted kept) :
    ((Script.step ready change .done).bind next).Follows (titling office) wanted titles :=
  fun state keyed _ =>
    ⟨kept, ⟨changes state, fun title mem => .inl (keeps title mem)⟩, rest state keyed⟩

/-- A change of state by which the thread gets the titles to all that was held. -/
theorem step_copying {ready : Coordinator → Bool} {change : Coordinator → Coordinator}
    {next : Coordinator → CoordinatorScript α}
    (changes : ∀ state : Coordinator, state.Changes office titles (change state))
    (rest : ∀ state : Coordinator, state.Keyed →
      (next state).Follows (titling office) wanted (state.TitlesWith titles)) :
    ((Script.step ready change .done).bind next).Follows (titling office) wanted titles :=
  fun state keyed _ => ⟨_, ⟨changes state, fun _ => id⟩, rest state keyed⟩

theorem look_titling {next : Coordinator → CoordinatorScript α}
    (rest : ∀ state : Coordinator, state.Keyed → (next state).Follows (titling office) wanted titles) :
    (Script.look.bind next).Follows (titling office) wanted titles :=
  step_titling (fun _ => id) (fun _ => .of_same_held rfl) rest

theorem change_titling {change : Coordinator → Coordinator}
    (same : ∀ state : Coordinator, (change state).held = state.held) :
    (Script.change change : CoordinatorScript Unit).Returns (titling office) titles :=
  fun state _ _ => ⟨titles, ⟨.of_same_held (same state), fun _ => .inl⟩, rfl⟩

theorem spawnAll_titling {jobs : List CoordinatorJob} (rests : ∀ job ∈ jobs, job.Rests titles) :
    (Script.spawnAll jobs : CoordinatorScript Unit).Returns (titling office) titles := by
  induction jobs with
  | nil => rfl
  | cons job rest ih =>
    obtain ⟨first, others⟩ := List.forall_mem_cons.1 rests
    exact ⟨titles, titles, ⟨first, fun _ => id, fun _ => id⟩, ih others⟩

theorem startsAll_titling {jobs : List CoordinatorJob} (rests : ∀ job ∈ jobs, job.Rests titles) :
    ∃ children, (titling office).StartsAll titles jobs children titles := by
  induction jobs with
  | nil => exact ⟨[], .nil titles⟩
  | cons job rest ih =>
    obtain ⟨first, others⟩ := List.forall_mem_cons.1 rests
    obtain ⟨children, started⟩ := ih others
    exact ⟨titles :: children, .cons ⟨first, fun _ => id, fun _ => id⟩ started⟩

end

end LeaseFleet
