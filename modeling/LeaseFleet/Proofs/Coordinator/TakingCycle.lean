import LeaseFleet.Proofs.Script.Scenes
import LeaseFleet.Proofs.Sync.ShardSync
import Mathlib.Algebra.Order.Floor.Div

/-!
# A taking cycle

A worker tries leases one after another. A try that is won is held under a fresh token from then on, and
one that is not changes nothing of what is held (`Gathers`). So the tries of a cycle can be counted
(`Claimed`). The cycle falls into adoptions, claims of free leases and claims of expired ones, of which each
kind is tried in key order and only after the one before it (`TakingCycle.Limited`), and it holds what it
has stored (`TakingCycle.Recorded`).
-/

namespace LeaseFleet

/-! ## Tries -/

/-- A try to acquire a lease, with the answer of the store. -/
structure Try where
  lease : Lease
  reply : Except StoreError UpdateOutcome

namespace Try

/-- The call of a try, with its answer. -/
def call (worker : String) (attempt : Try) : (call : StoreCall) × call.Reply :=
  ⟨.update (attempt.lease.transferredTo (some worker)) attempt.lease.counter, attempt.reply⟩

/-- What is stored since, if the try was won. -/
def stored? (attempt : Try) : Option Lease :=
  match attempt.reply with
  | .ok (.updated stored) => some stored
  | _ => none

def won (attempt : Try) : Bool := attempt.stored?.isSome

/-- Whether the store failed; a race that was lost is no failure. -/
def failed (attempt : Try) : Bool :=
  match attempt.reply with
  | .error _ => true
  | .ok _ => false

theorem not_failed_of_won {attempt : Try} (won : attempt.won = true) : attempt.failed = false := by
  obtain ⟨lease, reply⟩ := attempt
  cases reply with
  | error => cases won
  | ok => rfl

end Try

/-- What is held before and after some tries, with the numbers of tokens that were given by then. -/
inductive Gathers :
    SortedMap String HeldLease → Nat → List Try → SortedMap String HeldLease → Nat → Prop
  | nil {held : SortedMap String HeldLease} {tokens later : Nat} (le : tokens ≤ later) :
      Gathers held tokens [] held later
  | won {held last : SortedMap String HeldLease} {tokens serial time later : Nat} {attempt : Try}
      {stored : Lease} {tries : List Try} (isStored : attempt.stored? = some stored)
      (fresh : tokens ≤ serial)
      (rest : Gathers (held.insert stored.leaseKey
        { lease := stored, token := ⟨serial⟩, lastRenewal := time }) (serial + 1) tries last later) :
      Gathers held tokens (attempt :: tries) last later
  | lost {held last : SortedMap String HeldLease} {tokens later : Nat} {attempt : Try} {tries : List Try}
      (notStored : attempt.stored? = none) (rest : Gathers held tokens tries last later) :
      Gathers held tokens (attempt :: tries) last later

namespace Gathers

variable {held between last : SortedMap String HeldLease} {tokens middle later : Nat}
  {tries more : List Try}

theorem tokens_le (gathers : Gathers held tokens tries last later) : tokens ≤ later := by
  induction gathers with
  | nil le => exact le
  | won _ fresh _ ih => omega
  | lost _ _ ih => exact ih

theorem of_le (le : tokens ≤ middle) (gathers : Gathers held middle tries last later) :
    Gathers held tokens tries last later := by
  induction gathers with
  | nil le' => exact .nil (Nat.le_trans le le')
  | won isStored fresh rest => exact .won isStored (Nat.le_trans le fresh) rest
  | lost notStored _ ih => exact .lost notStored (ih le)

theorem append (first : Gathers held tokens tries between middle)
    (second : Gathers between middle more last later) :
    Gathers held tokens (tries ++ more) last later := by
  induction first with
  | nil le => exact second.of_le le
  | won isStored fresh _ ih => exact .won isStored fresh (ih second)
  | lost notStored _ ih => exact .lost notStored (ih second)

/-- What is not won stays as it was. -/
theorem get?_of_not_won (gathers : Gathers held tokens tries last later) {leaseKey : String}
    (others : ∀ stored ∈ tries.filterMap Try.stored?, stored.leaseKey ≠ leaseKey) :
    last.get? leaseKey = held.get? leaseKey := by
  induction gathers with
  | nil => rfl
  | won isStored _ _ ih =>
    rw [List.filterMap_cons_some isStored, List.forall_mem_cons] at others
    rw [ih others.2, SortedMap.get?_insert_of_ne _ (Ne.symm others.1)]
  | lost notStored _ ih =>
    rw [List.filterMap_cons_none notStored] at others
    exact ih others

/-- What is won is held, each lease under a token of its own that was not given before. -/
theorem held_of_won (gathers : Gathers held tokens tries last later)
    (distinct : ((tries.filterMap Try.stored?).map Lease.leaseKey).Nodup) :
    ∃ won : List HeldLease, won.map HeldLease.lease = tries.filterMap Try.stored? ∧
      (∀ lease ∈ won, last.get? lease.lease.leaseKey = some lease ∧ tokens ≤ lease.token.serial ∧
        lease.token.serial < later) ∧
        won.Pairwise fun earlier later => earlier.token.serial < later.token.serial := by
  induction gathers with
  | nil => exact ⟨[], rfl, by simp, .nil⟩
  | @won held last tokens serial time later attempt stored tries isStored fresh rest ih =>
    rw [List.filterMap_cons_some isStored] at distinct ⊢
    obtain ⟨new, distinct⟩ := List.nodup_cons.1 distinct
    obtain ⟨won, same, isHeld, inOrder⟩ := ih distinct
    refine ⟨{ lease := stored, token := ⟨serial⟩, lastRenewal := time } :: won, by simp [same],
      List.forall_mem_cons.2 ⟨⟨?_, fresh, rest.tokens_le⟩, fun lease mem => ?_⟩,
      List.pairwise_cons.2 ⟨fun lease mem => (isHeld lease mem).2.1, inOrder⟩⟩
    · rw [rest.get?_of_not_won fun other mem same => new (List.mem_map.2 ⟨other, mem, same⟩)]
      exact SortedMap.get?_insert_self ..
    · obtain ⟨isHeld, above, below⟩ := isHeld lease mem
      exact ⟨isHeld, by omega, below⟩
  | lost notStored _ ih =>
    rw [List.filterMap_cons_none notStored] at distinct ⊢
    exact ih distinct

/-- Of leases that were not held, as many are held in addition as are won. -/
theorem size_of_new (gathers : Gathers held tokens tries last later)
    (distinct : ((tries.filterMap Try.stored?).map Lease.leaseKey).Nodup)
    (new : ∀ stored ∈ tries.filterMap Try.stored?, held.get? stored.leaseKey = none) :
    last.size = held.size + tries.countP Try.won := by
  induction gathers with
  | nil => rfl
  | @won held last tokens serial time later attempt stored tries isStored fresh rest ih =>
    rw [List.filterMap_cons_some isStored] at distinct new
    obtain ⟨absent, new⟩ := List.forall_mem_cons.1 new
    obtain ⟨notAgain, distinct⟩ := List.nodup_cons.1 distinct
    have isWon : attempt.won = true := by simp [Try.won, isStored]
    rw [List.countP_cons_of_pos isWon, ih distinct, SortedMap.size_insert_of_absent absent]
    · omega
    · intro other mem
      have differs : other.leaseKey ≠ stored.leaseKey := fun same =>
        notAgain (List.mem_map.2 ⟨other, mem, same⟩)
      rw [SortedMap.get?_insert_of_ne _ differs]
      exact new other mem
  | @lost held last tokens later attempt tries notStored _ ih =>
    rw [List.filterMap_cons_none notStored] at distinct new
    have notWon : ¬attempt.won = true := by simp [Try.won, notStored]
    rw [List.countP_cons_of_neg notWon, ih distinct new]

end Gathers

/-- What a worker has tried from one scene to another one, and what it holds of it. -/
structure Tried (first : Scene Coordinator) (beats : List (Beat Coordinator)) (tries : List Try)
    (last : Scene Coordinator) : Prop where
  calls : calledIn (beats.map Beat.act) =
    tries.map (Try.call first.state.workerId)
  gathers : Gathers first.state.held first.tokens tries last.state.held last.tokens
  stored : ∀ attempt ∈ tries, ∀ stored, attempt.stored? = some stored → stored =
    { attempt.lease.transferredTo (some first.state.workerId) with counter := attempt.lease.counter + 1 }
  observed : last.state.observed = first.state.observed
  workerId : last.state.workerId = first.state.workerId
  settings : last.state.settings = first.state.settings
  keyed : first.table.Keyed → last.table.Keyed

namespace Tried

variable {first between last : Scene Coordinator} {before after beats : List (Beat Coordinator)}
  {tries more : List Try}

theorem append (earlier : Tried first before tries between) (later : Tried between after more last) :
    Tried first (before ++ after) (tries ++ more) last where
  calls := by
    rw [List.map_append, calledIn_append, List.map_append, earlier.calls, later.calls, earlier.workerId]
  gathers := earlier.gathers.append later.gathers
  stored attempt mem := by
    obtain mem | mem := List.mem_append.1 mem
    · exact earlier.stored attempt mem
    · exact earlier.workerId ▸ later.stored attempt mem
  observed := later.observed.trans earlier.observed
  workerId := later.workerId.trans earlier.workerId
  settings := later.settings.trans earlier.settings
  keyed := later.keyed ∘ earlier.keyed

/-- Acts that call nothing and change nothing of it. -/
theorem of_passes (passes : first.Passes last)
    (noCalls : calledIn (beats.map Beat.act) = []) : Tried first beats [] last where
  calls := noCalls
  gathers := passes.basis.held ▸ .nil passes.tokens
  stored := by simp
  observed := passes.basis.observed
  workerId := passes.basis.workerId
  settings := passes.basis.settings
  keyed := passes.keyed

/-- Nothing more is tried. -/
theorem ends (tried : Tried first beats tries between) (waiting : between.Passes last) :
    Tried first (beats ++ []) tries last := by
  have none : Tried between [] [] last := .of_passes waiting rfl
  simpa using tried.append none

end Tried

/-! ## A single try -/

/-- What a try returns: whether it was won, unless the store failed. -/
def Try.Returns (attempt : Try) (result : Except WorkerError Bool) : Prop :=
  (attempt.failed = false → result = .ok attempt.won) ∧
    (attempt.failed = true → ∃ error, result = .error error)

namespace Coordinator

variable {first last : Scene Coordinator} {beats : List (Beat Coordinator)}

theorem SameBasis.hold {before now : Coordinator} (same : before.SameBasis now) (stored : Lease)
    (token : Token) (time : Nat) : (before.hold stored token time).SameBasis (now.hold stored token time) :=
  ⟨by simp only [Coordinator.hold, same.held], same.observed, same.workerId, same.settings⟩

/-- A lease is held under a fresh token. -/
theorem leads_holdStored {stored : Lease} (leads : Leads (holdStored stored) first beats last ()) :
    calledIn (beats.map Beat.act) = [] ∧ ∃ serial time,
      first.tokens ≤ serial ∧ ({ first with
        state := first.state.hold stored ⟨serial⟩ time, tokens := serial + 1 } : Scene _).Passes last := by
  obtain ⟨given, token, _, beforeToken, _, isToken, does, afterToken, rfl⟩ := leads_query leads
  obtain ⟨rfl, left⟩ := does.of_token
  obtain ⟨read, time, _, _, beforeHold, isRead, _, afterClock, rfl⟩ := leads_query afterToken
  obtain ⟨holds, _, others, isHold, leftHolding, afterHold, rfl⟩ := Script.Leads.of_step afterClock
  obtain ⟨counted, _, _, _, counting, isCounted, _, afterCount, rfl⟩ := leads_query afterHold
  obtain ⟨shown, _, _, _, showing, isShown, _, afterShow, rfl⟩ := leads_query afterCount
  obtain ⟨rfl, _, waiting⟩ := Script.Leads.of_done afterShow
  refine ⟨by simp [isToken, isRead, isHold, isCounted, isShown],
    given.found.tokens, time, beforeToken.tokens, ?_⟩
  have before : ({ first with tokens := given.found.tokens + 1 } : Scene _).Passes holds.found := by
    have given : ({ first with tokens := given.found.tokens + 1 } : Scene _).Passes given.left :=
      left ▸ ⟨beforeToken.basis, beforeToken.time, Nat.le_refl _, beforeToken.keyed⟩
    exact given.trans (beforeHold.trans others)
  have after := counting.trans (showing.trans waiting)
  rw [leftHolding] at after
  have holding : ({ first with
      state := first.state.hold stored ⟨given.found.tokens⟩ time, tokens := given.found.tokens + 1 } :
        Scene _).Passes
          { holds.found with state := holds.found.state.hold stored ⟨given.found.tokens⟩ time } :=
    ⟨before.basis.hold stored ⟨given.found.tokens⟩ time, before.time, before.tokens, before.keyed⟩
  exact holding.trans after

/-- A worker looks up its own name and calls the store once. -/
theorem leads_acquire {lease : Lease} {result : Except WorkerError Bool}
    (leads : Leads (acquire lease) first beats last result) :
    ∃ attempt : Try, attempt.lease = lease ∧ Tried first beats [attempt] last ∧
      attempt.Returns result := by
  obtain ⟨state, looks, _, basis, looked, isLook, afterLook, rfl⟩ := leads_look leads
  dsimp only at afterLook
  rw [basis.workerId] at afterLook
  obtain ⟨calls, reply, later, _, called, isCall, does, afterCall, rfl⟩ := leads_query afterLook
  obtain ⟨answers, _⟩ := does.of_call
  have before : first.Passes calls.left := looked.trans called
  have call (rest : List (Beat Coordinator))
      (noCalls : calledIn (rest.map Beat.act) = []) :
      calledIn ((looks :: calls :: rest).map Beat.act) =
        [Try.call first.state.workerId ⟨lease, reply⟩] := by
    rw [List.map_cons, List.map_cons, isLook, isCall, calledIn_changed, calledIn_store, noCalls]
    rfl
  -- a try that is not won leaves everything as it was
  have lost (notStored : (Try.mk lease reply).stored? = none) (passes : first.Passes last) :
      Tried first [looks, calls] [⟨lease, reply⟩] last :=
    { calls := call [] rfl
      gathers := .lost notStored (passes.basis.held ▸ .nil passes.tokens)
      stored := by simp [notStored]
      observed := passes.basis.observed
      workerId := passes.basis.workerId
      settings := passes.basis.settings
      keyed := passes.keyed }
  refine ⟨⟨lease, reply⟩, rfl, ?_⟩
  rcases reply with error | stored | _ | _
  case ok.updated =>
    obtain ⟨holding, between, _, after, holds, ends, rfl⟩ :=
      Script.Leads.of_bind Scene.Passes.refl afterCall
    obtain ⟨rfl, rfl, waiting⟩ := Script.Leads.of_done ends
    obtain ⟨noCalls, serial, time, fresh, passes⟩ := leads_holdStored holds
    have held : (first.state.hold stored ⟨serial⟩ time).SameBasis last.state :=
      (before.basis.hold stored ⟨serial⟩ time).trans (passes.trans waiting).basis
    refine ⟨⟨call _ (by simpa using noCalls), ?gathers, ?stored, held.observed, held.workerId,
      held.settings, (passes.trans waiting).keyed ∘ before.keyed⟩, fun _ => rfl, nofun⟩
    case gathers =>
      rw [held.held]
      exact .won rfl (Nat.le_trans before.tokens fresh) (.nil (passes.trans waiting).tokens)
    case stored =>
      intro attempt mem stored' isStored
      obtain rfl := List.mem_singleton.1 mem
      obtain rfl := Option.some.inj isStored
      exact answers.stored.1
  case error =>
    obtain ⟨rfl, rfl, waiting⟩ := Script.Leads.of_done afterCall
    exact ⟨lost rfl (before.trans waiting), nofun, fun _ => ⟨_, rfl⟩⟩
  all_goals
    obtain ⟨rfl, rfl, waiting⟩ := Script.Leads.of_done afterCall
    exact ⟨lost rfl (before.trans waiting), fun _ => rfl, nofun⟩

end Coordinator

/-! ## One try after another -/

/-- What comes of trying leases in order: it ends after the last one or with a failure of the store. -/
structure Adopts (leases : List Lease) (tries : List Try) (result : Except WorkerError Unit) : Prop where
  inOrder : tries.map Try.lease <+: leases
  complete : result = .ok () → tries.map Try.lease = leases
  failed : (∃ error, result = .error error) ↔ ∃ attempt ∈ tries, attempt.failed = true

/-- What comes of trying leases in order until as many as allowed are won, and how many more are allowed
then. It ends with a failure of the store, too. -/
structure Claimed (capacity : Nat) (leases : List Lease) (tries : List Try)
    (result : Except WorkerError Nat) : Prop where
  inOrder : tries.map Try.lease <+: leases
  none : capacity = 0 → tries = []
  atMost : tries.countP Try.won ≤ capacity
  left : ∀ left, result = .ok left →
    left + tries.countP Try.won = capacity ∧ (left = 0 ∨ tries.map Try.lease = leases)
  failed : (∃ error, result = .error error) ↔ ∃ attempt ∈ tries, attempt.failed = true
  allWon : (∀ attempt ∈ tries, attempt.won = true) → tries.map Try.lease = leases.take capacity

namespace Claimed

variable {capacity : Nat} {attempt : Try} {leases : List Lease} {tries : List Try}
  {result : Except WorkerError Nat}

theorem none_allowed (leases : List Lease) : Claimed 0 leases [] (.ok 0) :=
  ⟨List.nil_prefix, fun _ => rfl, Nat.le_refl _, by simp, by simp, by simp⟩

theorem none_left (capacity : Nat) : Claimed capacity [] [] (.ok capacity) :=
  ⟨List.nil_prefix, fun _ => rfl, Nat.zero_le _, by simp, by simp, by simp⟩

theorem cons_failed {error : WorkerError} (failed : attempt.failed = true) :
    Claimed (capacity + 1) (attempt.lease :: leases) [attempt] (.error error) := by
  have notWon : ¬attempt.won = true := fun won => by simp [Try.not_failed_of_won won] at failed
  refine ⟨?inOrder, nofun, ?atMost, by simp, by simp [failed], ?allWon⟩
  case inOrder => exact List.cons_prefix_cons.2 ⟨rfl, List.nil_prefix⟩
  case atMost => rw [List.countP_cons_of_neg notWon]; exact Nat.zero_le _
  case allWon => exact fun allWon => absurd (allWon attempt (by simp)) notWon

theorem cons_won (won : attempt.won = true) (claims : Claimed capacity leases tries result) :
    Claimed (capacity + 1) (attempt.lease :: leases) (attempt :: tries) result := by
  have count : (attempt :: tries).countP Try.won = tries.countP Try.won + 1 :=
    List.countP_cons_of_pos won
  have atMost := claims.atMost
  refine ⟨List.cons_prefix_cons.2 ⟨rfl, claims.inOrder⟩, nofun, by omega, fun left isLeft => ?left,
    ?failed, fun allWon => ?allWon⟩
  case left =>
    obtain ⟨sum, either⟩ := claims.left left isLeft
    exact ⟨by omega, either.imp_right fun all => by rw [List.map_cons, all]⟩
  case failed => simpa [Try.not_failed_of_won won] using claims.failed
  case allWon =>
    rw [List.map_cons, claims.allWon (List.forall_mem_cons.1 allWon).2, List.take_succ_cons]

theorem cons_lost (notWon : attempt.won = false) (notFailed : attempt.failed = false)
    (claims : Claimed (capacity + 1) leases tries result) :
    Claimed (capacity + 1) (attempt.lease :: leases) (attempt :: tries) result := by
  have count : (attempt :: tries).countP Try.won = tries.countP Try.won :=
    List.countP_cons_of_neg (by simp [notWon])
  have atMost := claims.atMost
  refine ⟨List.cons_prefix_cons.2 ⟨rfl, claims.inOrder⟩, nofun, by omega, fun left isLeft => ?left,
    ?failed, fun allWon => ?allWon⟩
  case left =>
    obtain ⟨sum, either⟩ := claims.left left isLeft
    exact ⟨by omega, either.imp_right fun all => by rw [List.map_cons, all]⟩
  case failed => simpa [notFailed] using claims.failed
  case allWon => exact absurd (allWon attempt List.mem_cons_self) (by simp [notWon])

end Claimed

namespace Coordinator

variable {first last : Scene Coordinator} {beats : List (Beat Coordinator)}

theorem leads_acquireAll {leases : List Lease} {result : Except WorkerError Unit}
    (leads : Leads (acquireAll leases) first beats last result) :
    ∃ tries, Tried first beats tries last ∧ Adopts leases tries result := by
  induction leases generalizing first beats with
  | nil =>
    obtain ⟨rfl, rfl, waiting⟩ := Script.Leads.of_done leads
    exact ⟨[], .of_passes waiting rfl, List.nil_prefix, fun _ => rfl, by simp⟩
  | cons lease rest ih =>
    obtain ⟨before, between, returned, after, acquires, others, rfl⟩ :=
      Script.Leads.of_bind Scene.Passes.refl leads
    obtain ⟨attempt, rfl, tried, notFailed, failed⟩ := leads_acquire acquires
    cases isFailed : attempt.failed with
    | true =>
      obtain ⟨error, rfl⟩ := failed isFailed
      obtain ⟨rfl, rfl, waiting⟩ := Script.Leads.of_done others
      exact ⟨[attempt], tried.ends waiting, List.cons_prefix_cons.2 ⟨rfl, List.nil_prefix⟩, nofun,
        by simp [isFailed]⟩
    | false =>
      obtain rfl := notFailed isFailed
      obtain ⟨tries, triedLater, inOrder, complete, failedLater⟩ := ih others
      refine ⟨attempt :: tries, tried.append triedLater, List.cons_prefix_cons.2 ⟨rfl, inOrder⟩,
        fun isOk => by rw [List.map_cons, complete isOk], by simpa [isFailed] using failedLater⟩

theorem leads_claim {capacity : Nat} {leases : List Lease} {result : Except WorkerError Nat}
    (leads : Leads (claim capacity leases) first beats last result) :
    ∃ tries, Tried first beats tries last ∧ Claimed capacity leases tries result := by
  induction leases generalizing capacity first beats with
  | nil =>
    have ends : Leads (.done (.ok capacity)) first beats last result := by
      cases capacity <;> exact leads
    obtain ⟨rfl, rfl, waiting⟩ := Script.Leads.of_done ends
    exact ⟨[], .of_passes waiting rfl, .none_left capacity⟩
  | cons lease rest ih =>
    cases capacity with
    | zero =>
      obtain ⟨rfl, rfl, waiting⟩ := Script.Leads.of_done leads
      exact ⟨[], .of_passes waiting rfl, .none_allowed _⟩
    | succ capacity =>
      obtain ⟨before, between, returned, after, acquires, others, rfl⟩ :=
        Script.Leads.of_bind Scene.Passes.refl leads
      obtain ⟨attempt, rfl, tried, notFailed, failed⟩ := leads_acquire acquires
      cases isFailed : attempt.failed with
      | true =>
        obtain ⟨error, rfl⟩ := failed isFailed
        obtain ⟨rfl, rfl, waiting⟩ := Script.Leads.of_done others
        exact ⟨[attempt], tried.ends waiting, .cons_failed isFailed⟩
      | false =>
        obtain rfl := notFailed isFailed
        cases isWon : attempt.won with
        | true =>
          rw [isWon] at others
          obtain ⟨tries, triedLater, claims⟩ := ih others
          exact ⟨attempt :: tries, tried.append triedLater, claims.cons_won isWon⟩
        | false =>
          rw [isWon] at others
          obtain ⟨tries, triedLater, claims⟩ := ih others
          exact ⟨attempt :: tries, tried.append triedLater, claims.cons_lost isWon isFailed⟩

end Coordinator

/-- What comes of claiming free leases and then expired ones. -/
structure Shares (free expired : List Lease) (capacity maxSteals : Nat) (frees steals : List Try)
    (result : Except WorkerError Unit) : Prop where
  freesInOrder : frees.map Try.lease <+: free
  stealsInOrder : steals.map Try.lease <+: expired
  atMost : (frees ++ steals).countP Try.won ≤ capacity
  steals_le : steals.countP Try.won ≤ maxSteals
  freesFirst : steals ≠ [] → frees.map Try.lease = free
  failed : (∃ error, result = .error error) ↔ ∃ attempt ∈ frees ++ steals, attempt.failed = true
  allWon : (∀ attempt ∈ frees ++ steals, attempt.won = true) → frees.map Try.lease = free.take capacity ∧
    steals.map Try.lease = expired.take (min (capacity - free.length) maxSteals)

namespace Coordinator

variable {first last : Scene Coordinator} {beats : List (Beat Coordinator)}

theorem leads_claimShare {free expired : List Lease} {capacity : Nat} {result : Except WorkerError Unit}
    (leads : Leads (claimShare free expired capacity) first beats last result) :
    ∃ frees steals, Tried first beats (frees ++ steals) last ∧
      Shares free expired capacity first.state.settings.maxSteals frees steals result := by
  obtain ⟨before, between, returned, after, claimsFree, others, rfl⟩ :=
    Script.Leads.of_bind Scene.Passes.refl leads
  obtain ⟨frees, triedFrees, freely⟩ := leads_claim claimsFree
  cases returned with
  | error error =>
    obtain ⟨rfl, rfl, waiting⟩ := Script.Leads.of_done others
    have failed := freely.failed.1 ⟨error, rfl⟩
    refine ⟨frees, [], by simpa using triedFrees.ends waiting, freely.inOrder, List.nil_prefix,
      by simpa using freely.atMost, Nat.zero_le _, by simp, by simpa using failed, fun allWon => ?_⟩
    obtain ⟨attempt, mem, failed⟩ := failed
    have won := allWon attempt (List.mem_append_left _ mem)
    simp [Try.not_failed_of_won won] at failed
  | ok left =>
    obtain ⟨sum, either⟩ := freely.left left rfl
    obtain ⟨state, looks, _, basis, looked, isLook, afterLook, rfl⟩ := leads_look others
    obtain ⟨steal, last', returned, ended, claimsExpired, ends, rfl⟩ :=
      Script.Leads.of_bind Scene.Passes.refl afterLook
    obtain ⟨steals, triedSteals, stealing⟩ := leads_claim claimsExpired
    rw [basis.settings, triedFrees.settings] at stealing
    have looking : Tried between [looks] [] looks.left := .of_passes looked (by simp [isLook])
    have tried := triedFrees.append (looking.append triedSteals)
    have atMost := stealing.atMost
    have count : (frees ++ steals).countP Try.won = frees.countP Try.won + steals.countP Try.won :=
      List.countP_append
    have noFailure : ¬∃ attempt ∈ frees, attempt.failed = true := fun failed => by
      obtain ⟨_, isError⟩ := freely.failed.2 failed
      cases isError
    obtain ⟨waiting, rfl, same⟩ : last'.Passes last ∧ ended = [] ∧
        ((∃ error, result = .error error) ↔ ∃ error, returned = .error error) := by
      cases returned with
      | error error =>
        obtain ⟨rfl, rfl, waiting⟩ := Script.Leads.of_done ends
        exact ⟨waiting, rfl, by simp⟩
      | ok rest =>
        obtain ⟨rfl, rfl, waiting⟩ := Script.Leads.of_done ends
        exact ⟨waiting, rfl, by simp⟩
    refine ⟨frees, steals, by simpa using tried.ends waiting, freely.inOrder, stealing.inOrder, by omega,
      by omega, fun some => ?freesFirst, ?failed, fun allWon => ?allWon⟩
    case freesFirst =>
      refine either.resolve_left fun noneLeft => some (stealing.none ?_)
      omega
    case failed =>
      rw [same, stealing.failed]
      simp only [List.mem_append, or_and_right, exists_or]
      exact (or_iff_right noFailure).symm
    case allWon =>
      obtain ⟨freesWon, stealsWon⟩ := List.forall_mem_append.1 allWon
      have all := freely.allWon freesWon
      have wins : frees.countP Try.won = frees.length := List.countP_eq_length.2 freesWon
      have length := congrArg List.length all
      rw [List.length_map, List.length_take] at length
      have rest : capacity - free.length = left := by omega
      exact ⟨all, rest ▸ stealing.allWon stealsWon⟩

/-- Which leases are expired does not depend on what is held. -/
theorem stealable_eq {before now : Coordinator} (workerId : now.workerId = before.workerId)
    (observed : now.observed = before.observed) (settings : now.settings = before.settings)
    (leases : List Lease) (time : Nat) : now.stealable leases time = before.stealable leases time := by
  unfold stealable isExpired
  rw [workerId, observed, settings]

theorem SameBasis.stealable {before now : Coordinator} (same : before.SameBasis now) (leases : List Lease)
    (time : Nat) : now.stealable leases time = before.stealable leases time :=
  stealable_eq same.workerId same.observed same.settings leases time

/-- Nothing is claimed if nothing is allowed. -/
theorem shares_none (free expired : List Lease) (maxSteals : Nat) :
    Shares free expired 0 maxSteals [] [] (.ok ()) := by
  constructor <;> simp

/-- The end of a taking cycle, after it has adopted what was assigned to the worker. -/
def claimRest (leases : List Lease) (live : SortedSet String) (free : List Lease) :
    CoordinatorScript (Except WorkerError Unit) := do
  let state ← Script.look
  let capacity := target state.settings leases.length live.size - state.held.size
  if capacity = 0 then return .ok ()
  let now ← Script.query .clock
  claimShare free (state.stealable leases now) capacity

theorem leads_claimRest {leases free : List Lease} {live : SortedSet String}
    {result : Except WorkerError Unit} (leads : Leads (claimRest leases live free) first beats last result) :
    ∃ judged frees steals, Tried first beats (frees ++ steals) last ∧
      (frees ++ steals ≠ [] → .asked .clock judged ∈ beats.map Beat.act) ∧
        Shares free (first.state.stealable leases judged)
          (target first.state.settings leases.length live.size - first.state.held.size)
          first.state.settings.maxSteals frees steals result := by
  obtain ⟨state, looks, _, basis, looking, isLook, afterLook, rfl⟩ := leads_look leads
  rw [basis.held, basis.settings] at afterLook
  dsimp only at afterLook
  split at afterLook
  case isTrue full =>
    obtain ⟨rfl, rfl, waiting⟩ := Script.Leads.of_done afterLook
    refine ⟨0, [], [], .of_passes (looking.trans waiting) (by simp [isLook]), by simp, ?_⟩
    rw [full]
    exact shares_none ..
  case isFalse =>
    obtain ⟨reads, judged, _, _, reading, isReading, _, afterClock, rfl⟩ := leads_query afterLook
    obtain ⟨frees, steals, tried, shares⟩ := leads_claimShare afterClock
    have waiting : Tried first [looks, reads] [] reads.left :=
      .of_passes (looking.trans reading) (by simp [isLook, isReading])
    refine ⟨judged, frees, steals, waiting.append tried, fun _ => by simp [isReading], ?_⟩
    rwa [basis.stealable, (looking.trans reading).basis.settings] at shares

end Coordinator

/-! ## The parts of a cycle -/

/-- The table was listed, after some failures. -/
structure TableListed (beats : List (Beat Coordinator)) (leases : List Lease) : Prop where
  calls : ∃ failures : List StoreError, calledIn (beats.map Beat.act) =
    (failures.map fun error => ⟨.list, StoreCall.list.failed error⟩) ++ [⟨.list, .ok leases⟩]
  listed : ∃ beat ∈ beats, beat.act = .asked (.store .list) (.ok leases) ∧
    beat.found.table.leases = leases
  inOrder : leases.Pairwise fun earlier later => earlier.leaseKey < later.leaseKey
  distinct : (leases.map Lease.leaseKey).Nodup

namespace Coordinator

variable {first last : Scene Coordinator} {beats : List (Beat Coordinator)}

/-- A listing is repeated after failures, changes nothing and returns what the table held. -/
theorem leads_list {result : Except WorkerError (List Lease)} (keyed : first.table.Keyed)
    (leads : Leads (store .list) first beats last result) : first.Passes last ∧
      ((∃ error, result = .error error) ∧ (∃ failures : List StoreError, failures ≠ [] ∧
          calledIn (beats.map Beat.act) = failures.map fun error => ⟨.list, .error error⟩) ∨
        ∃ leases, result = .ok leases ∧ TableListed beats leases) := by
  obtain ⟨state, rest, failures, reply, acts, _, decides⟩ := enacts_store leads.enacts
  have calls : calledIn (beats.map Beat.act) =
      (failures.map fun error => ⟨.list, StoreCall.list.failed error⟩) ++ [⟨.list, reply⟩] := by
    rw [acts, calledIn_changed, decides.calls]
  refine ⟨leads.through.passes fun beat mem => ?_, ?_⟩
  · have among : beat.act ∈ .changed state state :: rest := acts ▸ List.mem_map_of_mem mem
    obtain isLook | among := List.mem_cons.1 among
    · rw [isLook]
      exact SameBasis.refl state
    · exact (decides.only _ among).keepsBasis
  · cases reply with
    | error error =>
      refine .inl ⟨decides.agrees, failures ++ [error], by simp, ?_⟩
      rw [calls, List.map_append]
      rfl
    | ok leases =>
      have called : ⟨.list, .ok leases⟩ ∈ calledIn (beats.map Beat.act) := by simp [calls]
      obtain ⟨beat, mem, isCall⟩ := List.mem_map.1 (mem_calledIn.1 called)
      have does := leads.through.does beat mem
      rw [isCall] at does
      obtain performed | ⟨_, failed, _⟩ := does.of_call.1
      · obtain rfl : beat.found.table.leases = leases := Except.ok.inj (congrArg Prod.fst performed)
        have lists := (leads.through.keyed keyed beat mem).lists
        exact .inr ⟨_, decides.agrees, ⟨failures, calls⟩, ⟨beat, mem, isCall, rfl⟩, lists.sorted,
          lists.keys_nodup⟩
      · cases failed

theorem SameBasis.observe {before now : Coordinator} (same : before.SameBasis now) (leases : List Lease)
    (time : Nat) : (before.observe leases time).SameBasis (now.observe leases time) :=
  ⟨same.held, by simp only [Coordinator.observe, same.observed], same.workerId, same.settings⟩

theorem leads_scan {leases : List Lease} (leads : Leads (scan leases) first beats last ()) :
    calledIn (beats.map Beat.act) = [] ∧ ∃ now, .asked .clock now ∈ beats.map Beat.act ∧
      ({ first with state := first.state.observe leases now } : Scene _).Passes last := by
  obtain ⟨read, now, _, _, reading, isRead, _, afterClock, rfl⟩ := leads_query leads
  obtain ⟨scans, rest, others, isScan, left, ends, rfl⟩ := Script.Leads.of_step afterClock
  obtain ⟨rfl, _, waiting⟩ := Script.Leads.of_done ends
  refine ⟨by simp [isRead, isScan], now, by simp [isRead], ?_⟩
  have before := reading.trans others
  rw [left] at waiting
  have scanning : ({ first with state := first.state.observe leases now } : Scene _).Passes
      { scans.found with state := scans.found.state.observe leases now } :=
    ⟨before.basis.observe leases now, before.time, before.tokens, before.keyed⟩
  exact scanning.trans waiting

theorem leads_findLiving {leases : List Lease} {live : SortedSet String}
    (leads : Leads (findLiving leases) first beats last live) :
    calledIn (beats.map Beat.act) = [] ∧ first.Passes last ∧ ∃ state now summaries epoch,
      first.state.SameBasis state ∧ live = state.livingWorkers leases now summaries epoch := by
  obtain ⟨state, looks, _, basis, looking, isLook, afterLook, rfl⟩ := leads_look leads
  obtain ⟨read, now, _, _, reading, isRead, _, afterClock, rfl⟩ := leads_query afterLook
  obtain ⟨fetch, published, _, _, fetching, isFetch, _, afterFetch, rfl⟩ := leads_query afterClock
  obtain ⟨date, epoch, _, _, dating, isDate, _, afterDate, rfl⟩ := leads_query afterFetch
  obtain ⟨notes, _, others, isNote, left, ends, rfl⟩ := Script.Leads.of_step afterDate
  obtain ⟨rfl, rfl, waiting⟩ := Script.Leads.of_done ends
  refine ⟨by simp [isLook, isRead, isFetch, isDate, isNote], ?_, state, now, _,
    epoch, basis, rfl⟩
  have before := looking.trans (reading.trans (fetching.trans (dating.trans others)))
  rw [left] at waiting
  have noting (noted : SortedSet String) : notes.found.Passes
      { notes.found with state := { notes.found.state with live := noted } } :=
    ⟨⟨rfl, rfl, rfl, rfl⟩, Nat.le_refl _, Nat.le_refl _, id⟩
  exact before.trans ((noting _).trans waiting)

theorem SameBasis.assigned {before now : Coordinator} (same : before.SameBasis now) (leases : List Lease) :
    now.assigned leases = before.assigned leases := by
  unfold Coordinator.assigned
  rw [same.workerId, same.held]

theorem SameBasis.unowned {before now : Coordinator} (same : before.SameBasis now) (leases : List Lease) :
    now.unowned leases = before.unowned leases := by
  unfold Coordinator.unowned
  rw [same.held]

end Coordinator

/-- What is stored by tries are leases under the keys of what was tried. -/
theorem Tried.keys_sublist {first last : Scene Coordinator} {beats : List (Beat Coordinator)}
    {tries : List Try} (tried : Tried first beats tries last) :
    ((tries.filterMap Try.stored?).map Lease.leaseKey).Sublist
      ((tries.map Try.lease).map Lease.leaseKey) := by
  have named := tried.stored
  clear tried
  induction tries with
  | nil => exact .slnil
  | cons attempt tries ih =>
    obtain ⟨here, later⟩ := List.forall_mem_cons.1 named
    cases isStored : attempt.stored? with
    | none =>
      rw [List.filterMap_cons_none isStored]
      exact (ih later).cons _
    | some stored =>
      obtain rfl := here stored isStored
      rw [List.filterMap_cons_some isStored]
      exact (ih later).cons_cons _

/-- The leases that are assigned to a worker, those that nobody owns and the expired ones of others have
distinct keys, if all leases do. -/
theorem Coordinator.nodup_keys {leases : List Lease} {state judging : Coordinator} {time : Nat}
    (distinct : (leases.map Lease.leaseKey).Nodup) (same : judging.workerId = state.workerId) :
    ((state.assigned leases ++ state.unowned leases ++ judging.stealable leases time).map
      Lease.leaseKey).Nodup := by
  have nodup : leases.Nodup := distinct.of_map _
  have known : ∀ lease ∈ state.assigned leases ++ state.unowned leases ++ judging.stealable leases time,
      lease ∈ leases := by
    intro lease mem
    simp only [List.mem_append, assigned, unowned, stealable, List.mem_filter] at mem
    tauto
  refine List.Nodup.map_on (fun left here right there sameKey =>
    List.inj_on_of_nodup_map distinct (known left here) (known right there) sameKey) ?_
  have ownedApart : (state.assigned leases).Disjoint (state.unowned leases) := by
    intro lease mine free
    simp only [assigned, unowned, List.mem_filter, Lease.isOwnedBy, Lease.isUnowned] at mine free
    simp_all
  have othersApart :
      (state.assigned leases ++ state.unowned leases).Disjoint (judging.stealable leases time) := by
    intro lease mine others
    simp only [assigned, unowned, stealable, List.mem_append, List.mem_filter, Lease.isOwnedBy,
      Lease.isUnowned, same] at mine others
    obtain mine | free := mine <;> simp_all
  exact ((nodup.filter _).append (nodup.filter _) ownedApart).append (nodup.filter _) othersApart

/-! ## The cycle -/

/-- What a taking cycle that has listed the table has come to. -/
structure TakingCycle where
  /-- What the table held. -/
  leases : List Lease
  /-- When that was taken in. -/
  scanned : Nat
  /-- The workers that were considered alive. -/
  live : SortedSet String
  /-- When it was judged which leases are expired. -/
  judged : Nat
  adoptions : List Try
  frees : List Try
  steals : List Try

namespace TakingCycle

def tries (cycle : TakingCycle) : List Try := cycle.adoptions ++ cycle.frees ++ cycle.steals

/-- How many leases may be claimed: a fair share of the leases, or the most that the worker may hold if
that is less, without what it holds once it has adopted what was assigned to it. -/
def capacity (cycle : TakingCycle) (settings : LeaseSettings) (held : Nat) : Nat :=
  let share := cycle.leases.length ⌈/⌉ cycle.live.size
  settings.maxLeases.elim share (min share) - (held + cycle.adoptions.countP Try.won)

/-- The leases of others that are expired in the eyes of a worker that has taken in the table. -/
def expired (cycle : TakingCycle) (state : Coordinator) : List Lease :=
  (state.observe cycle.leases cycle.scanned).stealable cycle.leases cycle.judged

/-- What the cycle has seen, called and stored, and what is held of it. -/
structure Recorded (cycle : TakingCycle) (first : Scene Coordinator) (beats : List (Beat Coordinator))
    (last : Scene Coordinator) : Prop where
  listed : ∃ beat ∈ beats, beat.act = .asked (.store .list) (.ok cycle.leases) ∧
    beat.found.table.leases = cycle.leases
  inOrder : cycle.leases.Pairwise fun earlier later => earlier.leaseKey < later.leaseKey
  scans : .asked .clock cycle.scanned ∈ beats.map Beat.act
  judges : cycle.frees ++ cycle.steals ≠ [] → .asked .clock cycle.judged ∈ beats.map Beat.act
  living : ∃ state now summaries epoch,
    (first.state.observe cycle.leases cycle.scanned).SameBasis state ∧
      cycle.live = state.livingWorkers cycle.leases now summaries epoch
  /-- The store is called to list the table, and then once for every try. -/
  calls : ∃ failures : List StoreError, calledIn (beats.map Beat.act) =
    (failures.map fun error => ⟨.list, StoreCall.list.failed error⟩) ++
      ⟨.list, .ok cycle.leases⟩ :: cycle.tries.map (Try.call first.state.workerId)
  /-- What is won is stored in the name of the worker. -/
  stores : ∀ attempt ∈ cycle.tries, ∀ stored, attempt.stored? = some stored →
    stored = { attempt.lease.transferredTo (some first.state.workerId) with
      counter := attempt.lease.counter + 1 } ∧
    ∃ beat ∈ beats, beat.left.table.get? stored.leaseKey = some stored
  /-- What is won is held as it was stored, each lease under a token of its own that was not given
  before. -/
  holds : ∃ won : List HeldLease, won.map HeldLease.lease = cycle.tries.filterMap Try.stored? ∧
    (∀ lease ∈ won, last.state.held.get? lease.lease.leaseKey = some lease ∧
      first.tokens ≤ lease.token.serial ∧ lease.token.serial < last.tokens) ∧
    won.Pairwise fun earlier later => earlier.token.serial < later.token.serial
  others : ∀ leaseKey, (∀ stored ∈ cycle.tries.filterMap Try.stored?, stored.leaseKey ≠ leaseKey) →
    last.state.held.get? leaseKey = first.state.held.get? leaseKey

/-- What a worker tries that is in some state at first, and how much of it may be won. -/
structure Limited (cycle : TakingCycle) (state : Coordinator) (result : Except WorkerError Unit) :
    Prop where
  self : state.workerId ∈ cycle.live.toList
  adopted : cycle.adoptions.map Try.lease <+: state.assigned cycle.leases
  freed : cycle.frees.map Try.lease <+: state.unowned cycle.leases
  stolen : cycle.steals.map Try.lease <+: cycle.expired state
  adoptedFirst : cycle.frees ++ cycle.steals ≠ [] →
    cycle.adoptions.map Try.lease = state.assigned cycle.leases
  freedFirst : cycle.steals ≠ [] → cycle.frees.map Try.lease = state.unowned cycle.leases
  atMost : (cycle.frees ++ cycle.steals).countP Try.won ≤ cycle.capacity state.settings state.held.size
  steals_le : cycle.steals.countP Try.won ≤ state.settings.maxSteals
  failed : (∃ error, result = .error error) ↔ ∃ attempt ∈ cycle.tries, attempt.failed = true
  /-- Without lost races and failures, as many leases are claimed as possible. -/
  allWon : (∀ attempt ∈ cycle.tries, attempt.won = true) →
    let capacity := cycle.capacity state.settings state.held.size
    let free := state.unowned cycle.leases
    cycle.adoptions.map Try.lease = state.assigned cycle.leases ∧
      cycle.frees.map Try.lease = free.take capacity ∧ cycle.steals.map Try.lease =
        (cycle.expired state).take (min (capacity - free.length) state.settings.maxSteals)

/-- The leases that are tried have distinct keys. -/
theorem Limited.nodup_keys {cycle : TakingCycle} {state : Coordinator} {result : Except WorkerError Unit}
    (limited : cycle.Limited state result) (distinct : (cycle.leases.map Lease.leaseKey).Nodup) :
    ((cycle.tries.map Try.lease).map Lease.leaseKey).Nodup := by
  have all : ((state.assigned cycle.leases ++ state.unowned cycle.leases ++ cycle.expired state).map
      Lease.leaseKey).Nodup := Coordinator.nodup_keys distinct rfl
  refine all.sublist (List.Sublist.map _ ?_)
  rw [tries, List.map_append, List.map_append]
  exact (limited.adopted.sublist.append limited.freed.sublist).append limited.stolen.sublist

end TakingCycle

namespace TakingCycle

variable {cycle : TakingCycle} {first listed last : Scene Coordinator}
  {listing beats : List (Beat Coordinator)} {result : Except WorkerError Unit}

/-- A win that is among the calls was stored then. -/
theorem stored_of_called {worker : String} {attempt : Try} {stored : Lease}
    (does : ∀ beat ∈ beats, beat.found.Does beat.act beat.left)
    (called : attempt.call worker ∈ calledIn (beats.map Beat.act))
    (isStored : attempt.stored? = some stored) :
    ∃ beat ∈ beats, beat.left.table.get? stored.leaseKey = some stored := by
  obtain ⟨lease, reply⟩ := attempt
  obtain rfl : reply = .ok (.updated stored) := by
    unfold Try.stored? at isStored
    split at isStored
    · rename_i isUpdated
      obtain rfl := Option.some.inj isStored
      exact isUpdated
    · cases isStored
  obtain ⟨beat, mem, isCall⟩ := List.mem_map.1 (mem_calledIn.1 called)
  have answers := (isCall ▸ does beat mem).of_call.1
  refine ⟨beat, mem, ?_⟩
  rw [answers.stored.2]
  exact SortedMap.get?_insert_self ..

/-- What a cycle has seen and tried once the table was listed. -/
structure Goes (cycle : TakingCycle) (first : Scene Coordinator) (beats : List (Beat Coordinator))
    (last : Scene Coordinator) : Prop where
  tried : Tried { first with state := first.state.observe cycle.leases cycle.scanned } beats cycle.tries
    last
  scans : .asked .clock cycle.scanned ∈ beats.map Beat.act
  judges : cycle.frees ++ cycle.steals ≠ [] → .asked .clock cycle.judged ∈ beats.map Beat.act
  living : ∃ state now summaries epoch,
    (first.state.observe cycle.leases cycle.scanned).SameBasis state ∧
      cycle.live = state.livingWorkers cycle.leases now summaries epoch

/-- A cycle that has listed the table and then has tried some leases. -/
theorem Limited.recorded (limited : cycle.Limited first.state result)
    (through : first.Through Scene.Passes (listing ++ beats) last) (lists : TableListed listing cycle.leases)
    (goes : cycle.Goes first beats last) : cycle.Recorded first (listing ++ beats) last := by
  obtain ⟨failures, calls⟩ := lists.calls
  have called : calledIn ((listing ++ beats).map Beat.act) =
      (failures.map fun error => ⟨.list, StoreCall.list.failed error⟩) ++
        ⟨.list, .ok cycle.leases⟩ :: cycle.tries.map (Try.call first.state.workerId) := by
    rw [List.map_append, calledIn_append, calls, goes.tried.calls, List.append_assoc]
    rfl
  have distinct : ((cycle.tries.filterMap Try.stored?).map Lease.leaseKey).Nodup :=
    (limited.nodup_keys lists.distinct).sublist goes.tried.keys_sublist
  have isCalled (attempt : Try) (isTry : attempt ∈ cycle.tries) : attempt.call first.state.workerId ∈
      calledIn ((listing ++ beats).map Beat.act) := by
    rw [called]
    exact List.mem_append_right _ (List.mem_cons_of_mem _ (List.mem_map_of_mem isTry))
  obtain ⟨beat, mem, isList, leases⟩ := lists.listed
  exact
    { listed := ⟨beat, List.mem_append_left _ mem, isList, leases⟩
      inOrder := lists.inOrder
      scans := by simp [goes.scans]
      judges := fun some => by simp [goes.judges some]
      living := goes.living
      calls := ⟨failures, called⟩
      stores := fun attempt isTry stored isStored => ⟨goes.tried.stored attempt isTry stored isStored,
        stored_of_called through.does (isCalled attempt isTry) isStored⟩
      holds := goes.tried.gathers.held_of_won distinct
      others := fun leaseKey others => goes.tried.gathers.get?_of_not_won others }

section

variable {leases : List Lease} {scanned judged : Nat} {live : SortedSet String}
  {adoptions frees steals : List Try} {state : Coordinator} {result : Except WorkerError Unit}

/-- A cycle that ends with the adoptions, of which one has failed. -/
theorem limited_of_adopts {error : WorkerError} (self : state.workerId ∈ live.toList)
    (adopts : Adopts (state.assigned leases) adoptions (.error error)) :
    (TakingCycle.mk leases scanned live judged adoptions [] []).Limited state (.error error) where
  self := self
  adopted := adopts.inOrder
  freed := List.nil_prefix
  stolen := List.nil_prefix
  adoptedFirst some := absurd rfl some
  freedFirst some := absurd rfl some
  atMost := Nat.zero_le _
  steals_le := Nat.zero_le _
  failed := by simpa [tries] using adopts.failed
  allWon allWon := by
    obtain ⟨attempt, mem, failed⟩ := adopts.failed.1 ⟨error, rfl⟩
    have won := allWon attempt (by simp [tries, mem])
    simp [Try.not_failed_of_won won] at failed

/-- A cycle that goes on after the adoptions. -/
theorem limited_of_shares (self : state.workerId ∈ live.toList)
    (adopts : Adopts (state.assigned leases) adoptions (.ok ()))
    (shares : Shares (state.unowned leases)
      ((TakingCycle.mk leases scanned live judged adoptions frees steals).expired state)
      ((TakingCycle.mk leases scanned live judged adoptions frees steals).capacity state.settings
        state.held.size) state.settings.maxSteals frees steals result) :
    (TakingCycle.mk leases scanned live judged adoptions frees steals).Limited state result where
  self := self
  adopted := adopts.inOrder
  freed := shares.freesInOrder
  stolen := shares.stealsInOrder
  adoptedFirst _ := adopts.complete rfl
  freedFirst := shares.freesFirst
  atMost := shares.atMost
  steals_le := shares.steals_le
  failed := by
    have noFailure : ¬∃ attempt ∈ adoptions, attempt.failed = true := fun failed => by
      obtain ⟨_, isError⟩ := adopts.failed.2 failed
      cases isError
    rw [shares.failed, tries, List.append_assoc]
    simp only [List.mem_append (s := adoptions), or_and_right, exists_or]
    exact (or_iff_right noFailure).symm
  allWon allWon := by
    rw [tries, List.append_assoc] at allWon
    exact ⟨adopts.complete rfl, shares.allWon (List.forall_mem_append.1 allWon).2⟩

end

end TakingCycle

namespace Coordinator

variable {first listed last : Scene Coordinator} {beats : List (Beat Coordinator)}

/-- The number of leases that a worker should hold, as the settings limit it. -/
theorem target_eq {workers : Nat} (positive : 0 < workers) (settings : LeaseSettings) (leases : Nat) :
    target settings leases workers =
      settings.maxLeases.elim (leases ⌈/⌉ workers) (min (leases ⌈/⌉ workers)) := by
  rw [target, Nat.max_eq_left positive, Nat.ceilDiv_eq_add_pred_div]
  cases settings.maxLeases <;> rfl

/-- What is assigned to a worker it does not hold, so it holds as many leases more as it wins of these. -/
theorem size_of_adoptions {leases : List Lease} {adoptions : List Try} {result : Except WorkerError Unit}
    (tried : Tried first beats adoptions last) (adopts : Adopts (first.state.assigned leases) adoptions
      result) (distinct : (leases.map Lease.leaseKey).Nodup) :
    last.state.held.size = first.state.held.size + adoptions.countP Try.won := by
  refine tried.gathers.size_of_new ?distinct fun stored mem => ?new
  case distinct =>
    refine List.Nodup.sublist tried.keys_sublist ?_
    exact distinct.sublist ((adopts.inOrder.sublist.trans List.filter_sublist).map Lease.leaseKey)
  case new =>
    obtain ⟨attempt, isTry, isStored⟩ := List.mem_filterMap.1 mem
    obtain rfl := tried.stored attempt isTry stored isStored
    have assigned := (List.mem_filter.1 (adopts.inOrder.subset (List.mem_map_of_mem isTry))).2
    simp only [SortedMap.contains, Bool.and_eq_true, Bool.not_eq_true', Option.isSome_eq_false_iff,
      Option.isNone_iff_eq_none] at assigned
    exact assigned.2

/-- A worker is alive in its own eyes. -/
theorem workerId_mem_livingWorkers (state : Coordinator) (leases : List Lease) (now : Nat)
    (summaries : List WorkerSummary) (epoch : Nat) :
    state.workerId ∈ (state.livingWorkers leases now summaries epoch).toList :=
  SortedSet.mem_toList_ofList.2 List.mem_cons_self

/-- What a taking cycle does once it has listed the table. -/
def takeListed (leases : List Lease) : CoordinatorScript (Except WorkerError Unit) := do
  scan leases
  let live ← findLiving leases
  let before ← Script.look
  match ← acquireAll (before.assigned leases) with
  | .error error => return .error error
  | .ok () => claimRest leases live (before.unowned leases)

theorem leads_takeListed {leases : List Lease} {result : Except WorkerError Unit}
    (distinct : (leases.map Lease.leaseKey).Nodup) (waited : first.Passes listed)
    (leads : Leads (takeListed leases) listed beats last result) :
    ∃ cycle : TakingCycle, cycle.leases = leases ∧ cycle.Goes first beats last ∧
      cycle.Limited first.state result := by
  obtain ⟨scanning, scanned, ⟨⟩, _, scans, afterScan, rfl⟩ :=
    Script.Leads.of_bind Scene.Passes.refl leads
  obtain ⟨noCallsScanning, time, isRead, observes⟩ := leads_scan scans
  obtain ⟨finding, found, live, _, finds, afterFinding, rfl⟩ :=
    Script.Leads.of_bind Scene.Passes.refl afterScan
  obtain ⟨noCallsFinding, finds, judging, now, summaries, epoch, basis, isLive⟩ := leads_findLiving finds
  obtain ⟨before, looks, _, basisBefore, looking, isLook, afterLook, rfl⟩ := leads_look afterFinding
  obtain ⟨adopting, adopted, returned, _, adopts, afterAdopting, rfl⟩ :=
    Script.Leads.of_bind Scene.Passes.refl afterLook
  obtain ⟨adoptions, triedAdoptions, adopts⟩ := leads_acquireAll adopts
  -- to the rest of the cycle, all began with the state that had taken in the table
  have observing : ({ first with state := first.state.observe leases time } : Scene _).Passes scanned := by
    refine Scene.Passes.trans ?_ observes
    exact ⟨waited.basis.observe leases time, waited.time, waited.tokens, waited.keyed⟩
  have foundThen := observing.trans finds
  have arrive {rest : List (Beat Coordinator)} {tries : List Try}
      (tried : Tried looks.left rest tries last) :
      Tried { first with state := first.state.observe leases time }
        (scanning ++ (finding ++ looks :: rest)) tries last := by
    have scan : Tried _ scanning [] _ := .of_passes observing noCallsScanning
    have find : Tried _ finding [] _ := .of_passes finds noCallsFinding
    have look : Tried _ [looks] [] _ := .of_passes looking (by simp [isLook])
    exact scan.append (find.append (look.append tried))
  have atLook := (foundThen.trans looking).basis
  rw [(foundThen.basis.trans basisBefore).assigned, ← atLook.assigned] at adopts
  have size := size_of_adoptions triedAdoptions adopts distinct
  rw [atLook.assigned] at adopts
  have sameLive := observing.basis.trans basis
  have self : first.state.workerId ∈ live.toList := by
    have member := judging.workerId_mem_livingWorkers leases now summaries epoch
    rwa [sameLive.workerId, ← isLive] at member
  have living : ∃ state now summaries epoch, (first.state.observe leases time).SameBasis state ∧
      live = state.livingWorkers leases now summaries epoch :=
    ⟨judging, now, summaries, epoch, sameLive, isLive⟩
  cases returned with
  | error error =>
    obtain ⟨rfl, rfl, waiting⟩ := Script.Leads.of_done afterAdopting
    have tried := arrive (triedAdoptions.ends waiting)
    exact ⟨⟨leases, time, live, 0, adoptions, [], []⟩, rfl,
      ⟨by simpa [TakingCycle.tries] using tried, by simp [isRead], (absurd rfl ·), living⟩,
      TakingCycle.limited_of_adopts self adopts⟩
  | ok =>
    obtain ⟨judged, frees, steals, triedClaims, judges, shares⟩ := leads_claimRest afterAdopting
    let cycle : TakingCycle := ⟨leases, time, live, judged, adoptions, frees, steals⟩
    have settings : adopted.state.settings = first.state.settings :=
      triedAdoptions.settings.trans atLook.settings
    have free : before.unowned leases = first.state.unowned leases :=
      (foundThen.basis.trans basisBefore).unowned leases
    have expired : adopted.state.stealable leases judged = cycle.expired first.state :=
      stealable_eq (triedAdoptions.workerId.trans atLook.workerId)
        (triedAdoptions.observed.trans atLook.observed) settings leases judged
    have capacity : target adopted.state.settings leases.length live.size - adopted.state.held.size =
        cycle.capacity first.state.settings first.state.held.size := by
      have positive : 0 < live.size := by
        rw [SortedMap.size, ← List.length_map (f := Prod.fst)]
        exact List.length_pos_of_mem self
      rw [target_eq positive, settings, size, atLook.held]
      rfl
    rw [free, expired, capacity, settings] at shares
    have tried := arrive (triedAdoptions.append triedClaims)
    exact ⟨cycle, rfl, ⟨by simpa [cycle, TakingCycle.tries] using tried, by simp [isRead, cycle],
      fun some => by simp [judges some, cycle], living⟩, TakingCycle.limited_of_shares self adopts shares⟩

/-- A taking cycle that cannot list the table tries nothing. Otherwise it adopts what is assigned to the
worker, then claims what is free and then what is expired, in key order and within its limits, and holds
what it has won, even if a failure of the store ends it early. -/
theorem take_recorded {result : Except WorkerError Unit} (keyed : first.table.Keyed)
    (leads : Leads take first beats last result) :
    ((∃ error, result = .error error) ∧ last.state.held = first.state.held ∧
      ∃ failures : List StoreError, failures ≠ [] ∧
        calledIn (beats.map Beat.act) = failures.map fun error => ⟨.list, .error error⟩) ∨
    ∃ cycle : TakingCycle, cycle.Recorded first beats last ∧ cycle.Limited first.state result := by
  obtain ⟨listing, listed, returned, _, leadsListing, afterList, rfl⟩ :=
    Script.Leads.of_bind Scene.Passes.refl leads
  obtain ⟨waited, ⟨⟨error, rfl⟩, failed⟩ | ⟨leases, rfl, lists⟩⟩ := leads_list keyed leadsListing
  · obtain ⟨rfl, rfl, waiting⟩ := Script.Leads.of_done afterList
    exact .inl ⟨⟨error, rfl⟩, (waited.trans waiting).basis.held, by simpa using failed⟩
  · obtain ⟨cycle, rfl, goes, limited⟩ := leads_takeListed lists.distinct waited afterList
    exact .inr ⟨cycle, limited.recorded leads.through lists goes, limited⟩

/-- One lease is assigned to the worker, two are free, and the owner of the last one was not seen for a
long time. -/
def freeAndExpired : List Lease := [
  { leaseKey := "a", shardId := "a", owner := some "w1", counter := 3 },
  { leaseKey := "b", shardId := "b" }, { leaseKey := "c", shardId := "c" },
  { leaseKey := "d", shardId := "d", owner := some "w2" }]

/-- A worker that has just started beside them. -/
def startingBeside : Scene Coordinator where
  state := { ofSettings "w1" {} {} with observed := .ofList [("d", { counter := 0, since := 0 })] }
  table := .ofLeases freeAndExpired
  time := 20000
  tokens := 5

/-- Alone, it adopts the first lease and claims all others. -/
def takingAll : Option (List (Beat Coordinator) × Scene Coordinator × Except WorkerError Unit) :=
  alone take startingBeside

theorem size_takingAll : takingAll.map (fun taken => (taken.2.1.state.held.size, taken.2.2)) =
    some (4, .ok ()) := by decide +kernel

theorem take_recorded_of_freeAndExpired :
    ∃ beats last, startingBeside.table.Keyed ∧ Leads take startingBeside beats last (.ok ()) ∧
      last.state.held.size = 4 ∧
        ∃ cycle : TakingCycle, cycle.Recorded startingBeside beats last ∧
          cycle.Limited startingBeside.state (.ok ()) := by
  obtain ⟨⟨beats, last, result⟩, alone, same⟩ := Option.map_eq_some_iff.1 size_takingAll
  obtain ⟨size, rfl⟩ := Prod.mk.inj same
  have keyed : startingBeside.table.Keyed := .ofLeases freeAndExpired
  have leads : Leads take startingBeside beats last (.ok ()) :=
    leads_of_alone alone
  obtain ⟨⟨_, isError⟩, _⟩ | recorded := take_recorded keyed leads
  · cases isError
  · exact ⟨beats, last, keyed, leads, size, recorded⟩

end Coordinator

end LeaseFleet
