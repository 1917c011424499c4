import LeaseFleet.Proofs.Script.Scenes
import LeaseFleet.Proofs.Sync.ShardSync
import LeaseFleet.Proofs.Coordinator.KeptSight
import LeaseFleet.Proofs.Fleet.UpkeptLease

/-!
# A renewal cycle

All held leases are renewed side by side, each by a job of its own. Such a job repeats the write of its
lease and then decides about this lease alone (`HeldLease.Closes`), so it leaves alone what is held under
other keys (`HeldLease.Renewing.keeps`). Hence what a cycle makes of a lease can be read off the acts of its
own job (`HeldLease.Renews`), in whatever order the acts of all jobs take place.
-/

namespace LeaseFleet

/-! ## A single lease -/

namespace HeldLease

/-- The write by which a held lease is renewed. -/
@[reducible] def renewal (held : HeldLease) : StoreCall := .update held.lease held.lease.counter

/-- The lease as its renewal stores it. -/
def renewed (held : HeldLease) : Lease := { held.lease with counter := held.lease.counter + 1 }

end HeldLease

/-- The clock was read after all calls of the store. -/
def ReadLast {σ : Type} (time : Nat) (acts : List (Act σ)) : Prop :=
  ∃ before after, acts = before ++ .asked .clock time :: after ∧ calledIn after = []

theorem ReadLast.of_later {σ : Type} {time : Nat} {acts : List (Act σ)} (read : ReadLast time acts)
    (earlier : List (Act σ)) : ReadLast time (earlier ++ acts) := by
  obtain ⟨before, after, rfl, none⟩ := read
  exact ⟨earlier ++ before, after, by simp, none⟩

/-- What the acts of the renewal of a lease come to: the write is repeated after failures that may pass, and
its last answer and the time after it decide what is held. -/
structure HeldLease.Renews (held : HeldLease) (settings : LeaseSettings) (acts : List (Act Coordinator))
    (failures : List StoreError) (reply : Except StoreError UpdateOutcome) (time : Nat)
    (after : Option HeldLease) : Prop where
  calls : calledIn acts =
    (failures.map fun error => ⟨held.renewal, .error error⟩) ++ [⟨held.renewal, reply⟩]
  atMost : failures.length ≤ settings.retryPolicy.maxAttempts - 1
  transient : ∀ error ∈ failures, error.isRetryable = true
  reads : after.isSome ∨ (∃ error, reply = .error error) → ReadLast time acts
  remains : after.isSome ↔ (∃ stored, reply = .ok (.updated stored)) ∨
    (∃ error, reply = .error error) ∧ time - held.lastRenewal < settings.failoverTime
  applied : ∀ stored, reply = .ok (.updated stored) → stored = held.renewed ∧
    after = some { lease := held.renewed, token := held.token, lastRenewal := time }
  kept : ∀ error now, reply = .error error → after = some now → now = held

/-- Only the last call has not failed. -/
theorem HeldLease.Renews.reply_of_called {held : HeldLease} {settings : LeaseSettings}
    {acts : List (Act Coordinator)} {failures : List StoreError} {reply : Except StoreError UpdateOutcome}
    {time : Nat} {after : Option HeldLease} (renews : held.Renews settings acts failures reply time after)
    {outcome : UpdateOutcome} (called : ⟨held.renewal, .ok outcome⟩ ∈ calledIn acts) :
    reply = .ok outcome := by
  rw [renews.calls] at called
  obtain mem | mem := List.mem_append.1 called
  · obtain ⟨error, _, same⟩ := List.mem_map.1 mem
    cases same
  · exact (eq_of_heq (Sigma.mk.inj (List.mem_singleton.1 mem)).2).symm

namespace Coordinator

/-- What is held under a key, and how the worker is set. -/
def standing (leaseKey : String) (state : Coordinator) : Option HeldLease × LeaseSettings :=
  (state.held.get? leaseKey, state.settings)

section

variable {state : Coordinator} {leaseKey other : String} {token : Token} {stored : Lease} {time : Nat}
  {held : HeldLease} {settings : LeaseSettings}

theorem SameBasis.standing {before now : Coordinator} (same : before.SameBasis now) (leaseKey : String) :
    now.standing leaseKey = before.standing leaseKey := by
  rw [Coordinator.standing, same.held, same.settings, Coordinator.standing]

theorem standing_confirm_of_ne (ne : other ≠ leaseKey) :
    (state.confirm leaseKey token stored time).standing other = state.standing other :=
  Prod.ext (get?_confirm_of_ne ne) (SameSight.confirm ..).settings

theorem standing_drop_of_ne (ne : other ≠ leaseKey) :
    (state.drop leaseKey token).standing other = state.standing other :=
  Prod.ext (get?_drop_of_ne ne) (SameSight.drop ..).settings

theorem standing_confirm (found : state.standing leaseKey = (some held, settings)) :
    (state.confirm leaseKey held.token stored time).standing leaseKey =
      (some ⟨stored, held.token, time⟩, settings) :=
  Prod.ext (get?_confirm_self (congrArg Prod.fst found) rfl)
    ((SameSight.confirm ..).settings.trans (congrArg Prod.snd found))

theorem standing_drop (found : state.standing leaseKey = (some held, settings)) :
    (state.drop leaseKey held.token).standing leaseKey = (none, settings) :=
  Prod.ext (get?_drop_self (congrArg Prod.fst found) rfl)
    ((SameSight.drop ..).settings.trans (congrArg Prod.snd found))

end

end Coordinator

namespace HeldLease

/-- How the renewal of a lease ends, by the answer to its last call. -/
inductive Closes (held : HeldLease) : Except StoreError UpdateOutcome → List (Act Coordinator) → Prop
  | applied {stored : Lease} {time : Nat} (found : Coordinator) :
      Closes held (.ok (.updated stored)) [.asked .clock time,
        .changed found (found.confirm held.lease.leaseKey held.token stored time)]
  | lost {outcome : UpdateOutcome} (notApplied : ∀ stored, outcome ≠ .updated stored) (found : Coordinator)
      (counted shown : Measurement) :
      Closes held (.ok outcome) [.asked (.record counted) (),
        .changed found (found.drop held.lease.leaseKey held.token), .asked (.record shown) ()]
  | kept {error : StoreError} {time : Nat} (state : Coordinator) (counted : Measurement)
      (recent : time - held.lastRenewal < state.settings.failoverTime) :
      Closes held (.error error) [.asked (.record counted) (), .asked .clock time, .changed state state]
  | dropped {error : StoreError} {time : Nat} (state found : Coordinator) (counted shown : Measurement)
      (overdue : state.settings.failoverTime ≤ time - held.lastRenewal) :
      Closes held (.error error) [.asked (.record counted) (), .asked .clock time, .changed state state,
        .changed found (found.drop held.lease.leaseKey held.token), .asked (.record shown) ()]

/-- The acts of a renewal: a look at the settings, the calls and what comes after them. -/
structure Renewing (held : HeldLease) (acts : List (Act Coordinator)) (state : Coordinator)
    (failures : List StoreError) (reply : Except StoreError UpdateOutcome)
    (calls closing : List (Act Coordinator)) : Prop where
  acts_eq : acts = .changed state state :: (calls ++ closing)
  atMost : failures.length ≤ state.retry.maxAttempts - 1
  decides : ∃ result, RetryPolicy.Decides held.renewal calls failures reply result
  closes : held.Closes reply closing

variable {held : HeldLease} {reply : Except StoreError UpdateOutcome} {state : Coordinator}
  {failures : List StoreError} {acts calls closing : List (Act Coordinator)}

theorem Closes.calledIn_eq (closes : held.Closes reply closing) : calledIn closing = [] := by
  cases closes <;> rfl

theorem Closes.keeps (closes : held.Closes reply closing) {other : String}
    (ne : other ≠ held.lease.leaseKey) : ∀ act ∈ closing, act.Keeps (Coordinator.standing other) := by
  cases closes with
  | applied => simp [Act.Keeps, Coordinator.standing_confirm_of_ne ne]
  | lost | kept | dropped => simp [Act.Keeps, Coordinator.standing_drop_of_ne ne]

namespace Renewing

theorem calledIn_eq (renewing : held.Renewing acts state failures reply calls closing) :
    calledIn acts =
      (failures.map fun error => ⟨held.renewal, .error error⟩) ++ [⟨held.renewal, reply⟩] := by
  obtain ⟨result, decides⟩ := renewing.decides
  rw [renewing.acts_eq, calledIn_changed, calledIn_append, renewing.closes.calledIn_eq, List.append_nil]
  exact decides.calls

/-- All calls of a renewal are its write. -/
theorem call_eq (renewing : held.Renewing acts state failures reply calls closing)
    {called : (call : StoreCall) × call.Reply} (mem : called ∈ calledIn acts) :
    called.1 = held.renewal := by
  rw [renewing.calledIn_eq] at mem
  obtain mem | mem := List.mem_append.1 mem
  · obtain ⟨_, _, rfl⟩ := List.mem_map.1 mem
    rfl
  · rw [List.mem_singleton.1 mem]

theorem calls_keep (renewing : held.Renewing acts state failures reply calls closing) {β : Type}
    (part : Coordinator → β) : ∀ act ∈ calls, act.Keeps part := by
  obtain ⟨result, decides⟩ := renewing.decides
  exact fun act mem => (decides.only act mem).elim (fun _ => trivial) fun _ _ _ => trivial

/-- The renewal of a lease leaves other leases alone. -/
theorem keeps (renewing : held.Renewing acts state failures reply calls closing) {other : String}
    (ne : other ≠ held.lease.leaseKey) : ∀ act ∈ acts, act.Keeps (Coordinator.standing other) := by
  rw [renewing.acts_eq]
  refine List.forall_mem_cons.2 ⟨rfl, List.forall_mem_append.2 ⟨renewing.calls_keep _, ?_⟩⟩
  exact renewing.closes.keeps ne

/-- What is held of a lease that only its renewal changes. -/
theorem renews (renewing : held.Renewing acts state failures reply calls closing)
    {settings later : LeaseSettings} {after : Option HeldLease}
    (carries : Carries (Coordinator.standing held.lease.leaseKey) (some held, settings) acts (after, later))
    (stores : ∀ stored, reply = .ok (.updated stored) → stored = held.renewed) :
    ∃ time, held.Renews settings acts failures reply time after := by
  have called := renewing.calledIn_eq
  obtain ⟨acts_eq, atMost, ⟨result, decides⟩, closes⟩ := id renewing
  subst acts_eq
  -- neither the look nor the calls change what is held
  obtain ⟨found, carries⟩ := carries
  obtain ⟨middle, before, carries⟩ := carries.of_append
  obtain rfl := before.eq_of_keeps (renewing.calls_keep _)
  rw [found] at carries
  have limit : failures.length ≤ settings.retryPolicy.maxAttempts - 1 := by
    have same : state.settings = settings := congrArg Prod.snd found
    exact same ▸ atMost
  -- the clock is read among the closing acts
  have reads {time : Nat} (last : ReadLast time closing) :
      ReadLast time (.changed state state :: (calls ++ closing)) :=
    last.of_later (.changed state state :: calls)
  cases closes with
  | @applied stored time found =>
    obtain ⟨found, left⟩ := carries
    rw [Coordinator.standing_confirm found] at left
    obtain ⟨rfl, rfl⟩ := Prod.mk.inj left
    obtain rfl := stores stored rfl
    exact ⟨time,
      { calls := called
        atMost := limit
        transient := decides.transient
        reads := fun _ => reads ⟨[], _, rfl, rfl⟩
        remains := by simp
        applied := by simp
        kept := by simp }⟩
  | lost notApplied found counted shown =>
    obtain ⟨found, left⟩ := carries
    rw [Coordinator.standing_drop found] at left
    obtain ⟨rfl, rfl⟩ := Prod.mk.inj left
    exact ⟨0,
      { calls := called
        atMost := limit
        transient := decides.transient
        reads := by simp
        remains := by simpa using notApplied
        applied := by simpa using notApplied
        kept := by simp }⟩
  | @kept error time looked counted recent =>
    obtain ⟨seen, left⟩ := carries
    have same : looked.settings = settings := congrArg Prod.snd seen
    rw [same] at recent
    rw [seen] at left
    obtain ⟨rfl, rfl⟩ := Prod.mk.inj left
    exact ⟨time,
      { calls := called
        atMost := limit
        transient := decides.transient
        reads := fun _ => reads ⟨[_], _, rfl, rfl⟩
        remains := by simpa using recent
        applied := by simp
        kept := by simp }⟩
  | @dropped error time looked found counted shown overdue =>
    obtain ⟨seen, found, left⟩ := carries
    have same : looked.settings = settings := congrArg Prod.snd seen
    rw [same] at overdue
    rw [seen] at found
    rw [Coordinator.standing_drop found] at left
    obtain ⟨rfl, rfl⟩ := Prod.mk.inj left
    exact ⟨time,
      { calls := called
        atMost := limit
        transient := decides.transient
        reads := fun _ => reads ⟨[_], _, rfl, rfl⟩
        remains := by simpa using overdue
        applied := by simp
        kept := by simp }⟩

end Renewing

end HeldLease

namespace Coordinator

variable {acts : List (Act Coordinator)}

theorem enacts_dropHeld {leaseKey : String} {token : Token}
    (enacts : (dropHeld leaseKey token).Enacts perform acts ()) : ∃ found shown,
      acts = [.changed found (found.drop leaseKey token), .asked (.record shown) ()] := by
  obtain ⟨found, _, afterDrop, rfl⟩ := Script.Enacts.of_step enacts
  obtain ⟨_, _, ended, rfl⟩ := Script.Enacts.of_query afterDrop
  obtain ⟨rfl, _⟩ := Script.Enacts.of_done ended
  exact ⟨found, _, rfl⟩

/-- A lost lease is counted and dropped. -/
theorem closes_of_lost {held : HeldLease} {outcome : UpdateOutcome}
    (notApplied : ∀ stored, outcome ≠ .updated stored) {result : Bool}
    (enacts : (applyWrite held.lease.leaseKey held.token outcome).Enacts perform acts result) :
    held.Closes (.ok outcome) acts := by
  have lost : ((Script.count .leasesLost 1).bind fun _ =>
      (dropHeld held.lease.leaseKey held.token).bind fun _ => .done false).Enacts perform acts result := by
    cases outcome with
    | updated stored => exact absurd rfl (notApplied stored)
    | versionConflict | notFound => exact enacts
  obtain ⟨_, _, afterCount, rfl⟩ := Script.Enacts.of_query lost
  obtain ⟨_, _, _, drops, ended, rfl⟩ := Script.Enacts.of_bind afterCount
  obtain ⟨rfl, _⟩ := Script.Enacts.of_done ended
  obtain ⟨found, shown, rfl⟩ := enacts_dropHeld drops
  exact .lost notApplied found _ shown

theorem enacts_renewOne {held : HeldLease} (enacts : (renewOne held).Enacts perform acts ()) :
    ∃ state failures reply calls closing,
      held.Renewing acts state failures reply calls closing := by
  obtain ⟨storing, closing, result, stores, rest, rfl⟩ := Script.Enacts.of_bind enacts
  obtain ⟨state, calls, failures, reply, rfl, atMost, decides⟩ := enacts_store stores
  refine ⟨state, failures, reply, calls, closing, rfl, atMost, ⟨result, decides⟩, ?_⟩
  have agrees := decides.agrees
  cases reply with
  | ok outcome =>
    obtain rfl := agrees
    obtain ⟨_, _, _, applies, ended, rfl⟩ := Script.Enacts.of_bind rest
    obtain ⟨rfl, _⟩ := Script.Enacts.of_done ended
    rw [List.append_nil]
    cases outcome with
    | updated stored =>
      obtain ⟨time, _, afterClock, rfl⟩ := Script.Enacts.of_query applies
      obtain ⟨found, _, afterConfirm, rfl⟩ := Script.Enacts.of_step afterClock
      obtain ⟨rfl, _⟩ := Script.Enacts.of_done afterConfirm
      exact .applied found
    | versionConflict | notFound => exact closes_of_lost (by simp) applies
  | error error =>
    obtain ⟨failure, rfl⟩ := agrees
    obtain ⟨_, _, afterCount, rfl⟩ := Script.Enacts.of_query rest
    obtain ⟨time, _, afterClock, rfl⟩ := Script.Enacts.of_query afterCount
    obtain ⟨looked, _, afterLook, rfl⟩ := Script.Enacts.of_step afterClock
    split at afterLook
    case isTrue overdue =>
      obtain ⟨found, shown, rfl⟩ := enacts_dropHeld afterLook
      exact .dropped looked found _ shown overdue
    case isFalse recent =>
      obtain ⟨rfl, _⟩ := Script.Enacts.of_done afterLook
      exact .kept looked _ (by omega)

end Coordinator

/-! ## All held leases -/

/-- The store calls about one lease, with their answers. -/
def callsAbout {σ : Type} (leaseKey : String) (acts : List (Act σ)) :
    List ((call : StoreCall) × call.Reply) :=
  (calledIn acts).filter fun called => called.1.key? = some leaseKey

/-- What a renewal cycle comes to. -/
structure RenewalCycle (first : Scene Coordinator) (beats : List (Beat Coordinator))
    (last : Scene Coordinator) : Prop where
  /-- Each held lease has acts of its own, among them all calls about it, that decide what is held of it. -/
  each : ∀ leaseKey held, first.state.held.get? leaseKey = some held → ∃ own failures reply time,
    own.Sublist (beats.map Beat.act) ∧ callsAbout leaseKey (beats.map Beat.act) = calledIn own ∧
      held.Renews first.state.settings own failures reply time (last.state.held.get? leaseKey)
  others : ∀ leaseKey, first.state.held.get? leaseKey = none → last.state.held.get? leaseKey = none
  calls : ∀ called ∈ calledIn (beats.map Beat.act), ∃ leaseKey held,
    first.state.held.get? leaseKey = some held ∧ called.1 = held.renewal
  /-- The table changes only in leases that are held on as they are stored since then. -/
  stores : ∀ beat ∈ beats, beat.left.table = beat.found.table ∨
    ∃ leaseKey held now stored, first.state.held.get? leaseKey = some held ∧
      beat.act = .asked (.store held.renewal) (.ok (.updated held.renewed)) ∧
        beat.found.table.get? leaseKey = some stored ∧ stored.counter = held.lease.counter ∧
          beat.left.table = beat.found.table.put held.renewed ∧
            last.state.held.get? leaseKey = some now ∧ now.lease = held.renewed

/-- The acts of the jobs of a renewal cycle, for each held lease a part. -/
structure Renewals (leases : List HeldLease) (parts : List (List (Act Coordinator)))
    (acts : List (Act Coordinator)) : Prop where
  length : parts.length = leases.length
  side : Interleaves parts acts
  each : ∀ (i : Nat) held part, leases[i]? = some held → parts[i]? = some part →
    ∃ state failures reply calls closing, held.Renewing part state failures reply calls closing
  distinct : (leases.map (·.lease.leaseKey)).Nodup

namespace Renewals

variable {leases : List HeldLease} {parts : List (List (Act Coordinator))} {acts : List (Act Coordinator)}

/-- Every part is the renewal of a lease. -/
theorem renewing (renewals : Renewals leases parts acts) {i : Nat} {part : List (Act Coordinator)}
    (here : parts[i]? = some part) : ∃ held, leases[i]? = some held ∧
      ∃ state failures reply calls closing, held.Renewing part state failures reply calls closing := by
  obtain ⟨known, _⟩ := List.getElem?_eq_some_iff.1 here
  have isLease := List.getElem?_eq_getElem (renewals.length ▸ known)
  exact ⟨_, isLease, renewals.each i _ part isLease here⟩

/-- Other parts are about other leases. -/
theorem apart (renewals : Renewals leases parts acts) {i j : Nat} {held other : HeldLease}
    (here : leases[i]? = some held) (there : leases[j]? = some other) (ne : j ≠ i) :
    held.lease.leaseKey ≠ other.lease.leaseKey := by
  intro same
  obtain ⟨known, _⟩ := List.getElem?_eq_some_iff.1 there
  refine ne ((List.getElem?_inj (by simpa using known) renewals.distinct).1 ?_)
  rw [List.getElem?_map, List.getElem?_map, here, there, Option.map_some, Option.map_some, same]

/-- Each lease has a part of its own, with all calls about it and all that changes what is held of it. -/
theorem own (renewals : Renewals leases parts acts) {held : HeldLease} (mem : held ∈ leases) :
    ∃ own state failures reply calls closing, held.Renewing own state failures reply calls closing ∧
      own.Sublist acts ∧ callsAbout held.lease.leaseKey acts = calledIn own ∧
        ∀ value final, Carries (Coordinator.standing held.lease.leaseKey) value acts final →
          Carries (Coordinator.standing held.lease.leaseKey) value own final := by
  obtain ⟨i, here⟩ := List.mem_iff_getElem?.1 mem
  obtain ⟨known, _⟩ := List.getElem?_eq_some_iff.1 here
  have isPart := List.getElem?_eq_getElem (renewals.length ▸ known)
  obtain ⟨state, failures, reply, calls, closing, renewing⟩ := renewals.each i held _ here isPart
  refine ⟨_, state, failures, reply, calls, closing, renewing, renewals.side.sublist isPart, ?about,
    ?carries⟩
  case about =>
    -- the calls of the other parts are about their own leases
    have others : ∀ (j : Nat) other, j ≠ i → parts[j]? = some other →
        callsAbout held.lease.leaseKey other = [] := by
      intro j other ne isOther
      obtain ⟨another, there, _, _, _, _, _, renewing⟩ := renewals.renewing isOther
      refine List.filter_eq_nil_iff.2 fun called mem => ?_
      rw [renewing.call_eq mem]
      simpa [StoreCall.key?] using (renewals.apart here there ne).symm
    simp only [callsAbout, calledIn, List.filter_filterMap] at others
    have all := renewals.side.filterMap_eq _ isPart others
    rw [← List.filter_filterMap, ← List.filter_filterMap] at all
    refine all.trans ?_
    refine List.filter_eq_self.2 fun called mem => ?_
    rw [renewing.call_eq mem]
    simp [StoreCall.key?]
  case carries =>
    refine fun value final => renewals.side.carries isPart fun j other ne isOther => ?_
    obtain ⟨another, there, _, _, _, _, _, renewing⟩ := renewals.renewing isOther
    exact renewing.keeps (renewals.apart here there ne)

/-- What is held under other keys stays as it was. -/
theorem keeps (renewals : Renewals leases parts acts) {leaseKey : String}
    (others : ∀ held ∈ leases, held.lease.leaseKey ≠ leaseKey) :
    ∀ act ∈ acts, act.Keeps (Coordinator.standing leaseKey) := by
  intro act mem
  obtain ⟨part, isPart, among⟩ := renewals.side.mem mem
  obtain ⟨i, here⟩ := List.mem_iff_getElem?.1 isPart
  obtain ⟨held, there, _, _, _, _, _, renewing⟩ := renewals.renewing here
  exact renewing.keeps (others held (List.mem_of_getElem? there)).symm act among

/-- All calls renew held leases. -/
theorem call_eq (renewals : Renewals leases parts acts) {called : (call : StoreCall) × call.Reply}
    (mem : called ∈ calledIn acts) : ∃ held ∈ leases, called.1 = held.renewal := by
  obtain ⟨act, among, isCall⟩ := List.mem_filterMap.1 mem
  obtain ⟨part, isPart, among⟩ := renewals.side.mem among
  obtain ⟨i, here⟩ := List.mem_iff_getElem?.1 isPart
  obtain ⟨held, there, _, _, _, _, _, renewing⟩ := renewals.renewing here
  exact ⟨held, List.mem_of_getElem? there, renewing.call_eq (List.mem_filterMap.2 ⟨act, among, isCall⟩)⟩

end Renewals

namespace Coordinator

/-- The leases that are held under their own keys have distinct keys. -/
theorem Keyed.nodup_leaseKeys {state : Coordinator} (keyed : state.Keyed) :
    (state.held.values.map (·.lease.leaseKey)).Nodup := by
  have same : state.held.values.map (·.lease.leaseKey) = state.held.keys := by
    rw [SortedMap.values, SortedMap.keys, List.map_map]
    exact List.map_congr_left fun entry mem => keyed (SortedMap.get?_eq_some_iff.2 mem)
  exact same ▸ state.held.nodup_keys

variable {first last : Scene Coordinator} {beats : List (Beat Coordinator)}

/-- A renewal cycle looks at what is held, renews all of it side by side and counts what is held then. Of
its acts only those of the renewals call the store or change what is held. -/
theorem leads_renew (keyed : first.state.Keyed) (leads : Leads renew first beats last ()) :
    ∃ parts acts, Renewals first.state.held.values parts acts ∧ acts.Sublist (beats.map Beat.act) ∧
      calledIn (beats.map Beat.act) = calledIn acts ∧ ∀ leaseKey,
        Carries (standing leaseKey) (first.state.standing leaseKey) acts
          (last.state.standing leaseKey) := by
  have carries (leaseKey : String) := leads.through.carries fun passes => passes.basis.standing leaseKey
  obtain ⟨state, looks, _, basis, looked, isLook, afterLook, rfl⟩ := leads_look leads
  obtain ⟨gathering, middle, _, showing, gathers, shows, rfl⟩ :=
    Script.Leads.of_bind Scene.Passes.refl afterLook
  obtain ⟨parts, length, side, each⟩ := gathers.enacts.of_gather
  obtain ⟨found, finds, _, _, _, isFound, afterFound, rfl⟩ := leads_look shows
  obtain ⟨shown, _, _, _, _, isShown, _, ended, rfl⟩ := leads_query afterFound
  obtain ⟨rfl, _⟩ := Script.Leads.of_done ended
  have split : (looks :: (gathering ++ [finds, shown])).map Beat.act =
      .changed state state :: (gathering.map Beat.act ++ [finds.act, shown.act]) := by
    simp [isLook]
  simp only [split] at carries ⊢
  refine ⟨parts, gathering.map Beat.act, ?renewals, ?sublist, ?called, fun leaseKey => ?carried⟩
  case renewals =>
    refine ⟨by simpa [basis.held] using length, side, fun i held part isHeld isPart => ?_,
      keyed.nodup_leaseKeys⟩
    have isJob : (state.held.values.map CoordinatorJob.renewal)[i]? = some (.renewal held) := by
      rw [List.getElem?_map, basis.held, isHeld]
      rfl
    obtain ⟨_, enacts⟩ := each i _ part isJob isPart
    obtain ⟨_, _, _, renews, ended, rfl⟩ := Script.Enacts.of_bind enacts
    obtain ⟨rfl, _⟩ := Script.Enacts.of_done ended
    rw [List.append_nil]
    exact enacts_renewOne renews
  case sublist => exact (List.sublist_append_left ..).cons _
  case called =>
    rw [calledIn_changed, calledIn_append, isFound, isShown]
    exact List.append_nil _
  case carried =>
    have looking : Act.Keeps (standing leaseKey) (.changed state state) := rfl
    obtain ⟨middle, within, later⟩ := ((carries leaseKey).of_keeps looking).of_append
    have same := later.eq_of_keeps (by simp [isFound, isShown, Act.Keeps])
    exact same ▸ within

end Coordinator

namespace Renewals

variable {first last : Scene Coordinator} {beats : List (Beat Coordinator)}
  {parts : List (List (Act Coordinator))} {acts : List (Act Coordinator)}

/-- What is held of a lease is decided by its own renewal. -/
theorem renews (renewals : Renewals first.state.held.values parts acts)
    (does : ∀ beat ∈ beats, beat.found.Does beat.act beat.left)
    (sublist : acts.Sublist (beats.map Beat.act)) {held : HeldLease}
    (mem : held ∈ first.state.held.values)
    (isHeld : first.state.held.get? held.lease.leaseKey = some held)
    (carries : Carries (Coordinator.standing held.lease.leaseKey)
      (first.state.standing held.lease.leaseKey) acts (last.state.standing held.lease.leaseKey)) :
    ∃ own failures reply time, own.Sublist acts ∧ callsAbout held.lease.leaseKey acts = calledIn own ∧
      held.Renews first.state.settings own failures reply time
        (last.state.held.get? held.lease.leaseKey) := by
  obtain ⟨own, _, failures, reply, _, _, renewing, part, about, within⟩ := renewals.own mem
  have standing : first.state.standing held.lease.leaseKey = (some held, first.state.settings) :=
    Prod.ext isHeld rfl
  have stores : ∀ stored, reply = .ok (.updated stored) → stored = held.renewed := by
    rintro stored rfl
    have isCalled : ⟨held.renewal, .ok (.updated stored)⟩ ∈ calledIn own := by simp [renewing.calledIn_eq]
    obtain ⟨beat, mem, isCall⟩ := List.mem_map.1 ((part.trans sublist).subset (mem_calledIn.1 isCalled))
    exact (isCall ▸ does beat mem).of_call.1.stored.1
  obtain ⟨time, renews⟩ := renewing.renews (within _ _ (standing ▸ carries)) stores
  exact ⟨own, failures, reply, time, part, about, renews⟩

/-- A call of a renewal changes nothing, or it replaces a lease that is stored under the held counter. -/
theorem stores (renewals : Renewals first.state.held.values parts acts)
    {beat : Beat Coordinator} (does : beat.found.Does beat.act beat.left)
    (called : ∀ call reply, beat.act = .asked (.store call) reply → ⟨call, reply⟩ ∈ calledIn acts) :
    beat.left.table = beat.found.table ∨ ∃ held ∈ first.state.held.values,
      beat.act = .asked (.store held.renewal) (.ok (.updated held.renewed)) ∧
        (∃ stored, beat.found.table.get? held.lease.leaseKey = some stored ∧
          stored.counter = held.lease.counter) ∧
        beat.left.table = beat.found.table.put held.renewed := by
  obtain ⟨found, act, left⟩ := beat
  dsimp only at does called ⊢
  cases does with
  | @call _ call reply table answers =>
    obtain ⟨held, isHeld, same⟩ := renewals.call_eq (called call reply rfl)
    dsimp only at same
    subst same
    obtain ⟨_, same⟩ | ⟨stored, rfl, same⟩ := answers.of_update
    · exact .inl same
    · exact .inr ⟨held, isHeld, rfl, stored, same⟩
  | clock | token | other | change => exact .inl rfl

end Renewals

namespace Coordinator

variable {first last : Scene Coordinator} {beats : List (Beat Coordinator)}

/-- Each held lease is renewed apart from all others, in whatever order the renewals take place. It is held
on if its write was applied, or if the calls have failed and it was renewed not too long ago. -/
theorem renewalCycle_of_leads (keyed : first.state.Keyed) (leads : Leads renew first beats last ()) :
    RenewalCycle first beats last := by
  obtain ⟨parts, acts, renewals, sublist, called, carries⟩ := leads_renew keyed leads
  have values {held : HeldLease} (mem : held ∈ first.state.held.values) :
      first.state.held.get? held.lease.leaseKey = some held := by
    obtain ⟨leaseKey, isHeld⟩ := SortedMap.mem_values.1 mem
    exact keyed isHeld ▸ isHeld
  have each : ∀ leaseKey held, first.state.held.get? leaseKey = some held → ∃ own failures reply time,
      own.Sublist (beats.map Beat.act) ∧ callsAbout leaseKey (beats.map Beat.act) = calledIn own ∧
        held.Renews first.state.settings own failures reply time (last.state.held.get? leaseKey) := by
    intro leaseKey held isHeld
    obtain rfl := keyed isHeld
    obtain ⟨own, failures, reply, time, part, about, renews⟩ := renewals.renews leads.through.does sublist
      (SortedMap.mem_values.2 ⟨_, isHeld⟩) isHeld (carries _)
    refine ⟨own, failures, reply, time, part.trans sublist, ?_, renews⟩
    rw [← about, callsAbout, called, callsAbout]
  refine ⟨each, fun leaseKey notHeld => ?others, fun call mem => ?calls, fun beat mem => ?stores⟩
  case others =>
    have others : ∀ held ∈ first.state.held.values, held.lease.leaseKey ≠ leaseKey := by
      rintro held mem rfl
      cases notHeld.symm.trans (values mem)
    have same := (carries leaseKey).eq_of_keeps (renewals.keeps others)
    exact (congrArg Prod.fst same).trans notHeld
  case calls =>
    obtain ⟨held, isHeld, same⟩ := renewals.call_eq (called ▸ mem)
    exact ⟨_, held, values isHeld, same⟩
  case stores =>
    have among := List.mem_map_of_mem (f := Beat.act) mem
    obtain same | ⟨held, isHeld, isCall, ⟨stored, found, counter⟩, left⟩ :=
      renewals.stores (leads.through.does beat mem) fun call reply isCall =>
        called ▸ mem_calledIn.2 (isCall ▸ among)
    · exact .inl same
    · obtain ⟨own, failures, reply, time, _, about, renews⟩ := each _ held (values isHeld)
      have isCalled : ⟨held.renewal, .ok (.updated held.renewed)⟩ ∈
          callsAbout held.lease.leaseKey (beats.map Beat.act) :=
        List.mem_filter.2 ⟨mem_calledIn.2 (isCall ▸ among), by simp [StoreCall.key?]⟩
      obtain ⟨_, isNow⟩ := renews.applied _ (renews.reply_of_called (about ▸ isCalled))
      exact .inr ⟨_, held, _, stored, values isHeld, isCall, found, counter, left, isNow, rfl⟩

theorem Keyed.hold {state : Coordinator} (keyed : state.Keyed) (lease : Lease) (token : Token)
    (time : Nat) : (state.hold lease token time).Keyed := by
  intro leaseKey held found
  obtain ⟨rfl, rfl⟩ | ⟨_, found⟩ := SortedMap.get?_insert_eq_some_iff.1 found
  · rfl
  · exact keyed found

theorem keyed_ofSettings (workerId : String) (settings : LeaseSettings) (assignment : AssignmentConfig) :
    (ofSettings workerId settings assignment).Keyed := nofun

def heldAt (leaseKey : String) : Lease := { leaseKey, shardId := leaseKey, owner := some "w1" }

/-- A worker that holds three leases, of which another worker has taken the second and the third is gone. -/
def holdingThree : Scene Coordinator where
  state := (((ofSettings "w1" {} {}).hold (heldAt "a") ⟨0⟩ 0).hold (heldAt "b") ⟨1⟩ 0).hold
    (heldAt "c") ⟨2⟩ 0
  table := .ofLeases [heldAt "a", { heldAt "b" with owner := some "w2", counter := 1 }]
  time := 5000
  tokens := 3

theorem keys_renewed_of_three :
    (alone renew holdingThree).map (fun renewed => renewed.2.1.state.held.keys) = some ["a"] := by
  decide +kernel

theorem renewalCycle_of_three : ∃ beats last, holdingThree.state.Keyed ∧
    Leads renew holdingThree beats last () ∧ last.state.held.keys = ["a"] ∧
      RenewalCycle holdingThree beats last := by
  obtain ⟨⟨beats, last, _⟩, alone, keys⟩ := Option.map_eq_some_iff.1 keys_renewed_of_three
  have keyed : holdingThree.state.Keyed :=
    Keyed.hold (Keyed.hold (Keyed.hold (keyed_ofSettings _ _ _) _ _ _) _ _ _) _ _ _
  have leads : Leads renew holdingThree beats last () := leads_of_alone alone
  exact ⟨beats, last, keyed, leads, keys, renewalCycle_of_leads keyed leads⟩

/-- A worker holds a lease of which another version is stored, under the same counter. -/
def holdingOther : Scene Coordinator where
  state := (ofSettings "w1" {} {}).hold (heldAt "s") ⟨0⟩ 0
  table := .ofLeases [{ heldAt "s" with owner := some "w2", checkpoint := .latest }]
  time := 5000
  tokens := 1

theorem owner_renewed_of_other : ((alone renew holdingOther).any fun renewed => renewed.1.any fun beat =>
    (beat.found.table.get? "s").bind Lease.owner = some "w2" ∧
      (beat.left.table.get? "s").bind Lease.owner = some "w1") = true := by
  decide +kernel

/-- A renewal replaces the stored lease, of which more than the counter may change. -/
theorem renewal_changes_more_than_counter : ¬∀ (first : Scene Coordinator) beats last, first.state.Keyed →
    Leads renew first beats last () → ∀ beat ∈ beats, ∀ leaseKey stored,
      beat.left.table.get? leaseKey = some stored → ∃ before,
        beat.found.table.get? leaseKey = some before ∧
          stored = { before with counter := stored.counter } := by
  intro counts
  obtain ⟨⟨beats, last, _⟩, alone, some⟩ := (Option.any_eq_true ..).1 owner_renewed_of_other
  obtain ⟨beat, mem, owners⟩ := List.any_eq_true.1 some
  obtain ⟨found, left⟩ := of_decide_eq_true owners
  obtain ⟨stored, isStored, owner⟩ := Option.bind_eq_some_iff.1 left
  have keyed : holdingOther.state.Keyed := Keyed.hold (keyed_ofSettings _ _ _) _ _ _
  obtain ⟨before, isBefore, same⟩ :=
    counts holdingOther beats last keyed (leads_of_alone alone) beat mem "s" stored isStored
  rw [isBefore] at found
  rw [same] at owner
  exact absurd (Option.some.inj (found.symm.trans owner)) (by decide)

end Coordinator

end LeaseFleet
