import LeaseFleet.Proofs.Fleet.Fencing
import LeaseFleet.Proofs.Fleet.AdoptionThreads
import LeaseFleet.Proofs.Fleet.UpkeepThreads
import Mathlib.Algebra.BigOperators.Group.Finset.Basic
import Mathlib.Tactic.Abel

/-!
# The account of a place

What an adoption at a place has acquired is accounted for at every instant (`Account`): each lease is
held, or on the hands of a thread, or has been offered back, and nothing is counted twice. Once the
coordinator is stopping, it holds something only as long as a thread is on its way to hand back, or if
an acquisition has failed. Every entry of the roll of threads may be rewritten, if what is added on one
side of the account is added on the other (`Account.rewrite`); that covers all actions of the threads at
the place.
-/

namespace LeaseFleet

namespace Event

/-- The duty that was begun at a place. -/
def begunAt? (place : String) : Event Duty Outcome → Option Duty
  | begun there duty => if there = place then some duty else none
  | _ => none

/-- The lease that an adoption at a place has acquired. -/
def adopted? (place : String) : Event Duty Outcome → Option Lease
  | called there (.request .adopt) (.update _ _) (.ok (.updated stored)) =>
    if there = place then some stored else none
  | _ => none

/-- The lease that was held at a place and has been offered back to the table. -/
def offered? (place : String) : Event Duty Outcome → Option Lease
  | called there (.background (.coordinator (.release held))) (.update proposal expected) _ =>
    if there = place ∧ proposal = Coordinator.released held.lease ∧ expected = held.lease.counter then
      some held.lease
    else none
  | _ => none

end Event

/-- The leases that a worker holds. -/
def Coordinator.heldLeases (state : Coordinator) : List Lease := state.held.values.map HeldLease.lease

theorem SortedMap.values_insert_perm {κ ν : Type} [Ord κ] [Std.TransOrd κ] [Std.LawfulEqOrd κ]
    {map : SortedMap κ ν} {key : κ} (absent : map.get? key = none) (value : ν) :
    (map.insert key value).values.Perm (value :: map.values) := by
  have entries (list : List (κ × ν)) (absent : lookupEntry key list = none) :
      (insertEntry key value list).Perm ((key, value) :: list) := by
    induction list with
    | nil => exact .refl _
    | cons head rest ih =>
      obtain ⟨other, found⟩ := head
      simp only [lookupEntry] at absent
      split at absent
      · cases absent
      · rename_i differs
        simp only [insertEntry]
        split
        · exact .refl _
        · rename_i same
          exact absurd same differs
        · exact ((ih absent).cons _).trans (.swap ..)
  exact (entries map.entries absent).map Prod.snd

/-! ## What the threads at a place have on their hands -/

/-- The duties of the threads at a place, and what they have on their hands. -/
abbrev Roll := Nat → Option (Duty × Burden)

/-- The threads at a place. -/
def FleetState.roll (place : String) (s : FleetState) (marks : Nat → Burden) : Roll := fun id =>
  (s.threads.get? id).bind fun thread => if thread.place = place then some (thread.job, marks id) else none

/-- The leases that a thread has on its hands. -/
def Burden.leases : Burden → List Lease
  | won stored _ => [stored]
  | returns left => left.map HeldLease.lease
  | offers held => [held.lease]
  | _ => []

/-- The leases that an entry of a roll stands for. -/
def Roll.onHands (entry : Option (Duty × Burden)) : Multiset Lease := (entry.elim [] (·.2.leases) : List Lease)

/-- The leases that the threads have on their hands. -/
def Roll.leases (roll : Roll) (started : Nat) : Multiset Lease :=
  ∑ id ∈ Finset.range started, onHands (roll id)

namespace Roll

variable {roll : Roll} {started id : Nat} {entry : Option (Duty × Burden)}

/-- When one thread gets something else on its hands, the others keep what they have. -/
theorem leases_update (roll : Roll) (entry : Option (Duty × Burden)) (inside : id < started) :
    Roll.leases (Function.update roll id entry) started + onHands (roll id) =
      roll.leases started + onHands entry := by
  have others : ∑ other ∈ (Finset.range started).erase id, onHands (Function.update roll id entry other) =
      ∑ other ∈ (Finset.range started).erase id, onHands (roll other) :=
    Finset.sum_congr rfl fun other mem => by rw [Function.update_of_ne (Finset.ne_of_mem_erase mem)]
  have here : id ∈ Finset.range started := Finset.mem_range.2 inside
  unfold Roll.leases
  rw [← Finset.add_sum_erase _ _ here, ← Finset.add_sum_erase _ _ here, others, Function.update_self]
  abel

/-- Whoever is on a roll after one entry was written is there by that entry, or was there before. -/
theorem update_eq_some {other : Nat} {found : Duty × Burden}
    (here : Function.update roll id entry other = some found) :
    other = id ∧ entry = some found ∨ other ≠ id ∧ roll other = some found := by
  by_cases same : other = id
  · subst same
    exact .inl ⟨rfl, by simpa using here⟩
  · exact .inr ⟨same, by rwa [Function.update_of_ne same] at here⟩

end Roll

namespace FleetState

variable {place : String} {s : FleetState} {marks : Nat → Burden}

theorem roll_of_found {id : Nat} {thread : Thread Worker Duty Outcome} (found : s.threads.get? id = some thread) :
    s.roll place marks id = if thread.place = place then some (thread.job, marks id) else none := by
  simp [roll, found]

theorem roll_here (marks : Nat → Burden) {id : Nat} {thread : Thread Worker Duty Outcome}
    (found : s.threads.get? id = some thread) : s.roll thread.place marks id = some (thread.job, marks id) := by
  rw [roll_of_found found, if_pos rfl]

theorem roll_goOn (id : Nat) (thread : Thread Worker Duty Outcome) (mark : Burden) :
    FleetState.roll place (s.goOn id thread) (setMark marks id mark) =
      Function.update (s.roll place marks) id
        (if thread.place = place then some (thread.job, mark) else none) := by
  funext other
  by_cases same : other = id
  · subst same
    simp [roll, Interleaving.goOn]
  · simp [roll, Interleaving.goOn, SortedMap.get?_insert_of_ne _ same, same, setMark_of_ne]

theorem roll_launch (there : String) (duty : Duty) (mark : Burden) :
    FleetState.roll place (s.launch Duty.behaviour there duty) (setMark marks s.started mark) =
      Function.update (s.roll place marks) s.started (if there = place then some (duty, mark) else none) :=
  roll_goOn s.started ⟨there, duty, Duty.behaviour duty, []⟩ mark

theorem roll_drop (id : Nat) :
    FleetState.roll place (s.drop id) marks = Function.update (s.roll place marks) id none := by
  funext other
  by_cases same : other = id
  · subst same
    simp [roll, Interleaving.drop, SortedMap.get?_erase]
  · have kept : compare other id ≠ .eq := fun equal => same (Std.LawfulEqCmp.eq_of_compare equal)
    simp [roll, Interleaving.drop, SortedMap.get?_erase, kept, same]

theorem roll_remark {id : Nat} {thread : Thread Worker Duty Outcome} (found : s.threads.get? id = some thread)
    (mark : Burden) : s.roll place (setMark marks id mark) =
      Function.update (s.roll place marks) id (if thread.place = place then some (thread.job, mark) else none) := by
  funext other
  by_cases same : other = id
  · subst same
    simp [roll, found]
  · simp [roll, same, setMark_of_ne]

/-- A thread that keeps its duty keeps its entry. -/
theorem roll_stay {id : Nat} {thread : Thread Worker Duty Outcome} (found : s.threads.get? id = some thread)
    (script : Script Worker Duty (Duty ⊕ Outcome)) (pending : List Nat) :
    FleetState.roll place (s.goOn id { thread with script, pending }) marks = s.roll place marks := by
  have gone : FleetState.roll place (s.goOn id { thread with script, pending }) (setMark marks id (marks id)) =
      Function.update (s.roll place marks) id (if thread.place = place then some (thread.job, marks id) else none) :=
    roll_goOn ..
  rw [Discipline.setMark_same] at gone
  rw [gone, ← roll_of_found found, Function.update_eq_self]

/-- Where no thread at the place acts, the roll stays. -/
theorem roll_elsewhere {id : Nat} {thread : Thread Worker Duty Outcome}
    (found : s.threads.get? id = some thread) (elsewhere : thread.place ≠ place) :
    Function.update (s.roll place marks) id none = s.roll place marks :=
  Function.update_eq_self_iff.2 (by rw [roll_of_found found, if_neg elsewhere])

end FleetState

/-! ## The account -/

/-- Whether a thread with this on its hands is about to have its worker hold nothing, or will not do so
any more because an acquisition has failed. -/
def Burden.isOnTheWay : Burden → Prop
  | takes _ | won _ _ | stops | failed _ => True
  | _ => False

/-- What a thread may have on its hands, for its duty and after these leases were adopted. -/
def Burden.Sound (adopted : List Lease) (duty : Duty) : Burden → Prop
  | idle => duty = .request .adopt ∧ adopted = [] ∨ duty = .request .stopLoops
  | takes left | won _ left =>
    duty = .request .adopt ∧ (left.map Lease.leaseKey ++ adopted.map Lease.leaseKey).Nodup
  | failed _ => duty = .request .adopt
  | stops => duty = .request .stopLoops
  | returns _ | rests => duty.handsOver
  | offers held => duty = .background (.coordinator (.release held))

/-- What has been begun at a place, adopted and offered back, against what the worker holds and its
threads have on their hands. -/
structure Account (begun : List Duty) (adopted offered : List Lease) (failed : Prop) (state : Coordinator)
    (started : Nat) (roll : Roll) : Prop where
  fresh : ∀ {id entry}, roll id = some entry → id < started
  sound : ∀ {id duty mark}, roll id = some (duty, mark) → mark.Sound adopted duty
  alone : ∀ {id other mark otherMark}, roll id = some (.request .adopt, mark) →
    roll other = some (.request .adopt, otherMark) → other = id
  adopting : ∀ {id mark}, roll id = some (.request .adopt, mark) → .request .adopt ∈ begun
  adopted_begun : adopted ≠ [] → .request .adopt ∈ begun
  keyed : state.Keyed
  distinct : (adopted.map Lease.leaseKey).Nodup
  balance : (adopted : Multiset Lease) = state.heldLeases + roll.leases started + offered
  stopping : .request .stopLoops ∈ begun →
    (∃ id, roll id = some (.request .stopLoops, .idle)) ∨ state.stopping = true
  parting : state.stopping = true →
    state.held = .empty ∨ failed ∨ ∃ id duty mark, roll id = some (duty, mark) ∧ mark.isOnTheWay

/-- Only an adoption depends on what was adopted. -/
theorem Burden.Sound.of_not_adoption {adopted later : List Lease} {duty : Duty} {mark : Burden}
    (sound : mark.Sound adopted duty) (other : duty ≠ .request .adopt) : mark.Sound later duty := by
  cases mark with
  | idle => exact sound.imp (fun adoption => absurd adoption.1 other) id
  | takes | won => exact absurd sound.1 other
  | _ => exact sound

theorem Burden.Sound.handsOver {adopted : List Lease} {duty : Duty} {mark : Burden}
    (sound : mark.Sound adopted duty) : duty.handsOver = true := by
  cases mark with
  | idle => rcases sound with ⟨rfl, _⟩ | rfl <;> rfl
  | takes | won => rw [sound.1]; rfl
  | returns | rests => exact sound
  | failed | stops | offers => rw [show duty = _ from sound]; rfl

theorem Account.weaken {begun : List Duty} {adopted offered : List Lease} {failed nowFailed : Prop}
    {state : Coordinator} {started : Nat} {roll : Roll}
    (account : Account begun adopted offered failed state started roll) (remains : failed → nowFailed) :
    Account begun adopted offered nowFailed state started roll :=
  { account with parting := fun isStopping => (account.parting isStopping).imp_right (Or.imp_left remains) }

namespace Account

variable {begun nowBegun : List Duty} {adopted offered nowAdopted nowOffered : List Lease} {failed nowFailed : Prop}
  {state now : Coordinator} {started id : Nat} {roll : Roll} {entry : Option (Duty × Burden)} {duty : Duty}
  {mark after : Burden}

/-- There is room for a further thread. -/
theorem more (account : Account begun adopted offered failed state started roll) :
    roll started = none ∧ Account begun adopted offered failed state (started + 1) roll := by
  have nobody : roll started = none :=
    Option.eq_none_iff_forall_ne_some.2 fun _ there => (account.fresh there).false
  refine ⟨nobody, { account with fresh there := Nat.lt_succ_of_lt (account.fresh there), balance := ?_ }⟩
  have same : roll.leases (started + 1) = roll.leases started := by
    simp [Roll.leases, Finset.sum_range_succ, nobody, Roll.onHands]
  rw [same]
  exact account.balance

/-- The entry of one thread is rewritten, and its worker may change with it. The account is still right
if what is added on one side is added on the other. -/
theorem rewrite (account : Account begun adopted offered failed state started roll) (inside : id < started)
    (sound : ∀ {duty mark}, entry = some (duty, mark) → mark.Sound nowAdopted duty)
    (adopts : nowAdopted = adopted ∨ ∃ mark, roll id = some (.request .adopt, mark))
    (adopting : ∀ {mark}, entry = some (.request .adopt, mark) →
      (∃ earlier, roll id = some (.request .adopt, earlier)) ∨
        .request .adopt ∉ begun ∧ .request .adopt ∈ nowBegun)
    (begins : begun ⊆ nowBegun) (keyed : now.Keyed) (distinct : (nowAdopted.map Lease.leaseKey).Nodup)
    (balance : (nowAdopted : Multiset Lease) + state.heldLeases + Roll.onHands (roll id) + offered =
      adopted + now.heldLeases + Roll.onHands entry + nowOffered)
    (remains : state.stopping = true → now.stopping = true) (failing : failed → nowFailed)
    (stopping : .request .stopLoops ∈ nowBegun → .request .stopLoops ∈ begun ∧
      (roll id = some (.request .stopLoops, .idle) → now.stopping = true) ∨ entry = some (.request .stopLoops, .idle))
    (parting : now.stopping = true → now.held = .empty ∨ nowFailed ∨
      (∃ duty mark, entry = some (duty, mark) ∧ mark.isOnTheWay) ∨ state.stopping = true ∧ now.held = state.held ∧
        ∀ duty mark, roll id = some (duty, mark) → ¬mark.isOnTheWay) :
    Account nowBegun nowAdopted nowOffered nowFailed now started (Function.update roll id entry) where
  fresh there := by
    rcases Roll.update_eq_some there with ⟨rfl, _⟩ | ⟨_, earlier⟩
    · exact inside
    · exact account.fresh earlier
  sound there := by
    rcases Roll.update_eq_some there with ⟨rfl, same⟩ | ⟨differs, earlier⟩
    · exact sound same
    · rcases adopts with rfl | ⟨mark, here⟩
      · exact account.sound earlier
      · refine (account.sound earlier).of_not_adoption ?_
        rintro rfl
        exact differs (account.alone here earlier)
  alone first second := by
    -- an adoption besides the rewritten entry was there before, so that the entry is none
    have notBoth {other mark otherMark} (here : entry = some (.request .adopt, mark)) (differs : other ≠ id)
        (there : roll other = some (.request .adopt, otherMark)) : False := by
      rcases adopting here with ⟨earlier, was⟩ | ⟨notBegun, _⟩
      · exact differs (account.alone was there)
      · exact notBegun (account.adopting there)
    rcases Roll.update_eq_some first with ⟨rfl, same⟩ | ⟨differs, earlier⟩ <;>
      rcases Roll.update_eq_some second with ⟨rfl, sameToo⟩ | ⟨differsToo, earlierToo⟩
    · rfl
    · exact (notBoth same differsToo earlierToo).elim
    · exact (notBoth sameToo differs earlier).elim
    · exact account.alone earlier earlierToo
  adopting there := by
    rcases Roll.update_eq_some there with ⟨_, same⟩ | ⟨_, earlier⟩
    · rcases adopting same with ⟨earlier, was⟩ | ⟨_, now⟩
      · exact begins (account.adopting was)
      · exact now
    · exact begins (account.adopting earlier)
  adopted_begun some := by
    rcases adopts with rfl | ⟨mark, here⟩
    · exact begins (account.adopted_begun some)
    · exact begins (account.adopting here)
  keyed := keyed
  distinct := distinct
  balance := by
    have moved := roll.leases_update entry inside
    refine add_right_cancel (b := (state.heldLeases + Roll.onHands (roll id) + offered : Multiset Lease)) ?_
    calc (nowAdopted : Multiset Lease) + (state.heldLeases + Roll.onHands (roll id) + offered)
        = nowAdopted + state.heldLeases + Roll.onHands (roll id) + offered := by abel
      _ = (state.heldLeases + roll.leases started + offered) + now.heldLeases + Roll.onHands entry + nowOffered := by
        rw [balance, account.balance]
      _ = now.heldLeases + (roll.leases started + Roll.onHands entry) + nowOffered + (state.heldLeases + offered) := by
        abel
      _ = _ := by
        rw [← moved]
        abel
  stopping mem := by
    rcases stopping mem with ⟨before, stopped⟩ | here
    · rcases account.stopping before with ⟨other, there⟩ | already
      · by_cases same : other = id
        · exact .inr (stopped (same ▸ there))
        · exact .inl ⟨other, by rwa [Function.update_of_ne same]⟩
      · exact .inr (remains already)
    · exact .inl ⟨id, by rw [Function.update_self, here]⟩
  parting isStopping := by
    rcases parting isStopping with nothing | failure | ⟨duty, mark, here, onTheWay⟩ | ⟨already, same, notHere⟩
    · exact .inl nothing
    · exact .inr (.inl failure)
    · exact .inr (.inr ⟨id, duty, mark, by rw [Function.update_self, here], onTheWay⟩)
    · rw [same]
      refine (account.parting already).imp_right (Or.imp failing ?_)
      rintro ⟨other, duty, mark, there, onTheWay⟩
      refine ⟨other, duty, mark, ?_, onTheWay⟩
      rw [Function.update_of_ne, there]
      rintro rfl
      exact notHere duty mark there onTheWay

/-- A thread goes on and changes what its worker holds or what it has on its hands. -/
theorem turn (account : Account begun adopted offered failed state started roll)
    (here : roll id = some (duty, mark)) (sound : after.Sound nowAdopted duty)
    (adopts : nowAdopted = adopted ∨ duty = .request .adopt) (keyed : now.Keyed)
    (distinct : (nowAdopted.map Lease.leaseKey).Nodup)
    (balance : (nowAdopted : Multiset Lease) + state.heldLeases + mark.leases + offered =
      adopted + now.heldLeases + after.leases + nowOffered)
    (remains : state.stopping = true → now.stopping = true)
    (stopped : duty = .request .stopLoops → mark = .idle → now.stopping = true ∨ after = .idle)
    (parting : now.stopping = true → now.held = .empty ∨ after.isOnTheWay ∨
      state.stopping = true ∧ now.held = state.held ∧ ¬mark.isOnTheWay) :
    Account begun nowAdopted nowOffered failed now started (Function.update roll id (some (duty, after))) := by
  refine account.rewrite (account.fresh here) (fun same => ?_) (adopts.imp_right ?_) (fun same => .inl ?_)
    (List.Subset.refl _) keyed distinct ?_ remains (fun fails => fails) (fun mem => ?_) fun isStopping => ?_
  · cases same
    exact sound
  · rintro rfl
    exact ⟨mark, here⟩
  · cases same
    exact ⟨mark, here⟩
  · rw [here]
    exact balance
  · by_cases waits : duty = .request .stopLoops ∧ mark = .idle
    · obtain ⟨rfl, rfl⟩ := waits
      rcases stopped rfl rfl with now | rfl
      · exact .inl ⟨mem, fun _ => now⟩
      · exact .inr rfl
    · refine .inl ⟨mem, fun same => absurd ?_ waits⟩
      rw [here] at same
      cases same
      exact ⟨rfl, rfl⟩
  · rcases parting isStopping with nothing | onTheWay | ⟨already, same, notOnTheWay⟩
    · exact .inl nothing
    · exact .inr (.inr (.inl ⟨duty, after, rfl, onTheWay⟩))
    · refine .inr (.inr (.inr ⟨already, same, fun otherDuty otherMark there => ?_⟩))
      rw [here] at there
      cases there
      exact notOnTheWay

/-- A thread is started at the place; what it has on its hands was counted as offered so far. -/
theorem start (account : Account begun adopted offered failed state started roll) (sound : mark.Sound adopted duty)
    (begins : nowBegun = begun ∧ duty ≠ .request .adopt ∨
      nowBegun = begun ++ [duty] ∧ mark = .idle ∧ (duty = .request .adopt → .request .adopt ∉ begun))
    (balance : (offered : Multiset Lease) = mark.leases + nowOffered) :
    Account nowBegun adopted nowOffered failed state (started + 1)
      (Function.update roll started (some (duty, mark))) := by
  obtain ⟨nobody, account⟩ := account.more
  refine account.rewrite (Nat.lt_succ_self _) (fun same => ?_) (.inl rfl) (fun same => .inr ?_) ?_ account.keyed
    account.distinct ?_ (fun same => same) (fun fails => fails) (fun mem => ?_)
    fun isStopping => .inr (.inr (.inr ⟨isStopping, rfl, ?_⟩))
  · cases same
    exact sound
  · cases same
    rcases begins with ⟨_, notAdoption⟩ | ⟨rfl, _, notBegun⟩
    · exact absurd rfl notAdoption
    · exact ⟨notBegun rfl, by simp⟩
  · rcases begins with ⟨rfl, _⟩ | ⟨rfl, _⟩
    · exact List.Subset.refl _
    · exact List.subset_append_left ..
  · rw [nobody, balance]
    simp only [Roll.onHands, Option.elim_some, Option.elim_none, Multiset.coe_nil]
    abel
  · rcases begins with ⟨rfl, _⟩ | ⟨rfl, rfl, _⟩
    · exact .inl ⟨mem, fun there => by simp [nobody] at there⟩
    · rcases List.mem_append.1 mem with before | new
      · exact .inl ⟨before, fun there => by simp [nobody] at there⟩
      · exact .inr (by rw [List.mem_singleton.1 new])
  · simp [nobody]

/-- A thread ends that has no lease on its hands. -/
theorem finish (account : Account begun adopted offered failed state started roll) (here : roll id = some (duty, mark))
    (empty : mark.leases = []) (notStop : duty = .request .stopLoops → mark ≠ .idle) (remains : failed → nowFailed)
    (fails : mark.isOnTheWay → nowFailed) :
    Account begun adopted offered nowFailed state started (Function.update roll id none) := by
  refine account.rewrite (account.fresh here) (by simp) (.inl rfl) (by simp) (List.Subset.refl _) account.keyed
    account.distinct ?_
    (fun same => same) remains (fun mem => .inl ⟨mem, fun same => ?_⟩) fun isStopping => ?_
  · simp [here, Roll.onHands, empty]
  · rw [here] at same
    cases same
    exact absurd rfl (notStop rfl)
  · by_cases onTheWay : mark.isOnTheWay
    · exact .inr (.inl (fails onTheWay))
    · refine .inr (.inr (.inr ⟨isStopping, rfl, fun otherDuty otherMark there => ?_⟩))
      rw [here] at there
      cases there
      exact onTheWay

end Account

/-! ### What single actions do to the account -/

section

variable {begun : List Duty} {adopted offered : List Lease} {failed : Prop} {state now : Coordinator}
  {started id : Nat} {roll : Roll} {duty : Duty} {mark after : Burden}

/-- What a thread has on its hands was adopted and is not held. -/
theorem Account.not_held (account : Account begun adopted offered failed state started roll)
    (here : roll id = some (duty, mark)) {lease : Lease} (mem : lease ∈ mark.leases) :
    state.held.get? lease.leaseKey = none := by
  refine Option.eq_none_iff_forall_ne_some.2 fun held found => ?_
  have inHeld : lease.leaseKey ∈ ((state.heldLeases : Multiset Lease).map Lease.leaseKey) := by
    refine Multiset.mem_map.2 ⟨held.lease, ?_, account.keyed found⟩
    exact Multiset.mem_coe.2 (List.mem_map.2 ⟨held, SortedMap.mem_values.2 ⟨_, found⟩, rfl⟩)
  have onHands : lease.leaseKey ∈ (roll.leases started).map Lease.leaseKey := by
    refine Multiset.mem_map.2 ⟨lease, Multiset.mem_sum.2 ⟨id, ?_, ?_⟩, rfl⟩
    · exact Finset.mem_range.2 (account.fresh here)
    · simpa [here, Roll.onHands] using mem
  have distinct : ((adopted : Multiset Lease).map Lease.leaseKey).Nodup := by
    simpa using account.distinct
  rw [account.balance, Multiset.map_add, Multiset.map_add, add_assoc, Multiset.nodup_add] at distinct
  exact Multiset.disjoint_left.1 distinct.2.2 inHeld (Multiset.mem_add.2 (.inl onHands))

theorem Account.same (account : Account begun adopted offered failed state started roll)
    (here : roll id = some (duty, mark)) :
    Account begun adopted offered failed state started (Function.update roll id (some (duty, mark))) := by
  rw [Function.update_eq_self_iff.2 here.symm]
  exact account

theorem Interleaving.Answers.updated_leaseKey {s answered : FleetState} {proposal stored : Lease} {expected : Nat}
    {reply : Except StoreError UpdateOutcome} (answers : s.Answers (.store (.update proposal expected)) reply answered)
    (updated : reply = .ok (.updated stored)) : stored.leaseKey = proposal.leaseKey := by
  cases answers with
  | stored call =>
    obtain ⟨_, rfl⟩ := LeaseTable.update_updated.1 (Except.ok.inj updated)
    rfl
  | failed call error => cases updated
  | other notCall => exact absurd rfl (notCall _)

/-- An adoption has tried to acquire a lease. -/
theorem Account.attempt {place : String} {lease proposal : Lease} {left : List Lease} {expected : Nat}
    {reply : Except StoreError UpdateOutcome} (account : Account begun adopted offered failed state started roll)
    (here : roll id = some (duty, .takes (lease :: left))) (sameKey : proposal.leaseKey = lease.leaseKey)
    (keeps : ∀ stored, reply = .ok (.updated stored) → stored.leaseKey = proposal.leaseKey) :
    Account begun
      (adopted ++
        ((Event.called place duty (.update proposal expected) reply : Event Duty Outcome).adopted? place).toList)
      (offered ++
        ((Event.called place duty (.update proposal expected) reply : Event Duty Outcome).offered? place).toList)
      failed state started (Function.update roll id (some (duty, .attempted left reply))) := by
  obtain ⟨rfl, apart⟩ := account.sound here
  have others : (left.map Lease.leaseKey ++ adopted.map Lease.leaseKey).Nodup := (List.nodup_cons.1 apart).2
  have goesOn {after : Burden} (sound : after.Sound adopted (.request .adopt)) (empty : after.leases = [])
      (onTheWay : after.isOnTheWay) :
      Account begun adopted offered failed state started (Function.update roll id (some (.request .adopt, after))) :=
    account.turn here sound (.inl rfl) account.keyed account.distinct (by rw [empty]; rfl) (fun same => same) (by simp)
      fun _ => .inr (.inl onTheWay)
  cases reply with
  | error cause =>
    simp only [Event.adopted?, Event.offered?, Burden.attempted, Option.toList_none, List.append_nil]
    exact goesOn rfl rfl trivial
  | ok outcome =>
    cases outcome with
    | updated stored =>
      have key : stored.leaseKey = lease.leaseKey := (keeps stored rfl).trans sameKey
      have split : (lease.leaseKey :: (left.map Lease.leaseKey ++ adopted.map Lease.leaseKey)).Perm
          (left.map Lease.leaseKey ++ (adopted ++ [stored]).map Lease.leaseKey) := by
        rw [List.map_append, List.map_singleton, key, ← List.append_assoc]
        exact (List.perm_append_singleton ..).symm
      have nodup := split.nodup_iff.1 apart
      simp only [Event.adopted?, Event.offered?, Burden.attempted, if_true, Option.toList_some, Option.toList_none,
        List.append_nil]
      refine account.turn here ⟨rfl, nodup⟩ (.inr rfl) account.keyed nodup.of_append_right ?_ (fun same => same)
        (by simp) fun _ => .inr (.inl trivial)
      simp only [Burden.leases, Multiset.coe_nil, ← Multiset.coe_add]
      abel
    | versionConflict | notFound =>
      simp only [Event.adopted?, Event.offered?, Burden.attempted, Option.toList_none, List.append_nil]
      exact goesOn ⟨rfl, others⟩ rfl trivial

/-- A thread is answered: it may have a listing, have acquired a lease, or have offered one back. -/
theorem Account.ask {s answered : FleetState} {place : String} {query : Query} {reply : query.Reply}
    (account : Account begun adopted offered failed state started roll) (here : roll id = some (duty, mark))
    (answers : s.Answers query reply answered) (once : ListsOnce query reply)
    (asks : mark.Asks duty query reply after) : Account begun (adopted ++ ((Event.ofAnswer place duty query reply).adopted? place).toList)
      (offered ++ ((Event.ofAnswer place duty query reply).offered? place).toList) failed state started
      (Function.update roll id (some (duty, after))) := by
  have sound := account.sound here
  cases query with
  | store call =>
    cases call with
    | list =>
      cases reply with
      | error error =>
        obtain ⟨rfl, rfl⟩ := asks
        simpa [Event.ofAnswer, Event.adopted?, Event.offered?] using account.same here
      | ok leases =>
        obtain ⟨rfl, rfl, rfl⟩ := asks
        have nothing : adopted = [] := sound.elim And.right (by simp)
        subst nothing
        have listed : (Burden.takes leases).Sound [] (.request .adopt) :=
          ⟨rfl, by rw [List.map_nil, List.append_nil]; exact once⟩
        simp only [Event.ofAnswer, Event.adopted?, Event.offered?, Option.toList_none, List.append_nil]
        exact account.turn here listed (.inl rfl) account.keyed account.distinct rfl (fun same => same) (by simp)
          fun _ => .inr (.inl trivial)
    | update proposal expected =>
      rcases asks with ⟨lease, left, rfl, sameKey, rfl⟩ | ⟨held, rfl, rfl, rfl, rfl⟩
      · exact account.attempt here sameKey fun stored updated => answers.updated_leaseKey (updated ▸ rfl)
      · obtain rfl : duty = .background (.coordinator (.release held)) := sound
        have rested : Burden.rests.Sound adopted (.background (.coordinator (.release held))) := rfl
        simp only [Event.ofAnswer, Event.adopted?, Event.offered?, and_self, if_true, Option.toList_none,
          Option.toList_some, List.append_nil]
        refine account.turn here rested (.inl rfl) account.keyed account.distinct ?_ (fun same => same) (by simp) ?_
        · simp only [Burden.leases, Multiset.coe_nil, ← Multiset.coe_add]
          abel
        · exact fun isStopping => .inr (.inr ⟨isStopping, rfl, not_false⟩)
    | create | delete | isEmpty => exact asks.elim
  | _ =>
    obtain rfl : after = mark := asks
    simpa [Event.ofAnswer, Event.adopted?, Event.offered?] using account.same here

/-- A thread changes what its worker holds. -/
theorem Account.change (account : Account begun adopted offered failed state started roll)
    (here : roll id = some (duty, mark)) (steps : mark.Steps duty state now after) :
    Account begun adopted offered failed now started (Function.update roll id (some (duty, after))) := by
  have sound := account.sound here
  cases steps with
  | stay held stopping =>
    have keyed : now.Keyed := fun found => account.keyed (held ▸ found)
    refine account.turn here sound (.inl rfl) keyed account.distinct ?_ (fun same => stopping ▸ same) ?_
      fun isStopping => ?_
    · rw [Coordinator.heldLeases, Coordinator.heldLeases, held]
    · exact fun _ => .inr
    · by_cases onTheWay : mark.isOnTheWay
      · exact .inr (.inl onTheWay)
      · exact .inr (.inr ⟨stopping ▸ isStopping, held, onTheWay⟩)
  | @pick left picked _ _ fewer same =>
    subst same
    have nodup := sound.2.sublist ((fewer.map Lease.leaseKey).append_right _)
    exact account.turn here ⟨sound.1, nodup⟩ (.inl rfl) account.keyed account.distinct rfl (fun same => same)
      (by simp) fun _ => .inr (.inl trivial)
  | @hold stored left _ _ token time changed =>
    subst changed
    have absent := account.not_held here (List.mem_singleton_self stored)
    refine account.turn here ⟨sound.1, sound.2⟩ (.inl rfl) ?_ account.distinct ?_ (fun same => same)
      (by simp) fun _ => .inr (.inl trivial)
    · exact fun found => SortedMap.forall_insert (P := fun leaseKey held => held.lease.leaseKey = leaseKey) rfl
        (fun _ => account.keyed) found
    · have held := (SortedMap.values_insert_perm absent ⟨stored, token, time⟩).map HeldLease.lease
      have same : ((state.hold stored token time).heldLeases : Multiset Lease) = stored ::ₘ state.heldLeases :=
        Multiset.coe_eq_coe.2 held
      rw [same, ← Multiset.singleton_add]
      simp only [Burden.leases, Multiset.coe_nil, Multiset.coe_singleton]
      abel
  | @settle left _ _ running same =>
    subst same
    obtain ⟨rfl, _⟩ := sound
    refine account.turn here rfl (.inl rfl) account.keyed account.distinct rfl (fun same => same) (by simp) ?_
    exact fun isStopping => absurd isStopping (by simp [running])
  | stop asked changed =>
    subst changed
    subst asked
    cases already : state.stopping with
    | true =>
      exact account.turn here rfl (.inl rfl) account.keyed account.distinct rfl (fun _ => rfl) (fun _ _ => .inl rfl)
        fun _ => .inr (.inr ⟨already, rfl, not_false⟩)
    | false =>
      exact account.turn here rfl (.inl rfl) account.keyed account.distinct rfl (fun _ => rfl) (fun _ _ => .inl rfl)
        fun _ => .inr (.inl trivial)
  | clear open_ changed =>
    subst changed
    have nothing : mark.leases = [] := by rcases open_ with rfl | ⟨left, rfl⟩ <;> rfl
    have hands : duty.handsOver = true := sound.handsOver
    refine account.turn here hands (.inl rfl) (fun found => ?_) account.distinct ?_ (fun same => same) ?_
      fun _ => .inl rfl
    · simp [Coordinator.dropAll] at found
    · rw [nothing]
      simp [Burden.leases, Coordinator.heldLeases, Coordinator.dropAll, SortedMap.values, SortedMap.empty]
    · rcases open_ with rfl | ⟨left, rfl⟩ <;> simp

/-- A release is started for one of the leases that are to be handed back. -/
theorem Account.handBack {held : HeldLease} {left : List HeldLease}
    (account : Account begun adopted offered failed state started roll)
    (here : roll id = some (duty, .returns (held :: left))) :
    Account begun adopted offered failed state (started + 1)
      (Function.update (Function.update roll id (some (duty, .returns left))) started
        (some (.background (.coordinator (.release held)), .offers held))) := by
  have hands : duty.handsOver = true := (account.sound here).handsOver
  have turned : Account begun adopted (offered ++ [held.lease]) failed state started
      (Function.update roll id (some (duty, .returns left))) := by
    refine account.turn here hands (.inl rfl) account.keyed account.distinct ?_ (fun same => same) (by simp)
      fun isStopping => .inr (.inr ⟨isStopping, rfl, not_false⟩)
    simp only [Burden.leases, List.map_cons, ← Multiset.cons_coe, ← Multiset.coe_add, ← Multiset.singleton_add,
      Multiset.coe_nil]
    abel
  refine turned.start rfl (.inl ⟨rfl, by simp⟩) ?_
  rw [Burden.leases, add_comm, Multiset.coe_add]

/-- A duty is begun from outside: the only adoption or the stop. -/
theorem Account.begin (account : Account begun adopted offered failed state started roll)
    (calls : (begun ++ [duty]).Subperm [.request .adopt, .request .stopLoops]) :
    Account (begun ++ [duty]) adopted offered failed state (started + 1)
      (Function.update roll started (some (duty, .idle))) := by
  obtain ⟨some, split, sublist⟩ := calls
  have nodup : (begun ++ [duty]).Nodup := split.nodup_iff.1 (sublist.nodup (by simp))
  have notBegun : duty ∉ begun := fun mem => (List.nodup_append.1 nodup).2.2 _ mem _ (List.mem_singleton_self duty) rfl
  have called : duty = .request .adopt ∨ duty = .request .stopLoops := by
    simpa using sublist.subset (split.mem_iff.2 (List.mem_append_right begun (List.mem_singleton_self duty)))
  refine account.start ?_ (.inr ⟨rfl, rfl, fun adopts => adopts ▸ notBegun⟩) (by simp [Burden.leases])
  rcases called with rfl | rfl
  · refine .inl ⟨rfl, ?_⟩
    by_contra some
    exact notBegun (account.adopted_begun some)
  · exact .inr rfl

/-- Who may end has no lease on its hands. -/
theorem Burden.Finishes.leases {result : Outcome} (finishes : mark.Finishes duty result) : mark.leases = [] := by
  cases mark with
  | returns left => rw [show left = [] from finishes]; rfl
  | offers | won => exact finishes.elim
  | _ => rfl

/-- Who ends on the way to hand back ends with the failure of an acquisition. -/
theorem Burden.Finishes.cause {result : Outcome} (finishes : mark.Finishes duty result)
    (sound : mark.Sound adopted duty) (onTheWay : mark.isOnTheWay) :
    ∃ cause, duty = .request .adopt ∧ result = .failed (.store cause) := by
  cases mark with
  | failed cause => exact ⟨cause, sound, finishes⟩
  | takes | won | stops => exact finishes.elim
  | _ => exact onTheWay.elim

end

end LeaseFleet
