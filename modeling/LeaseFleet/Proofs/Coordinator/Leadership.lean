import LeaseFleet.Proofs.Coordinator.LivingOwners
import LeaseFleet.Proofs.Script.Scenes
import LeaseFleet.Proofs.Assignment.CountPasses

/-!
# One leader

Of those who are alive the one with the smallest id leads, and ids are compared byte by byte
(`bytesOf_le`). Workers that find the same leases, observations and summaries at the same time, and are
seen alive in them, find the same workers alive (`Outlook.SharedBy.livingWorkers_eq`): each adds itself,
but it is there already. So they agree on the leader, and a rebalance of the others asks nothing of the
lease store (`one_leader_of_common_outlook`).
-/

namespace LeaseFleet

/-! ## The order of ids -/

/-- The bytes of a text, in UTF-8. -/
def bytesOf (text : String) : List UInt8 := text.toUTF8.data.toList

theorem bytesOf_eq_flatMap (text : String) : bytesOf text = text.toList.flatMap String.utf8EncodeChar := by
  have spelled : text = String.ofList text.toList := String.ofList_toList.symm
  rw [spelled, String.toList_ofList]
  exact List.toList_data_toByteArray

theorem byte_eq_iff {m n : Nat} (byte : m < UInt8.size) (byte' : n < UInt8.size) :
    UInt8.ofNat m = UInt8.ofNat n ↔ m = n := by
  rw [← UInt8.toNat_inj, UInt8.toNat_ofNat_of_lt' byte, UInt8.toNat_ofNat_of_lt' byte']

/-- A smaller character has smaller bytes, whatever follows. -/
theorem utf8EncodeChar_append_lt {c d : Char} (less : c < d) (rest rest' : List UInt8) :
    String.utf8EncodeChar c ++ rest < String.utf8EncodeChar d ++ rest' := by
  have less : c.val.toNat < d.val.toNat := less
  have bound : d.val.toNat < 0x110000 := by
    rcases d.valid with low | high
    · exact Nat.lt_trans low (by decide)
    · exact high.2
  -- bytes are the digits to base 64, so the divisions are brought to that base
  have twice (n : Nat) : n / 4096 = n / 64 / 64 := by omega
  have thrice (n : Nat) : n / 262144 = n / 64 / 64 / 64 := by omega
  simp only [String.utf8EncodeChar, twice, thrice]
  generalize c.val.toNat = v at less
  generalize d.val.toNat = w at less bound
  split_ifs <;>
    simp (disch := unfold UInt8.size; omega) only [List.cons_append, List.nil_append, List.cons_lt_cons_iff,
      UInt8.ofNat_lt_iff_lt, byte_eq_iff] <;>
    omega

/-- The order of texts is that of their bytes. -/
theorem bytesOf_lt {text other : String} (less : text < other) : bytesOf text < bytesOf other := by
  rw [bytesOf_eq_flatMap, bytesOf_eq_flatMap]
  have less : text.toList < other.toList := less
  generalize text.toList = chars at less ⊢
  generalize other.toList = chars' at less ⊢
  induction less with
  | @nil d _ =>
    have size := String.length_utf8EncodeChar d
    have pos := Char.utf8Size_pos d
    rw [List.flatMap_cons, List.flatMap_nil]
    cases bytes : String.utf8EncodeChar d with
    | nil => simp [bytes] at size; omega
    | cons => exact List.nil_lt_cons ..
  | rel less => exact utf8EncodeChar_append_lt less _ _
  | cons _ ih => exact List.append_left_lt ih

theorem bytesOf_le {text other : String} (le : text ≤ other) : bytesOf text ≤ bytesOf other := by
  by_cases same : text = other
  · rw [same]
    exact List.le_refl _
  · exact List.le_of_lt (bytesOf_lt (Std.lt_of_le_of_ne le same))

/-! ## The leader among the living -/

/-- The leader of those who are alive is the first of them. -/
theorem leaderOf_of_mem {live : SortedSet String} {worker least : String}
    (first : live.toList.head? = some least) (mem : worker ∈ live.toList) : leaderOf worker live = least := by
  by_cases same : least = worker
  · obtain ⟨rest, isLive⟩ := List.head?_eq_some_iff.1 first
    unfold leaderOf
    rw [isLive, same]
    exact ite_self _
  · exact leaderOf_of_lt first (Std.lt_of_le_of_ne (SortedSet.le_of_head? first mem) same)

/-! ## A common outlook -/

/-- What workers have in common that work out who is alive: the leases listed, since when their counters
stand, the summaries, and the time on both clocks. Which leases are unexpired and which summaries are
fresh is said of the times that the settings of the fleet give. -/
structure Outlook where
  leases : List Lease
  observed : SortedMap String Observation
  summaries : List WorkerSummary
  instant : Nat
  epoch : Nat
  failoverTime : Nat
  staleThreshold : Nat

namespace Outlook

/-- The counter of the lease has not stood for the failover time. -/
def Unexpired (outlook : Outlook) (lease : Lease) : Prop :=
  ∀ seen ∈ outlook.observed.get? lease.leaseKey, outlook.instant - seen.since < outlook.failoverTime

/-- The summary is not older than the window. -/
def Fresh (outlook : Outlook) (summary : WorkerSummary) : Prop :=
  outlook.epoch - summary.lastUpdate ≤ outlook.staleThreshold

instance (outlook : Outlook) : DecidablePred outlook.Unexpired :=
  fun lease => inferInstanceAs (Decidable (∀ seen ∈ outlook.observed.get? lease.leaseKey, _))

instance (outlook : Outlook) : DecidablePred outlook.Fresh := fun _ => Nat.decLe ..

/-- The worker owns an unexpired lease or has a fresh summary. -/
def Present (outlook : Outlook) (worker : String) : Prop :=
  (∃ lease ∈ outlook.leases, outlook.Unexpired lease ∧ lease.owner = some worker) ∨
    ∃ summary ∈ outlook.summaries, outlook.Fresh summary ∧ summary.workerId = worker

/-- The owners of unexpired leases and those with a fresh summary. -/
def living (outlook : Outlook) : SortedSet String :=
  SortedSet.ofList ((outlook.leases.filter outlook.Unexpired).filterMap Lease.owner ++
    (outlook.summaries.filter outlook.Fresh).map WorkerSummary.workerId)

/-- The state of a worker agrees with the outlook. -/
structure SharedBy (outlook : Outlook) (worker : String) (state : Coordinator) : Prop where
  workerId : state.workerId = worker
  allLeases : state.allLeases = outlook.leases
  observed : state.observed = outlook.observed
  failoverTime : state.settings.failoverTime = outlook.failoverTime
  staleThreshold : state.assignment.staleThreshold = outlook.staleThreshold

/-- The worker finds what it has in common with the others. -/
def Bounds (outlook : Outlook) (worker : String) : Act Coordinator → Prop
  | .changed found _ => outlook.SharedBy worker found
  | .asked .clock reply => reply = outlook.instant
  | .asked .summaries reply => reply = .ok outlook.summaries
  | .asked .epoch reply => reply = outlook.epoch
  | _ => True

variable {outlook : Outlook} {worker leader : String} {state : Coordinator}

@[simp] theorem bounds_changed {found now : Coordinator} :
    outlook.Bounds worker (.changed found now) ↔ outlook.SharedBy worker found := .rfl

@[simp] theorem bounds_clock {reply : Nat} :
    outlook.Bounds worker (.asked .clock reply) ↔ reply = outlook.instant := .rfl

@[simp] theorem bounds_summaries {reply : Except StoreError (List WorkerSummary)} :
    outlook.Bounds worker (.asked .summaries reply) ↔ reply = .ok outlook.summaries := .rfl

@[simp] theorem bounds_epoch {reply : Nat} :
    outlook.Bounds worker (.asked .epoch reply) ↔ reply = outlook.epoch := .rfl

theorem mem_living : worker ∈ outlook.living.toList ↔ outlook.Present worker := by
  simp [living, SortedSet.mem_toList_ofList, Present, and_assoc]

theorem SharedBy.isExpired_iff (shares : outlook.SharedBy worker state) (lease : Lease) :
    state.isExpired lease outlook.instant = false ↔ outlook.Unexpired lease := by
  unfold Coordinator.isExpired Unexpired
  rw [shares.observed, shares.failoverTime]
  cases outlook.observed.get? lease.leaseKey <;> simp

theorem SharedBy.isStale_iff (shares : outlook.SharedBy worker state) (summary : WorkerSummary) :
    summary.isStale outlook.epoch state.assignment.staleThreshold = false ↔ outlook.Fresh summary := by
  simp [WorkerSummary.isStale, Fresh, shares.staleThreshold]

/-- A worker that is seen alive adds nobody when it adds itself. -/
theorem SharedBy.livingWorkers_eq (shares : outlook.SharedBy worker state) (present : outlook.Present worker) :
    state.livingWorkers outlook.leases outlook.instant outlook.summaries outlook.epoch = outlook.living := by
  refine SortedSet.ext_mem fun other => ?_
  rw [Coordinator.mem_livingWorkers, mem_living]
  simp only [shares.isExpired_iff, shares.isStale_iff, shares.workerId]
  constructor
  · rintro (rfl | seen)
    · exact present
    · exact seen
  · exact .inr

/-! ## What a worker makes of it -/

variable {acts : List (Act Coordinator)}

/-- A worker that is seen alive finds the living of the outlook, notes them and asks nothing of the lease
store. -/
theorem of_findLiving {found : SortedSet String} (present : outlook.Present worker)
    (enacts : (Coordinator.findLiving outlook.leases).Enacts Coordinator.perform acts found)
    (within : ∀ act ∈ acts, outlook.Bounds worker act) :
    found = outlook.living ∧ calledIn acts = [] ∧
      ∃ before, acts.getLast? = some (.changed before { before with live := outlook.living }) := by
  obtain ⟨state, _, afterLook, rfl⟩ := Script.Enacts.of_step enacts
  obtain ⟨now, _, afterClock, rfl⟩ := Script.Enacts.of_query afterLook
  obtain ⟨summaries, _, afterSummaries, rfl⟩ := Script.Enacts.of_query afterClock
  obtain ⟨epoch, _, afterEpoch, rfl⟩ := Script.Enacts.of_query afterSummaries
  obtain ⟨before, _, ended, rfl⟩ := Script.Enacts.of_step afterEpoch
  obtain ⟨rfl, rfl⟩ := Script.Enacts.of_done ended
  simp only [List.forall_mem_cons, bounds_changed, bounds_clock, bounds_summaries, bounds_epoch] at within
  obtain ⟨shares, rfl, rfl, rfl, -⟩ := within
  have isLiving := shares.livingWorkers_eq present
  exact ⟨isLiving, by simp, before, by simp [isLiving]⟩

/-- A worker is told whether it leads among the living, and this asks nothing of the lease store. -/
theorem of_leads {live : SortedSet String} {told : Bool}
    (enacts : (Coordinator.leads live).Enacts Coordinator.perform acts told)
    (within : ∀ act ∈ acts, outlook.Bounds worker act) :
    told = isLeaderAmong worker live ∧ calledIn acts = [] := by
  obtain ⟨found, _, afterNote, rfl⟩ := Script.Enacts.of_step enacts
  rw [← (bounds_changed.1 (within _ List.mem_cons_self)).workerId]
  dsimp only at afterNote
  split at afterNote
  · obtain ⟨_, _, ended, rfl⟩ := Script.Enacts.of_query afterNote
    obtain ⟨rfl, rfl⟩ := Script.Enacts.of_done ended
    exact ⟨rfl, by simp⟩
  · obtain ⟨rfl, rfl⟩ := Script.Enacts.of_done afterNote
    exact ⟨rfl, by simp⟩

/-- A rebalance of a worker that does not lead asks nothing of the lease store. -/
theorem of_rebalance {result : Except WorkerError Nat} (present : outlook.Present worker)
    (follows : isLeaderAmong worker outlook.living = false)
    (enacts : Coordinator.rebalance.Enacts Coordinator.perform acts result)
    (within : ∀ act ∈ acts, outlook.Bounds worker act) : result = .ok 0 ∧ calledIn acts = [] := by
  obtain ⟨state, rest, afterLook, rfl⟩ := Script.Enacts.of_step enacts
  obtain ⟨shares, within⟩ := List.forall_mem_cons.1 within
  rw [(bounds_changed.1 shares).allLeases] at afterLook
  obtain ⟨finding, _, live, finds, afterFinding, rfl⟩ := Script.Enacts.of_bind afterLook
  obtain ⟨withinFinding, within⟩ := List.forall_mem_append.1 within
  obtain ⟨rfl, noCalls, -⟩ := of_findLiving present finds withinFinding
  obtain ⟨telling, _, told, tells, afterTelling, rfl⟩ := Script.Enacts.of_bind afterFinding
  obtain ⟨withinTelling, -⟩ := List.forall_mem_append.1 within
  obtain ⟨rfl, noCallsTelling⟩ := of_leads tells withinTelling
  rw [follows] at afterTelling
  obtain ⟨rfl, rfl⟩ := Script.Enacts.of_done afterTelling
  exact ⟨rfl, by simp [noCalls, noCallsTelling]⟩

/-- What a worker makes of the outlook: whom it finds alive and notes, who leads in its eyes, whether it is
told that it leads when it has noted them, and that a rebalance asks nothing of the lease store if it does
not. -/
structure Judges (outlook : Outlook) (worker leader : String) : Prop where
  alive : ∀ {acts found}, (Coordinator.findLiving outlook.leases).Enacts Coordinator.perform acts found →
    (∀ act ∈ acts, outlook.Bounds worker act) →
      found = outlook.living ∧
        ∃ before, acts.getLast? = some (.changed before { before with live := outlook.living })
  follows : leaderOf worker outlook.living = leader
  told : ∀ {acts answer}, Coordinator.isLeader.Enacts Coordinator.perform acts answer →
    (∀ act ∈ acts, outlook.Bounds worker act) →
    (∀ found now, .changed found now ∈ acts → found.live = outlook.living) →
      (answer = true ↔ worker = leader)
  quiet : worker ≠ leader →
    ∀ {acts result}, Coordinator.rebalance.Enacts Coordinator.perform acts result →
      (∀ act ∈ acts, outlook.Bounds worker act) → result = .ok 0 ∧ calledIn acts = []

theorem Present.isLeaderAmong_iff (present : outlook.Present worker)
    (first : outlook.living.toList.head? = some leader) :
    isLeaderAmong worker outlook.living = true ↔ worker = leader := by
  rw [isLeaderAmong, leaderOf_of_mem first (mem_living.2 present), decide_eq_true_eq, eq_comm]

theorem Present.judges (present : outlook.Present worker)
    (first : outlook.living.toList.head? = some leader) : outlook.Judges worker leader where
  alive enacts within := by
    obtain ⟨isLiving, -, noted⟩ := of_findLiving present enacts within
    exact ⟨isLiving, noted⟩
  follows := leaderOf_of_mem first (mem_living.2 present)
  told enacts within noted := by
    obtain ⟨state, _, afterLook, rfl⟩ := Script.Enacts.of_step enacts
    obtain ⟨-, within⟩ := List.forall_mem_cons.1 within
    rw [noted _ _ List.mem_cons_self] at afterLook
    rw [(of_leads afterLook within).1]
    exact present.isLeaderAmong_iff first
  quiet := by
    intro other acts result enacts within
    have follows := Bool.eq_false_iff.2 (mt (present.isLeaderAmong_iff first).1 other)
    exact of_rebalance present follows enacts within

end Outlook

/-- Workers with a common outlook that are alive in it agree on one leader: they find the same workers
alive, those who own an unexpired lease or have a fresh summary, and the leader is the one of them whose
id has the smallest bytes. A worker is told that it leads if it is the leader, so that at most one of them
is, and exactly one if nobody else is alive; a rebalance of any other asks nothing of the lease store. -/
theorem one_leader_of_common_outlook (outlook : Outlook) (team : Set String) (inhabited : team.Nonempty)
    (present : ∀ worker ∈ team, outlook.Present worker) :
    (∀ worker, worker ∈ outlook.living.toList ↔ outlook.Present worker) ∧
      (∃ leader ∈ outlook.living.toList,
        (∀ other ∈ outlook.living.toList, bytesOf leader ≤ bytesOf other) ∧
          ∀ worker ∈ team, outlook.Judges worker leader) ∧
      (∀ worker ∈ team, ∀ other ∈ team, isLeaderAmong worker outlook.living = true →
        isLeaderAmong other outlook.living = true → worker = other) ∧
      ((∀ worker ∈ outlook.living.toList, worker ∈ team) →
        ∃! worker, worker ∈ team ∧ isLeaderAmong worker outlook.living = true) := by
  obtain ⟨somebody, inTeam⟩ := inhabited
  have alive := Outlook.mem_living.2 (present somebody inTeam)
  obtain ⟨leader, first⟩ : ∃ leader, outlook.living.toList.head? = some leader :=
    Option.isSome_iff_exists.1 (List.isSome_head?.2 (List.ne_nil_of_mem alive))
  have leads {worker : String} (mem : worker ∈ team) :
      isLeaderAmong worker outlook.living = true ↔ worker = leader :=
    (present worker mem).isLeaderAmong_iff first
  have mem := List.mem_of_head? first
  refine ⟨fun _ => Outlook.mem_living, ⟨leader, mem, ?_, ?_⟩, ?_, ?_⟩
  · intro other isAlive
    exact bytesOf_le (SortedSet.le_of_head? first isAlive)
  · intro worker inTeam
    exact (present worker inTeam).judges first
  · intro worker inTeam other inTeam' leading leading'
    exact ((leads inTeam).1 leading).trans ((leads inTeam').1 leading').symm
  · intro complete
    refine ⟨leader, ⟨complete leader mem, (leads (complete leader mem)).2 rfl⟩, ?_⟩
    rintro worker ⟨inTeam, leading⟩
    exact (leads inTeam).1 leading

/-- Two workers: the one owns a lease whose counter has just been seen to move, the other one has
published a summary. -/
def Outlook.pair : Outlook where
  leases := [{ Lease.ofShard none "s1" .latest with owner := some "w1" }]
  observed := SortedMap.empty.insert "s1" { counter := 0, since := 900 }
  summaries := [{ workerId := "w2", lastUpdate := 5000 }]
  instant := 1000
  epoch := 6000
  failoverTime := 10000
  staleThreshold := 60000

/-- The second worker. -/
def Outlook.second : Coordinator :=
  { Coordinator.ofSettings "w2" {} {} with allLeases := pair.leases, observed := pair.observed }

open Outlook in
/-- The first worker leads; a rebalance of the second one looks at its state, both clocks and the summaries,
notes who is alive and that it does not lead, and asks nothing of the lease store. -/
theorem one_leader_of_common_outlook_of_two :
    (∃! worker, worker ∈ ({"w1", "w2"} : Set String) ∧ isLeaderAmong worker pair.living = true) ∧
      ∃ acts, Coordinator.rebalance.Enacts Coordinator.perform acts (.ok 0) ∧
        (∀ act ∈ acts, pair.Bounds "w2" act) ∧ calledIn acts = [] := by
  have isLiving : pair.living.toList = ["w1", "w2"] := by decide +kernel
  have present : ∀ worker ∈ ({"w1", "w2"} : Set String), pair.Present worker :=
    fun worker mem => Outlook.mem_living.1 (by simpa [isLiving] using mem)
  obtain ⟨-, ⟨leader, -, -, judges⟩, -, single⟩ :=
    one_leader_of_common_outlook pair {"w1", "w2"} ⟨"w1", .inl rfl⟩ present
  have isLeader : leader = "w1" := (judges "w1" (.inl rfl)).follows.symm.trans (by decide +kernel)
  let found : SortedSet String := second.livingWorkers pair.leases pair.instant pair.summaries pair.epoch
  let acts : List (Act Coordinator) :=
    [.changed second second, .changed second second, .asked .clock pair.instant,
      .asked .summaries (.ok pair.summaries), .asked .epoch pair.epoch,
      .changed second { second with live := found }, .changed second (Coordinator.noteLeading found second)]
  have enacts : Coordinator.rebalance.Enacts Coordinator.perform acts (.ok 0) := by
    refine Script.enacts_step.2 ⟨second, _, rfl, ?_, rfl⟩
    refine Script.enacts_step.2 ⟨second, _, rfl, ?_, rfl⟩
    refine Script.enacts_query.2 ⟨pair.instant, _, ?_, rfl⟩
    refine Script.enacts_query.2 ⟨.ok pair.summaries, _, ?_, rfl⟩
    refine Script.enacts_query.2 ⟨pair.epoch, _, ?_, rfl⟩
    refine Script.enacts_step.2 ⟨second, _, rfl, ?_, rfl⟩
    refine Script.enacts_step.2 ⟨second, _, rfl, ?_, rfl⟩
    have follows : isLeaderAmong second.workerId (second.livingWorkers second.allLeases pair.instant
        pair.summaries pair.epoch) = false := by decide +kernel
    simp only [Script.done_bind, follows]
    exact .done _
  have shares : pair.SharedBy "w2" second := by constructor <;> rfl
  have within : ∀ act ∈ acts, pair.Bounds "w2" act := by simp [acts, shares]
  have quiet := (judges "w2" (.inr rfl)).quiet (by simp [isLeader]) enacts within
  exact ⟨single (by simp [isLiving]), acts, enacts, within, quiet.2⟩

end LeaseFleet
