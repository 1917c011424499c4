import LeaseFleet.Proofs.Assignment.CountPlans
import LeaseFleet.Proofs.Fleet.AdoptionAndStop
import LeaseFleet.Proofs.Script.AloneAtTable
import LeaseFleet.Proofs.Store.InMemoryMap

/-!
# What a pass in count mode does to the table

Alone with the table, every move of a pass is applied (`executeMoves_ensures`), and the number of
leases of each worker changes by the number of moves (`ownedCount_carryOut`). So the two workers get
closer without changing places, and the squares of the numbers of leases add up to less
(`Observed.Apart.evens`).
-/

namespace LeaseFleet

/-- The lease that a move stores when it is applied. -/
def LeaseMove.stored (move : LeaseMove) : Lease :=
  { move.lease.transferredTo (some move.target) with counter := move.lease.counter + 1 }

theorem LeaseMove.stored_isOwnedBy (move : LeaseMove) (worker : String) :
    move.stored.isOwnedBy worker = decide (worker = move.target) := by
  simp [stored, Lease.isOwnedBy, Lease.transferredTo, eq_comm]

namespace LeaseTable

variable {table : LeaseTable}

/-! ## Carrying out a list of moves -/

/-- The table after moves that were all applied. -/
def carryOut (table : LeaseTable) (moves : List LeaseMove) : LeaseTable :=
  moves.foldl (fun table move => table.put move.stored) table

/-- The moves are of different leases, each of them as it is stored. -/
structure Current (table : LeaseTable) (moves : List LeaseMove) : Prop where
  stored : ∀ move ∈ moves, table.get? move.lease.leaseKey = some move.lease
  distinct : (moves.map fun move => move.lease.leaseKey).Nodup

namespace Current

variable {move : LeaseMove} {moves : List LeaseMove}

/-- A move leaves the leases of the later ones alone. -/
theorem tail (current : table.Current (move :: moves)) : (table.put move.stored).Current moves := by
  have distinct := List.nodup_cons.1 current.distinct
  refine ⟨fun later mem => ?_, distinct.2⟩
  have other : later.lease.leaseKey ≠ move.stored.leaseKey := fun same =>
    distinct.1 (List.mem_map.2 ⟨later, mem, same⟩)
  rw [get?_put, Function.update_of_ne other]
  exact current.stored later (List.mem_cons_of_mem _ mem)

theorem head (current : table.Current (move :: moves)) :
    table.get? move.lease.leaseKey = some move.lease :=
  current.stored move List.mem_cons_self

/-- The first move is applied. -/
theorem perform_head (current : table.Current (move :: moves)) :
    table.perform move.write = (.ok (.updated move.stored), table.put move.stored) := by
  have updated : table.update (move.lease.transferredTo (some move.target)) move.lease.counter =
      (.updated move.stored, table.put move.stored) := update_of_current current.head rfl
  simp only [LeaseMove.write, perform, updated]

end Current

theorem get?_carryOut_of_not_mem {moves : List LeaseMove} {leaseKey : String}
    (untouched : ∀ move ∈ moves, move.lease.leaseKey ≠ leaseKey) :
    (table.carryOut moves).get? leaseKey = table.get? leaseKey := by
  induction moves generalizing table with
  | nil => rfl
  | cons move rest ih =>
    obtain ⟨other, others⟩ := List.forall_mem_cons.1 untouched
    have differs : leaseKey ≠ move.stored.leaseKey := Ne.symm other
    show (carryOut (table.put move.stored) rest).get? leaseKey = _
    rw [ih others, get?_put, Function.update_of_ne differs]

theorem get?_carryOut_of_mem {moves : List LeaseMove} {move : LeaseMove}
    (distinct : (moves.map fun move => move.lease.leaseKey).Nodup) (mem : move ∈ moves) :
    (table.carryOut moves).get? move.lease.leaseKey = some move.stored := by
  induction moves generalizing table with
  | nil => cases mem
  | cons first rest ih =>
    obtain ⟨new, distinct⟩ := List.nodup_cons.1 distinct
    show (carryOut (table.put first.stored) rest).get? move.lease.leaseKey = _
    rcases List.mem_cons.1 mem with rfl | mem
    · rw [get?_carryOut_of_not_mem fun later mem same => new (List.mem_map.2 ⟨later, mem, same⟩),
        get?_put]
      exact Function.update_self ..
    · exact ih distinct mem

theorem Keyed.carryOut (keyed : table.Keyed) (moves : List LeaseMove) :
    (table.carryOut moves).Keyed := by
  induction moves generalizing table with
  | nil => exact keyed
  | cons move rest ih => exact ih (keyed.put move.stored)

/-! ## The numbers of leases -/

/-- A stored lease is listed, beside those that are left when it is gone. -/
theorem leases_perm {leaseKey : String} {lease : Lease} (found : table.get? leaseKey = some lease) :
    table.leases.Perm (lease :: leases (table.erase leaseKey)) := by
  have absent : SortedMap.get? (table.erase leaseKey) leaseKey = none := by simp [get?_erase]
  have restored : SortedMap.insert (table.erase leaseKey) leaseKey lease = table := by
    refine SortedMap.ext_get? fun other => ?_
    by_cases same : other = leaseKey
    · rw [same, SortedMap.get?_insert_self, found]
    · rw [SortedMap.get?_insert_of_ne _ same, get?_erase, Function.update_of_ne same]
  have listed := SortedMap.values_insert_perm absent lease
  rwa [restored] at listed

/-- When a lease is replaced, whoever owned it has one fewer, and whoever owns the new one has one
more. -/
theorem ownedCount_put {old : Lease} (new : Lease) (found : table.get? new.leaseKey = some old)
    (worker : String) :
    ownedCount (table.put new).leases worker + (if old.isOwnedBy worker then 1 else 0) =
      ownedCount table.leases worker + if new.isOwnedBy worker then 1 else 0 := by
  have replaced : (table.put new).get? new.leaseKey = some new := SortedMap.get?_insert_self ..
  have rest : (table.put new).erase new.leaseKey = table.erase new.leaseKey := by
    refine SortedMap.ext_get? fun other => ?_
    rw [get?_erase, get?_erase, get?_put, Function.update_idem]
  rw [ownedCount, ownedCount, (leases_perm found).countP_eq, (leases_perm replaced).countP_eq, rest,
    List.countP_cons, List.countP_cons]
  omega

/-- The target has as many leases more as there are moves, and the source as many fewer. -/
theorem ownedCount_carryOut {moves : List LeaseMove} {source target : String}
    (current : table.Current moves)
    (between : ∀ move ∈ moves, move.lease.isOwnedBy source = true ∧ move.target = target)
    (worker : String) :
    ownedCount (table.carryOut moves).leases worker + (if worker = source then moves.length else 0) =
      ownedCount table.leases worker + if worker = target then moves.length else 0 := by
  induction moves generalizing table with
  | nil => simp [carryOut]
  | cons move rest ih =>
    obtain ⟨⟨owned, aim⟩, others⟩ := List.forall_mem_cons.1 between
    have later := ih current.tail others
    have now := ownedCount_put move.stored current.head worker
    have owner : move.lease.isOwnedBy worker = decide (worker = source) := by
      simp only [Lease.isOwnedBy, decide_eq_true_eq] at owned ⊢
      simp [owned, eq_comm]
    simp only [LeaseMove.stored_isOwnedBy, aim, owner, decide_eq_true_eq] at now
    show ownedCount (carryOut (table.put move.stored) rest).leases worker + _ = _
    rw [List.length_cons]
    split_ifs at later now ⊢ <;> omega

end LeaseTable

/-! ## The pass -/

/-- Alone with the table, all moves of current leases are applied. -/
theorem executeMoves_ensures {σ Job : Type} {around : Surroundings} (reliable : ¬around.mayFail)
    {wanted : List LeaseMove → LeaseTable → Prop} {table : LeaseTable} {moves : List LeaseMove}
    (current : table.Current moves) (carriedOut : wanted moves (table.carryOut moves)) :
    (executeMoves moves : Script σ Job _).Ensures around (fun _ => True) wanted table := by
  induction moves generalizing table wanted with
  | nil => exact ⟨trivial, carriedOut⟩
  | cons move rest ih =>
    refine Script.query_ensures trivial fun reply after answers => ?_
    cases answers with
    | failed may => exact absurd may reliable
    | other notCall => exact absurd rfl (notCall _)
    | stored =>
      rw [current.perform_head]
      exact Script.record_ensures (Script.ensures_bind.2 (ih current.tail ⟨trivial, carriedOut⟩))

/-! ## What has come closer -/

/-- Two sets with the same members are the same set. -/
theorem SortedSet.ext_mem {κ : Type} [Ord κ] [Std.TransOrd κ] [Std.LawfulEqOrd κ]
    {left right : SortedSet κ} (same : ∀ key, key ∈ left.toList ↔ key ∈ right.toList) : left = right := by
  refine SortedMap.ext_get? fun key => ?_
  have both := same key
  simp only [toList, SortedMap.mem_keys, SortedMap.contains, Option.isSome_iff_exists] at both
  cases here : left.get? key with
  | none =>
    cases there : right.get? key with
    | none => rfl
    | some _ => simp [here, there] at both
  | some _ =>
    cases there : right.get? key with
    | none => simp [here, there] at both
    | some _ => rfl

/-- Where two of the members change and the others do not, the sum changes as these two do. -/
theorem sum_map_lt_of_two {α : Type} [DecidableEq α] {members : List α} {before after : α → Nat}
    {first second : α} (distinct : members.Nodup) (firstMem : first ∈ members)
    (secondMem : second ∈ members) (differs : second ≠ first)
    (others : ∀ member, member ≠ first → member ≠ second → after member = before member)
    (less : after first + after second < before first + before second) :
    (members.map after).sum < (members.map before).sum := by
  have pair : members.Perm (first :: second :: (members.erase first).erase second) :=
    (List.perm_cons_erase firstMem).trans ((List.perm_cons_erase
      ((List.mem_erase_of_ne differs).2 secondMem)).cons first)
  have rest : ((members.erase first).erase second).map after =
      ((members.erase first).erase second).map before := by
    refine List.map_congr_left fun member mem => others member ?_ ?_
    · rintro rfl
      exact distinct.not_mem_erase (List.mem_of_mem_erase mem)
    · rintro rfl
      exact (distinct.erase first).not_mem_erase mem
  rw [(pair.map after).sum_eq, (pair.map before).sum_eq]
  simp only [List.map_cons, List.sum_cons, rest]
  omega

/-- Two numbers that come closer without changing places have smaller squares together. -/
theorem sum_sq_lt {high low amount : Nat} (positive : 0 < amount)
    (inOrder : low + amount ≤ high) : high ^ 2 + (low + amount) ^ 2 < (high + amount) ^ 2 + low ^ 2 := by
  nlinarith

/-- Every lease stays as it is, or it was the source's and is the target's now. -/
def LeaseTable.HandsOver (before after : LeaseTable) (source target : String) : Prop :=
  ∀ leaseKey, after.get? leaseKey = before.get? leaseKey ∨
    ∃ lease, before.get? leaseKey = some lease ∧ lease.isOwnedBy source = true ∧
      after.get? leaseKey = some { lease.transferredTo (some target) with counter := lease.counter + 1 }

namespace Observed

variable {seen later : Observed}

/-- The squares of the workers' numbers of leases, added up. -/
def sumOfSquares (seen : Observed) : Nat :=
  (seen.workers.map fun worker => ownedCount seen.leases worker ^ 2).sum

/-- The same workers are listed in the same order. -/
theorem workers_eq (same : ∀ worker, worker ∈ later.workers ↔ worker ∈ seen.workers) :
    later.workers = seen.workers :=
  congrArg SortedSet.toList (SortedSet.ext_mem same)

/-- The workers stay the same where the counts of two of them change, and not to zero. -/
theorem workers_eq_of_others {source target : String} (sameLive : later.live = seen.live)
    (sourceMem : source ∈ seen.workers) (targetMem : target ∈ seen.workers)
    (sourceOwns : 0 < ownedCount later.leases source) (targetOwns : 0 < ownedCount later.leases target)
    (others : ∀ worker, worker ≠ source → worker ≠ target →
      ownedCount later.leases worker = ownedCount seen.leases worker) :
    later.workers = seen.workers := by
  refine workers_eq fun worker => ?_
  by_cases isSource : worker = source
  · subst isSource
    exact ⟨fun _ => sourceMem, fun _ => mem_workers_iff.2 (.inr sourceOwns)⟩
  by_cases isTarget : worker = target
  · subst isTarget
    exact ⟨fun _ => targetMem, fun _ => mem_workers_iff.2 (.inr targetOwns)⟩
  rw [mem_workers_iff, mem_workers_iff, sameLive, others worker isSource isTarget]

/-- A pass has moved leases from a worker with the most to one with the fewest of the others, and the
two are closer than before and in the same order. -/
structure Evens (seen later : Observed) (dampening moved : Nat) (source target : String) : Prop where
  apart : seen.Apart source target
  amount : moved = max 1
    ((ownedCount seen.leases source - ownedCount seen.leases target) * dampening / 200)
  source_count : ownedCount later.leases source + moved = ownedCount seen.leases source
  target_count : ownedCount later.leases target = ownedCount seen.leases target + moved
  others : ∀ worker, worker ≠ source → worker ≠ target →
    ownedCount later.leases worker = ownedCount seen.leases worker
  same_workers : later.workers = seen.workers
  in_order : ownedCount later.leases target ≤ ownedCount later.leases source
  sum_lt : later.sumOfSquares < seen.sumOfSquares

variable {table : LeaseTable} {source target : String}

/-- What a pass moves is as it is stored. -/
theorem current_shift (keyed : table.Keyed) (listed : seen.leases = table.leases) (dampening : Nat)
    (source target : String) : table.Current (seen.shift dampening source target) where
  stored move mem := by
    have known := (mem_shift mem).1
    rw [listed] at known
    exact keyed.lists.mem.1 known
  distinct := nodup_shift (by rw [listed]; exact keyed.lists.keys_nodup) ..

theorem handsOver_shift (keyed : table.Keyed) (listed : seen.leases = table.leases) (dampening : Nat)
    (source target : String) :
    table.HandsOver (table.carryOut (seen.shift dampening source target)) source target := by
  have current := current_shift keyed listed dampening source target
  intro leaseKey
  by_cases touched : ∃ move ∈ seen.shift dampening source target, move.lease.leaseKey = leaseKey
  · obtain ⟨move, mem, rfl⟩ := touched
    obtain ⟨_, owned, _, rfl⟩ := mem_shift mem
    exact .inr ⟨move.lease, current.stored move mem, owned,
      LeaseTable.get?_carryOut_of_mem current.distinct mem⟩
  · exact .inl (LeaseTable.get?_carryOut_of_not_mem fun move mem same => touched ⟨move, mem, same⟩)

/-- The step of a pass that moves something. -/
theorem Apart.evens (apart : seen.Apart source target) {dampening : Nat} (atMost : dampening ≤ 100)
    (keyed : table.Keyed) (listed : seen.leases = table.leases)
    (laterListed : later.leases = (table.carryOut (seen.shift dampening source target)).leases)
    (sameLive : later.live = seen.live) :
    seen.Evens later dampening (seen.shift dampening source target).length source target := by
  have counts := LeaseTable.ownedCount_carryOut (current_shift keyed listed dampening source target)
    fun move mem => (mem_shift mem).2.imp_right And.right
  simp only [← laterListed, ← listed] at counts
  have amount := apart.length_shift atMost
  have half := two_mul_toMove_le atMost (by have far := apart.two_fewer; omega :
    2 ≤ ownedCount seen.leases source - ownedCount seen.leases target)
  rw [← amount] at half
  have positive : 0 < (seen.shift dampening source target).length :=
    List.length_pos_iff.2 (apart.shift_ne_nil dampening)
  generalize (seen.shift dampening source target).length = moved at *
  have sourceCount : ownedCount later.leases source + moved = ownedCount seen.leases source := by
    simpa [apart.differs.symm] using counts source
  have targetCount : ownedCount later.leases target = ownedCount seen.leases target + moved := by
    simpa [apart.differs] using counts target
  have others (worker : String) (notSource : worker ≠ source) (notTarget : worker ≠ target) :
      ownedCount later.leases worker = ownedCount seen.leases worker := by
    simpa [notSource, notTarget] using counts worker
  have inOrder : ownedCount later.leases target ≤ ownedCount later.leases source := by omega
  have sameWorkers : later.workers = seen.workers := workers_eq_of_others sameLive apart.source_mem
    apart.target_mem (by omega) (by omega) others
  refine ⟨apart, amount, sourceCount, targetCount, others, sameWorkers, inOrder, ?_⟩
  rw [sumOfSquares, sumOfSquares, sameWorkers]
  refine sum_map_lt_of_two seen.nodup_workers apart.source_mem apart.target_mem apart.differs
    (fun worker notSource notTarget => by rw [others worker notSource notTarget]) ?_
  rw [targetCount, ← sourceCount]
  exact sum_sq_lt positive (by omega)

end Observed

end LeaseFleet
