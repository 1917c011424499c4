import LeaseFleet.Proofs.Assignment.PlanTargets
import LeaseFleet.Proofs.Sync.ShardSync
import Mathlib.Algebra.Order.Field.Rat
import Mathlib.Data.Rat.Floor
import Mathlib.Tactic.NormNum
import Mathlib.Tactic.Ring

/-!
# What a pass in count mode decides, in exact arithmetic

Utilization is then ordered as the numbers of leases are (`Observed.utilization_le_iff`), and the
number of leases to move is an integer quotient (`countToMove_rat`). So either the workers are level
and nothing moves, or a worker with the most leases gives some to the one with the fewest of the
others (`planByCount_cases`), unless the threshold forbids it, which it cannot do in a forced pass.
-/

namespace LeaseFleet

/-! ## The choice of the least -/

/-- The chosen member has the least key, if the order is that of the keys as far as it tells two
members apart. -/
theorem leastBy_le {α β : Type} [Preorder β] {order : α → α → Ordering} (key : α → β)
    (later : ∀ left right, order left right = .gt → key right ≤ key left)
    (notLater : ∀ left right, order left right ≠ .gt → key left ≤ key right)
    {members : List α} {least : α} (found : leastBy order members = some least) :
    ∀ member ∈ members, key least ≤ key member := by
  cases members with
  | nil => simp [leastBy] at found
  | cons first rest =>
    -- the best so far is at least as good as the one before it and as all that have been seen
    have along (best : α) : ∀ member ∈ best :: rest, key (rest.foldl
        (fun best next => if order best next = .gt then next else best) best) ≤ key member := by
      clear found
      induction rest generalizing best with
      | nil => simp
      | cons next rest ih =>
        simp only [List.foldl_cons, List.forall_mem_cons]
        split
        · rename_i after
          have atMost := ih next
          rw [List.forall_mem_cons] at atMost
          exact ⟨atMost.1.trans (later _ _ after), atMost⟩
        · rename_i notAfter
          have atMost := ih best
          rw [List.forall_mem_cons] at atMost
          exact ⟨atMost.1, atMost.1.trans (notLater _ _ notAfter), atMost.2⟩
    exact Option.some.inj found ▸ along first

theorem leastBy_eq_none_iff {α : Type} {order : α → α → Ordering} {members : List α} :
    leastBy order members = none ↔ members = [] := by
  cases members <;> simp [leastBy]

/-! ## Exact numbers -/

namespace Scalar

variable {left right : Rat} {tie : Ordering}

theorem below_iff : below left right = true ↔ left < right := decide_eq_true_iff

theorem order_of_lt (less : left < right) : order left right = .lt := by
  simp [order, below_iff, less]

theorem order_of_gt (more : right < left) : order left right = .gt := by
  simp [order, below_iff, more, more.le]

/-- However ties are broken, what comes later is no smaller. -/
theorem le_of_then_eq_gt (later : (order left right).then tie = .gt) : right ≤ left := by
  by_contra less
  simp [order_of_lt (lt_of_not_ge less)] at later

/-- However ties are broken, what does not come later is no larger. -/
theorem le_of_then_ne_gt (notLater : (order left right).then tie ≠ .gt) : left ≤ right := by
  by_contra more
  simp [order_of_gt (lt_of_not_ge more)] at notLater

end Scalar

/-- Half of the difference, dampened, is an integer quotient. -/
theorem countToMove_rat (dampening difference : Nat) :
    countToMove Rat dampening difference = max 1 (difference * dampening / 200) := by
  have quotient : (difference : Rat) / (2 : Nat) * dampening / (100 : Nat) =
      ((difference * dampening : Nat) : Rat) / (200 : Nat) := by
    push_cast
    ring
  have floor : (((difference * dampening : Nat) : Rat) / (200 : Nat)).floor =
      ((difference * dampening / 200 : Nat) : Int) :=
    Rat.floor_natCast_div_natCast _ _
  show max 1 (Rat.floor ((difference : Rat) / (2 : Nat) * dampening / (100 : Nat))).toNat = _
  rw [quotient, floor, Int.toNat_natCast]

/-- Source and target stay in their order, whatever share of half their difference moves. -/
theorem two_mul_toMove_le {dampening difference : Nat} (atMost : dampening ≤ 100)
    (apart : 2 ≤ difference) : 2 * max 1 (difference * dampening / 200) ≤ difference := by
  have part : difference * dampening / 200 ≤ difference / 2 := by
    calc difference * dampening / 200 ≤ difference * 100 / 200 :=
          Nat.div_le_div_right (Nat.mul_le_mul_left _ atMost)
      _ = difference / 2 := Nat.mul_div_mul_right difference 2 (by decide : 0 < 100)
  omega

/-! ## The numbers of leases -/

/-- How many of the leases the worker owns. -/
def ownedCount (leases : List Lease) (worker : String) : Nat :=
  leases.countP (·.isOwnedBy worker)

theorem ownedCount_pos {leases : List Lease} {worker : String} :
    0 < ownedCount leases worker ↔ worker ∈ leases.filterMap Lease.owner := by
  simp [ownedCount, List.countP_pos_iff, Lease.isOwnedBy]

namespace Observed

variable {seen : Observed} {worker : String}

theorem mem_workers_iff :
    worker ∈ seen.workers ↔ worker ∈ seen.live ∨ 0 < ownedCount seen.leases worker := by
  rw [workers, SortedSet.mem_toList_ofList, List.mem_append, ownedCount_pos]

theorem nodup_workers (seen : Observed) : seen.workers.Nodup := SortedMap.nodup_keys _

/-- The leases of a worker are those in the snapshot that it owns, in another order. -/
theorem leasesOf_perm (seen : Observed) (worker : String) :
    (seen.leasesOf worker).Perm (seen.leases.filter (·.isOwnedBy worker)) := by
  have owned : (seen.leases.filter fun lease => !lease.isUnowned).filter (·.isOwnedBy worker) =
      seen.leases.filter (·.isOwnedBy worker) := by
    rw [List.filter_filter]
    refine List.filter_congr fun lease _ => ?_
    by_cases owner : lease.owner = some worker <;>
      simp [Lease.isOwnedBy, Lease.isUnowned, owner]
  exact owned ▸ (List.mergeSort_perm _ _).filter _

@[simp] theorem length_leasesOf : (seen.leasesOf worker).length = ownedCount seen.leases worker := by
  rw [(seen.leasesOf_perm worker).length_eq, ownedCount, List.countP_eq_length_filter]

theorem mem_leasesOf {lease : Lease} :
    lease ∈ seen.leasesOf worker ↔ lease ∈ seen.leases ∧ lease.isOwnedBy worker = true := by
  rw [(seen.leasesOf_perm worker).mem_iff, List.mem_filter]

/-- With distinct keys, the leases of a worker are found under their keys. -/
theorem filterMap_leaseKeys (distinct : (seen.leases.map Lease.leaseKey).Nodup) :
    ((seen.leasesOf worker).map Lease.leaseKey).filterMap (LeaseTable.ofLeases seen.leases).get? =
      seen.leasesOf worker := by
  rw [List.filterMap_map]
  refine (List.filterMap_congr fun lease owned => ?_).trans List.filterMap_some
  have entries : LeaseTable.ofLeases seen.leases =
      SortedMap.ofList (seen.leases.map fun lease => (lease.leaseKey, lease)) := by
    rw [LeaseTable.ofLeases, SortedMap.ofList, List.foldl_map]
    rfl
  have distinctKeys : ((seen.leases.map fun lease => (lease.leaseKey, lease)).map (·.1)).Nodup := by
    rwa [List.map_map]
  rw [Function.comp_apply, entries, SortedMap.get?_ofList distinctKeys]
  exact List.mem_map_of_mem (mem_leasesOf.1 owned).1

@[simp] theorem leaseCount_countLoad {S : Type} [Scalar S] :
    (seen.countLoad S worker).leaseCount = ownedCount seen.leases worker := by
  simp [countLoad, WorkerLoad.leaseCount]

theorem utilization_countLoad : (seen.countLoad Rat worker).utilization =
    (ownedCount seen.leases worker : Rat) / seen.fairShare * 100 := by
  rw [← length_leasesOf, ← List.length_map (f := Lease.leaseKey)]
  rfl

theorem fairShare_pos (seen : Observed) : 0 < seen.fairShare :=
  Nat.lt_of_lt_of_le Nat.one_pos (Nat.le_max_right ..)

/-- Utilization is ordered as the numbers of leases are. -/
theorem utilization_le_iff {left right : String} :
    (seen.countLoad Rat left).utilization ≤ (seen.countLoad Rat right).utilization ↔
      ownedCount seen.leases left ≤ ownedCount seen.leases right := by
  have positive : (0 : Rat) < seen.fairShare := by exact_mod_cast seen.fairShare_pos
  rw [utilization_countLoad, utilization_countLoad, mul_le_mul_iff_of_pos_right (by norm_num),
    div_le_div_iff_of_pos_right positive, Nat.cast_le]

/-- The numbers of leases of any two workers differ by at most one. -/
def IsLevel (seen : Observed) : Prop :=
  ∀ left ∈ seen.workers, ∀ right ∈ seen.workers,
    ownedCount seen.leases left ≤ ownedCount seen.leases right + 1

/-- The first worker owns as many leases as any, the second one as few as any other, and at least
two fewer. -/
structure Apart (seen : Observed) (source target : String) : Prop where
  source_mem : source ∈ seen.workers
  target_mem : target ∈ seen.workers
  differs : target ≠ source
  most : ∀ worker ∈ seen.workers, ownedCount seen.leases worker ≤ ownedCount seen.leases source
  fewest : ∀ worker ∈ seen.workers, worker ≠ source →
    ownedCount seen.leases target ≤ ownedCount seen.leases worker
  two_fewer : ownedCount seen.leases target + 2 ≤ ownedCount seen.leases source

theorem Apart.not_isLevel {source target : String} (apart : seen.Apart source target) :
    ¬seen.IsLevel := fun level => by
  have close := level source apart.source_mem target apart.target_mem
  have far := apart.two_fewer
  omega

/-- The first leases of the source, on their way to the target: the dampened half of the difference,
at least one. -/
def shift (seen : Observed) (dampening : Nat) (source target : String) : List LeaseMove :=
  let difference := ownedCount seen.leases source - ownedCount seen.leases target
  ((seen.leasesOf source).take (max 1 (difference * dampening / 200))).map fun lease =>
    { lease, source, target }

theorem mem_shift {dampening : Nat} {source target : String} {move : LeaseMove}
    (mem : move ∈ seen.shift dampening source target) :
    move.lease ∈ seen.leases ∧ move.lease.isOwnedBy source = true ∧ move.source = source ∧
      move.target = target := by
  obtain ⟨lease, taken, rfl⟩ := List.mem_map.1 mem
  obtain ⟨known, owned⟩ := mem_leasesOf.1 (List.mem_of_mem_take taken)
  exact ⟨known, owned, rfl, rfl⟩

/-- The moves of a shift are of different leases. -/
theorem nodup_shift (distinct : (seen.leases.map Lease.leaseKey).Nodup) (dampening : Nat)
    (source target : String) :
    ((seen.shift dampening source target).map fun move => move.lease.leaseKey).Nodup := by
  have owned : ((seen.leasesOf source).map Lease.leaseKey).Nodup :=
    ((seen.leasesOf_perm source).map Lease.leaseKey).nodup_iff.2
      (distinct.sublist (List.filter_sublist.map Lease.leaseKey))
  rw [shift, List.map_map]
  exact owned.sublist ((List.take_sublist ..).map Lease.leaseKey)

theorem Apart.length_shift {source target : String} (apart : seen.Apart source target)
    {dampening : Nat} (atMost : dampening ≤ 100) :
    (seen.shift dampening source target).length = max 1
      ((ownedCount seen.leases source - ownedCount seen.leases target) * dampening / 200) := by
  have far := apart.two_fewer
  have half := two_mul_toMove_le atMost (by omega :
    2 ≤ ownedCount seen.leases source - ownedCount seen.leases target)
  rw [shift, List.length_map, List.length_take, length_leasesOf]
  omega

theorem Apart.shift_ne_nil {source target : String} (apart : seen.Apart source target)
    (dampening : Nat) : seen.shift dampening source target ≠ [] := by
  have far := apart.two_fewer
  rw [← List.length_pos_iff, shift, List.length_map, List.length_take, length_leasesOf]
  omega

/-! ## The plan -/

/-- The source owns leases, and no worker owns more. -/
theorem chooseSource_countLoads {load : WorkerLoad Rat}
    (chosen : chooseSource (seen.countLoads Rat) = some load) :
    ∃ source ∈ seen.workers, load = seen.countLoad Rat source ∧
      ∀ worker ∈ seen.workers, ownedCount seen.leases worker ≤ ownedCount seen.leases source := by
  obtain ⟨known, owns⟩ := chooseSource_mem chosen
  obtain ⟨source, among, rfl⟩ := List.mem_map.1 known
  refine ⟨source, among, rfl, fun worker mem => ?_⟩
  rcases Nat.eq_zero_or_pos (ownedCount seen.leases worker) with none | some
  · omega
  · have busiest := leastBy_le (fun load : WorkerLoad Rat => -load.utilization)
      (fun _ _ later => neg_le_neg (Scalar.le_of_then_eq_gt later))
      (fun _ _ notLater => neg_le_neg (Scalar.le_of_then_ne_gt notLater)) chosen
    exact utilization_le_iff.1 (neg_le_neg_iff.1 (busiest (seen.countLoad Rat worker)
      (List.mem_filter.2 ⟨List.mem_map_of_mem mem, by simpa using some⟩)))

/-- The target is another worker, and none of the others owns fewer leases. -/
theorem chooseTarget_countLoads {source : String} {load : WorkerLoad Rat}
    (chosen : chooseTarget (seen.countLoads Rat) (seen.countLoad Rat source) = some load) :
    ∃ target ∈ seen.workers, load = seen.countLoad Rat target ∧ target ≠ source ∧
      ∀ worker ∈ seen.workers, worker ≠ source →
        ownedCount seen.leases target ≤ ownedCount seen.leases worker := by
  obtain ⟨known, _, differs⟩ := chooseTarget_mem chosen
  obtain ⟨target, among, rfl⟩ := List.mem_map.1 known
  refine ⟨target, among, rfl, differs, fun worker mem other => ?_⟩
  have idlest := leastBy_le WorkerLoad.utilization
    (fun _ _ => Scalar.le_of_then_eq_gt) (fun _ _ => Scalar.le_of_then_ne_gt) chosen
  refine utilization_le_iff.1 (idlest (seen.countLoad Rat worker) (List.mem_filter.2
    ⟨List.mem_map_of_mem mem, ?_⟩))
  simpa [countLoad] using other

/-- Without a source, no worker owns anything. -/
theorem isLevel_of_no_source (none : chooseSource (seen.countLoads Rat) = none) : seen.IsLevel := by
  intro left mem right _
  have idle := List.filter_eq_nil_iff.1 (leastBy_eq_none_iff.1 none) (seen.countLoad Rat left)
    (List.mem_map_of_mem mem)
  simp only [leaseCount_countLoad, decide_eq_true_eq, Nat.not_lt] at idle
  omega

/-- Without a target, there is only one worker. -/
theorem isLevel_of_no_target {source : String}
    (none : chooseTarget (seen.countLoads Rat) (seen.countLoad Rat source) = none) :
    seen.IsLevel := by
  have only (worker : String) (mem : worker ∈ seen.workers) : worker = source := by
    simpa [countLoad] using List.filter_eq_nil_iff.1 (leastBy_eq_none_iff.1 none)
      (seen.countLoad Rat worker) (List.mem_map_of_mem mem)
  intro left leftMem right rightMem
  rw [only left leftMem, only right rightMem]
  omega

/-- Where no worker owns more than the source and none of the others fewer than the target, the
workers are level as soon as these two are. -/
theorem isLevel_of_close {source target : String}
    (most : ∀ worker ∈ seen.workers, ownedCount seen.leases worker ≤ ownedCount seen.leases source)
    (fewest : ∀ worker ∈ seen.workers, worker ≠ source →
      ownedCount seen.leases target ≤ ownedCount seen.leases worker)
    (close : ownedCount seen.leases source < ownedCount seen.leases target + 2) : seen.IsLevel := by
  intro left leftMem right rightMem
  have atMost := most left leftMem
  by_cases here : right = source
  · subst here
    omega
  · have atLeast := fewest right rightMem here
    omega

/-- The moves from the source to the target. -/
theorem moves_planByCount {config : AssignmentConfig} {pass : Nat} {source target : String}
    (distinct : (seen.leases.map Lease.leaseKey).Nodup)
    (source? : chooseSource (seen.countLoads Rat) = some (seen.countLoad Rat source))
    (target? : chooseTarget (seen.countLoads Rat) (seen.countLoad Rat source) =
      some (seen.countLoad Rat target)) :
    (planByCount Rat config seen pass).moves =
      if isGapTooSmall (Scalar.ofFloat config.rebalanceThreshold)
          ((seen.countLoad Rat source).utilization - (seen.countLoad Rat target).utilization)
          (config.isForcedPass pass) = true ∨
        ownedCount seen.leases source < ownedCount seen.leases target + 2 then []
      else seen.shift config.dampening source target := by
  have byKey : (seen.countLoad Rat source).leaseKeys.filterMap (LeaseTable.ofLeases seen.leases).get? =
      seen.leasesOf source := filterMap_leaseKeys distinct
  have few : ownedCount seen.leases source - ownedCount seen.leases target < 2 ↔
      ownedCount seen.leases source < ownedCount seen.leases target + 2 := by omega
  simp only [planByCount, planMoves, source?, target?, byKey, selectByCount, leaseCount_countLoad,
    countToMove_rat, few]
  by_cases small : isGapTooSmall (Scalar.ofFloat config.rebalanceThreshold)
      ((seen.countLoad Rat source).utilization - (seen.countLoad Rat target).utilization)
      (config.isForcedPass pass) = true
  · simp [small]
  · by_cases close : ownedCount seen.leases source < ownedCount seen.leases target + 2
    · simp [close]
    · simp only [small, close, if_false]
      rfl

/-- Between workers with different numbers of leases, only the threshold makes a gap too small. -/
theorem isGapTooSmall_forced {threshold : Rat} {forced : Bool} {source target : String}
    (more : ownedCount seen.leases target < ownedCount seen.leases source)
    (small : isGapTooSmall threshold ((seen.countLoad Rat source).utilization -
      (seen.countLoad Rat target).utilization) forced = true) : forced = false := by
  have positive : ¬(seen.countLoad Rat source).utilization -
      (seen.countLoad Rat target).utilization ≤ 0 := by
    rw [sub_nonpos, utilization_le_iff]
    omega
  have atMostZero : Scalar.atMost ((seen.countLoad Rat source).utilization -
      (seen.countLoad Rat target).utilization) (Scalar.ofNat 0) = false := decide_eq_false positive
  simp only [isGapTooSmall, atMostZero, Bool.false_or, Bool.and_eq_true, Bool.not_eq_true'] at small
  exact small.2

end Observed

/-- A pass in count mode finds the workers level and moves nothing, or it finds two apart and moves
leases from the one to the other; only below the threshold, and only in a pass that is not forced,
it moves nothing then. -/
theorem planByCount_cases (config : AssignmentConfig) {seen : Observed} (pass : Nat)
    (distinct : (seen.leases.map Lease.leaseKey).Nodup) :
    seen.IsLevel ∧ (planByCount Rat config seen pass).moves = [] ∨
      ∃ source target, seen.Apart source target ∧
        ((planByCount Rat config seen pass).moves = seen.shift config.dampening source target ∨
          (planByCount Rat config seen pass).moves = [] ∧ config.isForcedPass pass = false) := by
  cases source? : chooseSource (seen.countLoads Rat) with
  | none =>
    exact .inl ⟨Observed.isLevel_of_no_source source?, by simp [planByCount, planMoves, source?]⟩
  | some load =>
    obtain ⟨source, sourceMem, rfl, most⟩ := Observed.chooseSource_countLoads source?
    cases target? : chooseTarget (seen.countLoads Rat) (seen.countLoad Rat source) with
    | none =>
      exact .inl ⟨Observed.isLevel_of_no_target target?,
        by simp [planByCount, planMoves, source?, target?]⟩
    | some load =>
      obtain ⟨target, targetMem, rfl, differs, fewest⟩ := Observed.chooseTarget_countLoads target?
      rw [Observed.moves_planByCount distinct source? target?]
      by_cases close : ownedCount seen.leases source < ownedCount seen.leases target + 2
      · exact .inl ⟨Observed.isLevel_of_close most fewest close, if_pos (.inr close)⟩
      · refine .inr ⟨source, target, ⟨sourceMem, targetMem, differs, most, fewest, by omega⟩, ?_⟩
        split
        · rename_i small
          exact .inr ⟨rfl, Observed.isGapTooSmall_forced (by omega) (small.resolve_right close)⟩
        · exact .inl rfl

/-- A forced pass in count mode moves nothing exactly when the workers are level. -/
theorem planByCount_forced {config : AssignmentConfig} {seen : Observed} {pass : Nat}
    (distinct : (seen.leases.map Lease.leaseKey).Nodup) (forced : config.isForcedPass pass = true) :
    (planByCount Rat config seen pass).moves = [] ↔ seen.IsLevel := by
  obtain ⟨level, none⟩ | ⟨source, target, apart, moves⟩ := planByCount_cases config pass distinct
  · exact ⟨fun _ => level, fun _ => none⟩
  · rw [moves.resolve_right (by simp [forced])]
    exact ⟨fun none => absurd none (apart.shift_ne_nil _), fun level => absurd level apart.not_isLevel⟩

end LeaseFleet
