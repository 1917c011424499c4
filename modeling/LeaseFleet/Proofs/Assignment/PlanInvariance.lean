import LeaseFleet.Proofs.Assignment.PlannedMoves
import LeaseFleet.Proofs.Assignment.CountPasses

/-!
# What makes no difference to a plan

A plan goes through the leases in key order and through the workers by id, and it looks up what has been
published and what moves. So the order in which a snapshot lists all that makes no difference
(`planRebalance_eq_of_reordered`): whoever has seen the same plans the same.

In count mode a plan reads the keys and the owners of the leases and who is alive, and nothing else. The
snapshot of which that is left, `Observed.unmeasured`, has the same plan as far as throughputs are left
out of it (`planByCount_unmeasured`), and so have any two snapshots of which the same is left
(`planRebalance_matches_of_unmeasured`).
-/

namespace LeaseFleet

/-- Where keys are distinct, what is found under one of them does not depend on the order. -/
theorem find?_eq_of_perm {α : Type} {keyOf : α → String} {list other : List α}
    (distinct : (list.map keyOf).Nodup) (same : list.Perm other) (key : String) :
    other.find? (keyOf · = key) = list.find? (keyOf · = key) := by
  cases found : list.find? (keyOf · = key) with
  | none =>
    rw [List.find?_eq_none] at found ⊢
    exact fun entry mem => found entry (same.mem_iff.2 mem)
  | some entry =>
    have mem := List.mem_of_find?_eq_some found
    have here : keyOf entry = key := by simpa using List.find?_some found
    cases foundOther : other.find? (keyOf · = key) with
    | none =>
      have notHere := List.find?_eq_none.1 foundOther entry (same.mem_iff.1 mem)
      exact absurd here (by simpa using notHere)
    | some entry' =>
      have mem' := same.mem_iff.2 (List.mem_of_find?_eq_some foundOther)
      have here' : keyOf entry' = key := by simpa using List.find?_some foundOther
      rw [List.inj_on_of_nodup_map distinct mem' mem (here'.trans here.symm)]

/-- Leases of distinct keys make up one table, in whatever order they are listed. -/
theorem LeaseTable.ofLeases_eq_of_perm {leases other : List Lease}
    (distinct : (leases.map Lease.leaseKey).Nodup) (same : leases.Perm other) :
    ofLeases other = ofLeases leases := by
  refine SortedMap.ext_get? fun leaseKey => ?_
  rw [get?_ofLeases_eq, get?_ofLeases_eq]
  refine find?_eq_of_perm ?_ ((leases.reverse_perm.trans same).trans other.reverse_perm.symm) leaseKey
  rwa [List.map_reverse, List.nodup_reverse]

/-- What moves is looked up, so that a plan depends on the leases only through their table. -/
theorem planMoves_eq_of_table {S : Type} [Scalar S] {forced : Bool} {threshold : S}
    {loads : List (WorkerLoad S)} {leases other : List Lease}
    {select : WorkerLoad S → WorkerLoad S → S → List Lease → List Lease}
    (same : LeaseTable.ofLeases other = LeaseTable.ofLeases leases) :
    planMoves forced threshold loads other select = planMoves forced threshold loads leases select := by
  unfold planMoves
  rw [same]

namespace Observed

variable {seen other : Observed} {config : AssignmentConfig}

/-! ## The order of a snapshot -/

/-- Two snapshots that have the same leases and the same summaries in whatever orders, and the same live
workers in whatever order and however often. -/
structure Reordered (seen other : Observed) : Prop where
  leases : seen.leases.Perm other.leases
  live : ∀ worker, worker ∈ seen.live ↔ worker ∈ other.live
  summaries : seen.summaries.Perm other.summaries
  now : seen.now = other.now

theorem Reordered.workers_eq (same : seen.Reordered other) : other.workers = seen.workers := by
  refine Observed.workers_eq fun worker => ?_
  rw [mem_workers_iff, mem_workers_iff, same.live, ownedCount, ownedCount, same.leases.countP_eq]

/-- There is only one list in key order of leases that have distinct keys. -/
theorem Reordered.ownedLeases_eq (same : seen.Reordered other)
    (distinct : (seen.leases.map Lease.leaseKey).Nodup) : other.ownedLeases = seen.ownedLeases := by
  have perm : other.ownedLeases.Perm seen.ownedLeases :=
    (List.mergeSort_perm _ _).trans
      ((same.leases.filter _).symm.trans (List.mergeSort_perm _ _).symm)
  have known (lease : Lease) (mem : lease ∈ seen.ownedLeases) : lease ∈ seen.leases :=
    List.mem_of_mem_filter (List.mem_mergeSort.1 mem)
  refine perm.eq_of_pairwise ?_ other.ownedLeases_inOrder seen.ownedLeases_inOrder
  intro left right leftMem rightMem atMost atLeast
  have sameKey : left.leaseKey = right.leaseKey :=
    Std.LawfulEqCmp.eq_of_compare (Std.OrientedCmp.isLE_antisymm atMost atLeast)
  exact List.inj_on_of_nodup_map distinct (known left (perm.subset leftMem)) (known right rightMem) sameKey

theorem Reordered.freshUtilization_eq (same : seen.Reordered other)
    (distinct : (seen.summaries.map WorkerSummary.workerId).Nodup) (window : Nat) (worker : String) :
    other.freshUtilization window worker = seen.freshUtilization window worker := by
  unfold freshUtilization
  rw [find?_eq_of_perm distinct same.summaries worker, same.now]

theorem Reordered.countLoads_eq (same : seen.Reordered other)
    (distinct : (seen.leases.map Lease.leaseKey).Nodup) (S : Type) [Scalar S] :
    other.countLoads S = seen.countLoads S := by
  unfold countLoads countLoad leasesOf fairShare
  rw [same.workers_eq, same.ownedLeases_eq distinct]

theorem Reordered.metricLoads_eq (same : seen.Reordered other)
    (distinct : (seen.leases.map Lease.leaseKey).Nodup)
    (distinctIds : (seen.summaries.map WorkerSummary.workerId).Nodup) :
    other.metricLoads config = seen.metricLoads config := by
  unfold metricLoads metricLoad leasesOf
  simp only [same.workers_eq, same.ownedLeases_eq distinct, same.freshUtilization_eq distinctIds]

end Observed

/-- What has been observed decides the plan, in whatever order it is listed. -/
theorem planRebalance_eq_of_reordered {seen other : Observed} (same : seen.Reordered other)
    (distinct : (seen.leases.map Lease.leaseKey).Nodup)
    (distinctIds : (seen.summaries.map WorkerSummary.workerId).Nodup) (config : AssignmentConfig)
    (pass : Nat) : planRebalance config other pass = planRebalance config seen pass := by
  have table := LeaseTable.ofLeases_eq_of_perm distinct same.leases
  cases mode : config.disableMetrics with
  | true =>
    rw [planRebalance, planRebalance, if_pos mode, if_pos mode, planByCount, planByCount,
      same.countLoads_eq distinct]
    exact planMoves_eq_of_table table
  | false =>
    have metrics : ¬config.disableMetrics = true := by simp [mode]
    rw [planRebalance, planRebalance, if_neg metrics, if_neg metrics, planByMetrics, planByMetrics,
      same.metricLoads_eq distinct distinctIds]
    exact planMoves_eq_of_table table

/-- The snapshot with a pressed worker, listed backwards and with one worker twice. -/
def pressedBackwards : Observed where
  leases := pressed.leases.reverse
  summaries := pressed.summaries.reverse
  live := ["w1", "w0", "w1"]
  now := 0

/-- Whoever lists it backwards plans the same move. -/
theorem planRebalance_eq_of_pressed_backwards :
    (pressed.leases.map Lease.leaseKey).Nodup ∧
      (pressed.summaries.map WorkerSummary.workerId).Nodup ∧
        planRebalance {} pressedBackwards 1 = planRebalance {} pressed 1 ∧
          (planRebalance {} pressedBackwards 1).moves ≠ [] := by
  have reordered : pressed.Reordered pressedBackwards :=
    { leases := (List.reverse_perm _).symm
      live := by simp [pressed, pressedBackwards, or_comm]
      summaries := (List.reverse_perm _).symm
      now := rfl }
  have same := planRebalance_eq_of_reordered reordered (by decide) (by decide) {} 1
  exact ⟨by decide, by decide, same, same ▸ List.ne_nil_of_mem pressed_move⟩

/-! ## Throughputs in count mode -/

/-- A lease of which the throughput is not known. -/
def Lease.unweighed (lease : Lease) : Lease := { lease with throughputKbps := none }

/-- A move of a lease of which the throughput is not known. -/
def LeaseMove.unweighed (move : LeaseMove) : LeaseMove := { move with lease := move.lease.unweighed }

/-- A plan without the throughputs of the leases that move. -/
def RebalancePlan.unweighed {S : Type} (plan : RebalancePlan S) : RebalancePlan S :=
  { plan with moves := plan.moves.map LeaseMove.unweighed }

theorem LeaseTable.get?_ofLeases_unweighed (leases : List Lease) (leaseKey : String) :
    (ofLeases (leases.map Lease.unweighed)).get? leaseKey =
      ((ofLeases leases).get? leaseKey).map Lease.unweighed := by
  rw [get?_ofLeases_eq, get?_ofLeases_eq, Shelf.ofLeases, Shelf.ofLeases, ← List.map_reverse,
    List.find?_map]
  rfl

/-- A rule that does not weigh leases selects the same ones, and a plan by it moves them. -/
theorem planMoves_unweighed {S : Type} [Scalar S] {forced : Bool} {threshold : S}
    {loads : List (WorkerLoad S)} {leases : List Lease}
    {select : WorkerLoad S → WorkerLoad S → S → List Lease → List Lease}
    (blind : ∀ source target gap leases, select source target gap (leases.map Lease.unweighed) =
      (select source target gap leases).map Lease.unweighed) :
    planMoves forced threshold loads (leases.map Lease.unweighed) select =
      (planMoves forced threshold loads leases select).unweighed := by
  have listed (keys : List String) :
      keys.filterMap (LeaseTable.ofLeases (leases.map Lease.unweighed)).get? =
        (keys.filterMap (LeaseTable.ofLeases leases).get?).map Lease.unweighed := by
    rw [List.map_filterMap]
    exact List.filterMap_congr fun leaseKey _ => LeaseTable.get?_ofLeases_unweighed leases leaseKey
  unfold planMoves
  cases chooseSource loads with
  | none => rfl
  | some source =>
    dsimp only
    cases chooseTarget loads source with
    | none => rfl
    | some target =>
      dsimp only [RebalancePlan.unweighed]
      rw [listed, blind]
      split
      · rfl
      · simp only [List.map_map]
        rfl

theorem selectByCount_unweighed {S : Type} [Scalar S] (config : AssignmentConfig)
    (source target : WorkerLoad S) (leases : List Lease) :
    selectByCount config source target (leases.map Lease.unweighed) =
      (selectByCount config source target leases).map Lease.unweighed := by
  unfold selectByCount
  dsimp only
  split
  · rfl
  · rw [List.map_take]

namespace Observed

/-- What is left of a snapshot without measurements: nobody has published anything, and throughputs are
not known. -/
def unmeasured (seen : Observed) : Observed where
  leases := seen.leases.map Lease.unweighed
  summaries := []
  live := seen.live
  now := 0

theorem ownedLeases_unmeasured (seen : Observed) :
    seen.unmeasured.ownedLeases = seen.ownedLeases.map Lease.unweighed := by
  have sorted (leases : List Lease) :
      (leases.map Lease.unweighed).mergeSort
          (fun left right => (compare left.leaseKey right.leaseKey).isLE) =
        (leases.mergeSort fun left right => (compare left.leaseKey right.leaseKey).isLE).map
          Lease.unweighed := by
    refine (List.map_mergeSort ?_).symm
    intro left _ right _
    rfl
  unfold ownedLeases unmeasured
  rw [List.filter_map, sorted]
  rfl

theorem workers_unmeasured (seen : Observed) : seen.unmeasured.workers = seen.workers := by
  unfold workers unmeasured
  rw [List.filterMap_map]
  rfl

/-- The loads in count mode are without measurements what they were with them. -/
theorem countLoads_unmeasured (S : Type) [Scalar S] (seen : Observed) :
    seen.unmeasured.countLoads S = seen.countLoads S := by
  have keys (worker : String) : (seen.unmeasured.leasesOf worker).map Lease.leaseKey =
      (seen.leasesOf worker).map Lease.leaseKey := by
    rw [leasesOf, leasesOf, ownedLeases_unmeasured, List.filter_map, List.map_map]
    rfl
  have share : seen.unmeasured.fairShare = seen.fairShare := by
    rw [fairShare, fairShare, workers_unmeasured, ownedLeases_unmeasured, List.length_map]
  unfold countLoads countLoad
  simp only [keys, share, workers_unmeasured]

end Observed

/-- Without measurements, a plan in count mode is what it was with them. -/
theorem planByCount_unmeasured (S : Type) [Scalar S] (config : AssignmentConfig) (seen : Observed)
    (pass : Nat) :
    planByCount S config seen.unmeasured pass = (planByCount S config seen pass).unweighed := by
  rw [planByCount, Observed.countLoads_unmeasured]
  exact planMoves_unweighed fun source target _ => selectByCount_unweighed config source target

/-- Two plans with the same source, target, gap and urgency, that move the same leases in the same
order, whatever their throughputs are. -/
structure RebalancePlan.Matches {S : Type} (plan other : RebalancePlan S) : Prop where
  source : plan.source = other.source
  target : plan.target = other.target
  gap : plan.gap = other.gap
  forced : plan.forced = other.forced
  moves : plan.moves.map LeaseMove.unweighed = other.moves.map LeaseMove.unweighed
  leaseKeys : (plan.moves.map fun move => move.lease.leaseKey) =
    other.moves.map fun move => move.lease.leaseKey

theorem RebalancePlan.matches_of_unweighed {S : Type} {plan other : RebalancePlan S}
    (same : plan.unweighed = other.unweighed) : plan.Matches other := by
  obtain ⟨moves, source, target, gap, forced⟩ := RebalancePlan.mk.inj same
  refine ⟨source, target, gap, forced, moves, ?_⟩
  have keys := congrArg (List.map fun move : LeaseMove => move.lease.leaseKey) moves
  rwa [List.map_map, List.map_map] at keys

/-- In count mode, plans for two snapshots match if the same workers are alive in both, and if both list
the same leases up to their throughputs. What has been published and when makes no difference, and
neither do the settings for throughputs and for summaries. -/
theorem planRebalance_matches_of_unmeasured {config : AssignmentConfig}
    (byCount : config.disableMetrics = true) {seen other : Observed} (live : other.live = seen.live)
    (leases : other.leases.map Lease.unweighed = seen.leases.map Lease.unweighed)
    (cap : Float) (overshoot : Bool) (window pass : Nat) :
    (planRebalance { config with
      maxThroughputPerHost := cap, allowOvershoot := overshoot, staleThreshold := window }
        other pass).Matches (planRebalance config seen pass) := by
  have left : other.unmeasured = seen.unmeasured := by
    rw [Observed.unmeasured, Observed.unmeasured, live, leases]
  rw [planRebalance, planRebalance, if_pos byCount, if_pos byCount]
  refine RebalancePlan.matches_of_unweighed ?_
  -- the rule by count reads none of these settings
  show (planByCount Float config other pass).unweighed = _
  rw [← planByCount_unmeasured, ← planByCount_unmeasured, left]

/-- The same workers and leases as in the snapshot where one worker owns most of them, and with heavy
leases and a summary. -/
def lopsidedWeighed : Observed :=
  { lopsided with
    leases := lopsided.leases.map fun lease => { lease with throughputKbps := some 900.0 }
    summaries := [processorSummary "w1" 5.0]
    now := 7 }

/-- It has a plan that moves a lease, however little the target may carry. -/
theorem planRebalance_matches_of_lopsided_weighed :
    ({ disableMetrics := true } : AssignmentConfig).disableMetrics = true ∧
      lopsidedWeighed.live = lopsided.live ∧
        lopsidedWeighed.leases.map Lease.unweighed = lopsided.leases.map Lease.unweighed ∧
          "a" ∈ (planRebalance { disableMetrics := true, maxThroughputPerHost := 1.0 } lopsidedWeighed
            1).moves.map fun move => move.lease.leaseKey := by
  have alike : (planRebalance { disableMetrics := true, maxThroughputPerHost := 1.0 } lopsidedWeighed
      1).Matches (planRebalance { disableMetrics := true } lopsided 1) :=
    @planRebalance_matches_of_unmeasured { disableMetrics := true } rfl lopsided lopsidedWeighed rfl rfl
      1.0 true 60000 1
  refine ⟨rfl, rfl, rfl, ?_⟩
  rw [alike.leaseKeys]
  exact List.mem_map.2 ⟨_, lopsided_move, rfl⟩

end LeaseFleet
