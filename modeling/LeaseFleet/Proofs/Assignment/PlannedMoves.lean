import LeaseFleet.Proofs.Assignment.CountPlans
import Mathlib.Data.List.Nodup

/-!
# What a pass finds and what it may move

The loads of a pass apportion the owned leases of the snapshot: each of them is listed once, under its
owner, and the owners are among the workers (`apportioned_loads`). What is selected from the leases of
the source are some of these leases, each once, whichever rule selects them and whatever their
throughputs are (`selectByThroughput_subperm`). So a plan hands on leases of the snapshot that the source
owns, none of them twice, to a target that is another worker (`planRebalance_wellFormed`).
-/

namespace LeaseFleet

/-! ## The loads -/

/-- The loads are those of the workers of the pass, each once, and every owned lease is listed under its
owner and nowhere else. -/
structure Observed.Apportioned {S : Type} (seen : Observed) (loads : List (WorkerLoad S)) : Prop where
  workers : ∀ worker, worker ∈ loads.map WorkerLoad.workerId ↔
    worker ∈ seen.live ∨ ∃ lease ∈ seen.leases, lease.owner = some worker
  distinct : (loads.map WorkerLoad.workerId).Nodup
  inOrder : ∀ load ∈ loads, load.leaseKeys.Pairwise fun left right => compare left right = .lt
  owned : ∀ load ∈ loads, ∀ leaseKey, leaseKey ∈ load.leaseKeys ↔
    ∃ lease ∈ seen.leases, lease.leaseKey = leaseKey ∧ lease.owner = some load.workerId
  once : ∀ lease ∈ seen.leases, lease.owner ≠ none →
    ∃! load, load ∈ loads ∧ lease.leaseKey ∈ load.leaseKeys

namespace Observed

variable {seen : Observed} {worker : String}

theorem ownedLeases_inOrder (seen : Observed) : seen.ownedLeases.Pairwise fun left right =>
    (compare left.leaseKey right.leaseKey).isLE = true :=
  List.pairwise_mergeSort (fun _ _ _ => Std.TransCmp.isLE_trans)
    (fun left right => by
      have swapped : compare right.leaseKey left.leaseKey =
          (compare left.leaseKey right.leaseKey).swap := Std.OrientedCmp.eq_swap
      rw [swapped]
      cases compare left.leaseKey right.leaseKey <;> rfl)
    _

/-- The keys of a worker's leases are listed in order, each once. -/
theorem leaseKeys_inOrder (distinct : (seen.leases.map Lease.leaseKey).Nodup) (worker : String) :
    ((seen.leasesOf worker).map Lease.leaseKey).Pairwise fun left right => compare left right = .lt := by
  have sorted := seen.ownedLeases_inOrder
  have nodup : ((seen.leasesOf worker).map Lease.leaseKey).Nodup :=
    ((seen.leasesOf_perm worker).map Lease.leaseKey).nodup_iff.2
      (distinct.sublist (List.filter_sublist.map Lease.leaseKey))
  refine List.pairwise_map.2 (((sorted.filter _).and (List.pairwise_map.1 nodup)).imp ?_)
  rintro left right ⟨atMost, differ⟩
  refine (Ordering.isLE_iff_eq_lt_or_eq_eq.1 atMost).resolve_right fun same => ?_
  exact differ (Std.LawfulEqCmp.eq_of_compare same)

/-- Loads that list each worker's leases apportion the snapshot. -/
theorem apportioned_map {S : Type} (distinct : (seen.leases.map Lease.leaseKey).Nodup)
    {load : String → WorkerLoad S} (named : ∀ worker, (load worker).workerId = worker)
    (lists : ∀ worker, (load worker).leaseKeys = (seen.leasesOf worker).map Lease.leaseKey) :
    seen.Apportioned (seen.workers.map load) := by
  have ids : (seen.workers.map load).map WorkerLoad.workerId = seen.workers := by
    rw [List.map_map]
    exact (List.map_congr_left fun worker _ => named worker).trans (List.map_id _)
  have listed (worker leaseKey : String) : leaseKey ∈ (load worker).leaseKeys ↔
      ∃ lease ∈ seen.leases, lease.leaseKey = leaseKey ∧ lease.owner = some worker := by
    simp [lists, mem_leasesOf, Lease.isOwnedBy, and_assoc, and_comm (a := _ = leaseKey)]
  have known (worker : String) : worker ∈ seen.workers ↔
      worker ∈ seen.live ∨ ∃ lease ∈ seen.leases, lease.owner = some worker := by
    rw [mem_workers_iff, ownedCount_pos, List.mem_filterMap]
  refine ⟨?workers, ?distinct, ?inOrder, ?owned, ?once⟩
  case workers => rwa [ids]
  case distinct => rw [ids]; exact seen.nodup_workers
  case inOrder =>
    rintro _ mem
    obtain ⟨worker, _, rfl⟩ := List.mem_map.1 mem
    rw [lists]
    exact leaseKeys_inOrder distinct worker
  case owned =>
    rintro _ mem leaseKey
    obtain ⟨worker, _, rfl⟩ := List.mem_map.1 mem
    rw [named]
    exact listed worker leaseKey
  case once =>
    intro lease mem hasOwner
    obtain ⟨owner, same⟩ := Option.ne_none_iff_exists'.1 hasOwner
    have among : owner ∈ seen.workers := (known owner).2 (.inr ⟨lease, mem, same⟩)
    refine ⟨load owner, ⟨List.mem_map_of_mem among, (listed ..).2 ⟨lease, mem, rfl, same⟩⟩, ?_⟩
    rintro _ ⟨other, lists⟩
    obtain ⟨worker, _, rfl⟩ := List.mem_map.1 other
    obtain ⟨found, foundMem, sameKey, owned⟩ := (listed worker _).1 lists
    -- of two leases under one key there is only one
    obtain rfl := List.inj_on_of_nodup_map distinct foundMem mem sameKey
    rw [Option.some.inj (owned.symm.trans same)]

/-- In both modes the loads apportion the snapshot. -/
theorem apportioned_loads (config : AssignmentConfig)
    (distinct : (seen.leases.map Lease.leaseKey).Nodup) : seen.Apportioned (seen.loads config) := by
  unfold loads
  split
  · exact apportioned_map distinct (fun _ => rfl) fun _ => rfl
  · exact apportioned_map distinct (fun _ => rfl) fun _ => rfl

end Observed

/-! ## The selection -/

theorem selectByCount_subperm {S : Type} [Scalar S] (config : AssignmentConfig)
    (source target : WorkerLoad S) (leases : List Lease) :
    (selectByCount config source target leases).Subperm leases := by
  unfold selectByCount
  dsimp only
  split
  · exact List.nil_subperm
  · exact (List.take_sublist ..).subperm

theorem selectByThroughput_subperm (config : AssignmentConfig) (mean : Float)
    (source target : WorkerLoad Float) (gap : Float) (leases : List Lease) :
    (selectByThroughput config mean source target gap leases).Subperm leases := by
  unfold selectByThroughput
  dsimp only
  split
  · exact List.nil_subperm
  · split
    · exact (List.take_sublist ..).subperm
    · exact (selectGreedily_sublist ..).subperm.trans (arrange_perm ..).subperm

/-! ## The plan -/

section

variable {S : Type} [Scalar S] (forced : Bool) (threshold : S) (loads : List (WorkerLoad S))
  (leases : List Lease) (select : WorkerLoad S → WorkerLoad S → S → List Lease → List Lease)

/-- A plan has no source and no moves, or it names a source and a target and hands on what is selected
from the leases of the source, if anything. -/
theorem planMoves_cases : (planMoves forced threshold loads leases select).source = none ∧
      (planMoves forced threshold loads leases select).target = none ∧
      (planMoves forced threshold loads leases select).moves = [] ∨
    ∃ source target, chooseSource loads = some source ∧ chooseTarget loads source = some target ∧
      (planMoves forced threshold loads leases select).source = some source.workerId ∧
      (planMoves forced threshold loads leases select).target = some target.workerId ∧
      ∃ selected, (planMoves forced threshold loads leases select).moves = selected.map (fun lease =>
          { lease, source := source.workerId, target := target.workerId }) ∧
        (selected = [] ∨ selected = select source target (source.utilization - target.utilization)
          (source.leaseKeys.filterMap (LeaseTable.ofLeases leases).get?)) := by
  unfold planMoves
  cases source? : chooseSource loads with
  | none => exact .inl ⟨rfl, rfl, rfl⟩
  | some source =>
    cases target? : chooseTarget loads source with
    | none => exact .inl (by simp [target?])
    | some target =>
      refine .inr ⟨source, target, rfl, target?, ?_⟩
      simp only [target?, true_and]
      refine ⟨_, rfl, ?_⟩
      split
      · exact .inl rfl
      · exact .inr rfl

variable {forced threshold loads leases select}

/-- Only a worker that owns a lease is the source, so it makes no difference what would be selected from
one that owns none. -/
theorem planMoves_congr {other : WorkerLoad S → WorkerLoad S → S → List Lease → List Lease}
    (same : ∀ source target gap leases, 1 ≤ source.leaseCount →
      other source target gap leases = select source target gap leases) :
    planMoves forced threshold loads leases other = planMoves forced threshold loads leases select := by
  unfold planMoves
  cases source? : chooseSource loads with
  | none => rfl
  | some source =>
    cases target? : chooseTarget loads source with
    | none => simp [target?]
    | some target => simp only [target?, same source target _ _ (chooseSource_mem source?).2]

end

/-- What holds of every plan for a snapshot: its moves are from its source to its target, which is
another worker, and hand on leases of the snapshot that the source owns, none of them twice. In metrics
mode the first summary of the target counts and has a utilization. -/
structure RebalancePlan.WellFormed (plan : RebalancePlan Float) (config : AssignmentConfig)
    (seen : Observed) : Prop where
  between : ∀ move ∈ plan.moves, plan.source = some move.source ∧ plan.target = some move.target
  owned : ∀ move ∈ plan.moves, move.lease ∈ seen.leases ∧ move.lease.owner = some move.source
  once : (plan.moves.map fun move => move.lease.leaseKey).Nodup
  differ : ∀ worker, plan.source = some worker → plan.target ≠ some worker
  fresh : config.disableMetrics = false → ∀ target, plan.target = some target →
    ∃ summary, seen.summaries.find? (·.workerId = target) = some summary ∧
      summary.isStale seen.now config.staleThreshold = false ∧ summary.utilization.isSome = true

namespace Observed

variable {seen : Observed} {config : AssignmentConfig} {forced : Bool} {threshold : Float}
  {load : String → WorkerLoad Float}
  {select : WorkerLoad Float → WorkerLoad Float → Float → List Lease → List Lease}

/-- A worker that has a utilization has it from its first summary, which is not too old. -/
theorem summary_of_fresh {window : Nat} {worker : String}
    (fresh : (seen.freshUtilization window worker).isSome = true) :
    ∃ summary, seen.summaries.find? (·.workerId = worker) = some summary ∧
      summary.isStale seen.now window = false ∧ summary.utilization.isSome = true := by
  obtain ⟨percent, fresh⟩ := Option.isSome_iff_exists.1 fresh
  obtain ⟨summary, found, measured⟩ := Option.bind_eq_some_iff.1 fresh
  obtain ⟨found, notStale⟩ := Option.filter_eq_some_iff.1 found
  exact ⟨summary, found, by simpa using notStale, by simp [measured]⟩

/-- A plan from loads that list each worker's leases, by a rule that selects some of the leases that it
is given. -/
theorem wellFormed_planMoves (distinct : (seen.leases.map Lease.leaseKey).Nodup)
    (named : ∀ worker, (load worker).workerId = worker)
    (lists : ∀ worker, (load worker).leaseKeys = (seen.leasesOf worker).map Lease.leaseKey)
    (eligible : config.disableMetrics = false → ∀ worker, (load worker).eligible = true →
      (seen.freshUtilization config.staleThreshold worker).isSome = true)
    (some_of : ∀ source target gap leases, (select source target gap leases).Subperm leases) :
    (planMoves forced threshold (seen.workers.map load) seen.leases select).WellFormed config seen := by
  rcases planMoves_cases forced threshold (seen.workers.map load) seen.leases select with
    ⟨noSource, noTarget, idle⟩ | ⟨source, target, chosen, chosenTarget, isSource, isTarget, selected,
      moves, from_⟩
  · refine ⟨?between, ?owned, ?once, ?differ, ?fresh⟩
    case between | owned => simp [idle]
    case once => simp [idle]
    case differ | fresh => simp [noSource, noTarget]
  · obtain ⟨giver, _, rfl⟩ := List.mem_map.1 (chooseSource_mem chosen).1
    obtain ⟨known, mayReceive, differs⟩ := chooseTarget_mem chosenTarget
    obtain ⟨taker, _, rfl⟩ := List.mem_map.1 known
    -- what is selected are some of the leases that the source owns in the snapshot
    have among : selected.Subperm (seen.leases.filter (·.isOwnedBy giver)) := by
      refine .trans ?_ (seen.leasesOf_perm giver).subperm
      rcases from_ with rfl | rfl
      · exact List.nil_subperm
      · rw [lists, filterMap_leaseKeys distinct]
        exact some_of ..
    have apart : (selected.map Lease.leaseKey).Nodup := by
      obtain ⟨part, same, sublist⟩ := among
      exact (same.map Lease.leaseKey).nodup_iff.1
        (distinct.sublist ((sublist.trans List.filter_sublist).map Lease.leaseKey))
    refine ⟨?between, ?owned, ?once, ?differ, ?fresh⟩
    case between =>
      rw [moves, isSource, isTarget]
      simp
    case owned =>
      rw [moves]
      rintro _ mem
      obtain ⟨lease, taken, rfl⟩ := List.mem_map.1 mem
      obtain ⟨observed, owned⟩ := List.mem_filter.1 (among.subset taken)
      exact ⟨observed, by simpa [named, Lease.isOwnedBy] using owned⟩
    case once =>
      rw [moves, List.map_map]
      exact apart
    case differ =>
      rw [isSource, isTarget]
      rintro _ giving receiving
      exact differs (Option.some.inj (receiving.trans giving.symm))
    case fresh =>
      rw [isTarget, named]
      rintro mode _ ⟨⟩
      exact summary_of_fresh (eligible mode taker mayReceive)

end Observed

/-- Every plan is well-formed, whatever the utilizations and throughputs are. In metrics mode leases are
selected only from a source that owns some, so that a number of leases that is at least one and at most
all can be selected, and it makes no difference what would be selected from one that owns none. The loads
apportion the snapshot. -/
theorem planRebalance_wellFormed {config : AssignmentConfig} {seen : Observed}
    (distinct : (seen.leases.map Lease.leaseKey).Nodup) (pass : Nat) :
    (planRebalance config seen pass).WellFormed config seen ∧
      (∀ source, chooseSource (seen.metricLoads config) = some source → 1 ≤ source.leaseCount) ∧
      (config.disableMetrics = false →
        ∀ select : WorkerLoad Float → WorkerLoad Float → Float → List Lease → List Lease,
          (∀ source target gap leases, 1 ≤ source.leaseCount → select source target gap leases =
            selectByThroughput config (meanThroughput (seen.metricLoads config)) source target gap
              leases) →
          planMoves (config.isForcedPass pass) config.rebalanceThreshold (seen.metricLoads config)
            seen.leases select = planRebalance config seen pass) ∧
      seen.Apportioned (seen.loads config) := by
  refine ⟨?_, fun source chosen => (chooseSource_mem chosen).2, ?_,
    Observed.apportioned_loads config distinct⟩
  · cases mode : config.disableMetrics with
    | true =>
      rw [planRebalance, if_pos mode]
      exact Observed.wellFormed_planMoves distinct (fun _ => rfl) (fun _ => rfl) (by simp [mode])
        fun _ _ _ _ => selectByCount_subperm ..
    | false =>
      rw [planRebalance, if_neg (by simp [mode])]
      exact Observed.wellFormed_planMoves distinct (fun _ => rfl) (fun _ => rfl) (fun _ _ fresh => fresh)
        fun _ _ _ _ => selectByThroughput_subperm ..
  · intro mode select same
    rw [planRebalance, if_neg (by simp [mode])]
    exact planMoves_congr same

/-- A move of the worker that is pressed is from the source of its plan to the target. -/
theorem planRebalance_wellFormed_of_pressed :
    (pressed.leases.map Lease.leaseKey).Nodup ∧ (planRebalance {} pressed 1).source = some "w1" ∧
      (planRebalance {} pressed 1).target = some "w0" :=
  ⟨by decide, (planRebalance_wellFormed (by decide) 1).1.between _ pressed_move⟩

end LeaseFleet
