import LeaseFleet.Coordinator.State

/-!
# What a plan may move

A plan moves leases of the snapshot from one worker to another one. In metrics mode the other one
has a fresh summary (`planByMetrics_target`), and so is alive in the eyes of a worker that has read
the same summaries. In count mode it is alive or still owns leases, and owns at least two fewer than
the source (`planByCount_target`); it may well be dead (`target_may_be_dead`).
-/

namespace LeaseFleet

/-! ## The choice of source and target -/

theorem mem_of_leastBy {α : Type} {order : α → α → Ordering} {members : List α} {least : α}
    (found : leastBy order members = some least) : least ∈ members := by
  cases members with
  | nil => simp [leastBy] at found
  | cons first rest =>
    have among (best : α) : rest.foldl
        (fun best next => if order best next = .gt then next else best) best ∈ best :: rest := by
      clear found
      induction rest generalizing best with
      | nil => simp
      | cons next rest ih =>
        simp only [List.foldl_cons, List.mem_cons]
        split
        · exact .inr (List.mem_cons.1 (ih next))
        · exact (List.mem_cons.1 (ih best)).imp_right .inr
    exact Option.some.inj found ▸ among first

section

variable {S : Type} [Scalar S] {loads : List (WorkerLoad S)} {source target : WorkerLoad S}

theorem chooseSource_mem (found : chooseSource loads = some source) :
    source ∈ loads ∧ 0 < source.leaseCount := by
  simpa using mem_of_leastBy found

/-- A target may receive leases and is another worker than the source. -/
theorem chooseTarget_mem (found : chooseTarget loads source = some target) :
    target ∈ loads ∧ target.eligible = true ∧ target.workerId ≠ source.workerId := by
  simpa using mem_of_leastBy found

/-- The moves of a plan: from the source to the target, where the gap is large enough. -/
theorem mem_planMoves {forced : Bool} {threshold : S} {leases : List Lease}
    {select : WorkerLoad S → WorkerLoad S → S → List Lease → List Lease} {move : LeaseMove} :
    move ∈ (planMoves forced threshold loads leases select).moves ↔
      ∃ source target, chooseSource loads = some source ∧ chooseTarget loads source = some target ∧
        isGapTooSmall threshold (source.utilization - target.utilization) forced = false ∧
          ∃ lease ∈ select source target (source.utilization - target.utilization)
            (source.leaseKeys.filterMap (LeaseTable.ofLeases leases).get?),
            { lease, source := source.workerId, target := target.workerId } = move := by
  unfold planMoves
  cases source? : chooseSource loads with
  | none => simp
  | some source =>
    cases target? : chooseTarget loads source with
    | none => simp [target?]
    | some target =>
      cases small : isGapTooSmall threshold (source.utilization - target.utilization) forced with
      | true => simp [target?, small]
      | false => simp [target?, small]

end

/-! ## The selection of leases -/

/-- By count, something is selected only when the source has at least two leases more. -/
theorem mem_selectByCount {S : Type} [Scalar S] {config : AssignmentConfig}
    {source target : WorkerLoad S} {leases : List Lease} {lease : Lease}
    (selected : lease ∈ selectByCount config source target leases) :
    lease ∈ leases ∧ target.leaseCount + 2 ≤ source.leaseCount := by
  unfold selectByCount at selected
  simp only at selected
  split at selected
  · simp at selected
  · exact ⟨List.mem_of_mem_take selected, by omega⟩

theorem countToMove_pos (S : Type) [Scalar S] (dampening difference : Nat) :
    0 < countToMove S dampening difference :=
  Nat.lt_of_lt_of_le Nat.one_pos (Nat.le_max_left ..)

/-- By count, the first lease is selected whenever the source has at least two leases more. -/
theorem head_mem_selectByCount {S : Type} [Scalar S] {config : AssignmentConfig}
    {source target : WorkerLoad S} {lease : Lease} {rest : List Lease}
    (more : target.leaseCount + 2 ≤ source.leaseCount) :
    lease ∈ selectByCount config source target (lease :: rest) := by
  obtain ⟨count, same⟩ := Nat.exists_eq_succ_of_ne_zero (Nat.ne_of_gt
    (countToMove_pos S config.dampening (source.leaseCount - target.leaseCount)))
  have notFew : ¬source.leaseCount - target.leaseCount < 2 := by omega
  simp [selectByCount, notFew, same]

theorem insertFromEnd_perm (order : Lease → Lease → Ordering) (lease : Lease) (placed : List Lease) :
    (insertFromEnd order lease placed).Perm (lease :: placed) := by
  induction placed with
  | nil => exact .refl _
  | cons last rest ih =>
    unfold insertFromEnd
    split
    · exact (ih.cons last).trans (.swap lease last rest)
    · exact .refl _

/-- Arranging neither loses a lease nor doubles one. -/
theorem arrange_perm (order : Lease → Lease → Ordering) (leases : List Lease) :
    (arrange order leases).Perm leases := by
  have along (rest placed : List Lease) :
      (rest.foldl (fun placed lease => insertFromEnd order lease placed) placed).Perm (rest ++ placed) := by
    induction rest generalizing placed with
    | nil => exact .refl _
    | cons head rest ih =>
      exact (ih _).trans (((insertFromEnd_perm order head placed).append_left rest).trans List.perm_middle)
  exact (List.reverse_perm _).trans (by simpa using along leases [])

/-- What is selected keeps its order. -/
theorem selectGreedily_sublist (limits : MoveLimits) (shift : Shift) (leases : List Lease) :
    (selectGreedily limits shift leases).Sublist leases := by
  induction leases generalizing shift with
  | nil => exact .slnil
  | cons head rest ih =>
    unfold selectGreedily
    split
    · exact List.nil_sublist _
    · split
      · exact (ih _).cons_cons head
      · exact (ih _).cons head

theorem mem_selectByThroughput {config : AssignmentConfig} {mean gap : Float}
    {source target : WorkerLoad Float} {leases : List Lease} {lease : Lease}
    (mem : lease ∈ selectByThroughput config mean source target gap leases) : lease ∈ leases := by
  unfold selectByThroughput at mem
  simp only at mem
  split at mem
  · simp at mem
  · split at mem
    · exact List.mem_of_mem_take mem
    · exact (arrange_perm _ _).mem_iff.1 ((selectGreedily_sublist ..).subset mem)

/-! ## Plans -/

/-- The leases of a list of keys are leases of the snapshot. -/
theorem mem_of_byKey {leases : List Lease} {keys : List String} {lease : Lease}
    (mem : lease ∈ keys.filterMap (LeaseTable.ofLeases leases).get?) : lease ∈ leases := by
  obtain ⟨leaseKey, _, found⟩ := List.mem_filterMap.1 mem
  exact (LeaseTable.get?_ofLeases found).1

/-- Only leases of the snapshot are moved. -/
theorem planRebalance_lease_mem {config : AssignmentConfig} {seen : Observed} {pass : Nat}
    {move : LeaseMove} (mem : move ∈ (planRebalance config seen pass).moves) :
    move.lease ∈ seen.leases := by
  unfold planRebalance at mem
  split at mem
  · obtain ⟨source, target, _, _, _, lease, selected, rfl⟩ := mem_planMoves.1 mem
    exact mem_of_byKey (mem_selectByCount selected).1
  · obtain ⟨source, target, _, _, _, lease, selected, rfl⟩ := mem_planMoves.1 mem
    exact mem_of_byKey (mem_selectByThroughput selected)

namespace Observed

/-- The workers of a pass are alive or own leases of the snapshot. -/
theorem mem_workers {seen : Observed} {worker : String} (mem : worker ∈ seen.workers) :
    worker ∈ seen.live ∨ seen.leasesOf worker ≠ [] := by
  have either := SortedSet.mem_toList_ofList.1 mem
  refine (List.mem_append.1 either).imp_right fun owns => ?_
  obtain ⟨lease, known, owner⟩ := List.mem_filterMap.1 owns
  refine List.ne_nil_of_mem (a := lease) ?_
  simp [leasesOf, ownedLeases, known, owner, Lease.isOwnedBy, Lease.isUnowned]

/-- Leases that are listed in key order need not be sorted. -/
theorem ownedLeases_of_sorted {seen : Observed}
    (sorted : (seen.leases.filter fun lease => !lease.isUnowned).Pairwise
      fun left right => (compare left.leaseKey right.leaseKey).isLE) :
    seen.ownedLeases = seen.leases.filter fun lease => !lease.isUnowned :=
  List.mergeSort_of_pairwise sorted

end Observed

/-- A worker with a fresh summary is alive in the eyes of whoever has read it. -/
theorem Coordinator.livingWorkers_of_fresh {state : Coordinator} {seen : Observed} {worker : String}
    (fresh : (seen.freshUtilization state.assignment.staleThreshold worker).isSome)
    (scanned : List Lease) (clock : Nat) :
    worker ∈ (state.livingWorkers scanned clock seen.summaries seen.now).toList := by
  obtain ⟨percent, fresh⟩ := Option.isSome_iff_exists.1 fresh
  obtain ⟨summary, found, _⟩ := Option.bind_eq_some_iff.1 fresh
  obtain ⟨found, notStale⟩ := Option.filter_eq_some_iff.1 found
  have named : summary.workerId = worker := by simpa using List.find?_some found
  have published := List.mem_of_find?_eq_some found
  refine SortedSet.mem_toList_ofList.2 (List.mem_cons_of_mem _ (List.mem_append_right _ ?_))
  exact List.mem_map.2 ⟨summary, List.mem_filter.2 ⟨published, notStale⟩, named⟩

/-- In metrics mode, a move goes to another worker, which has a fresh summary with a utilization. -/
theorem planByMetrics_target {config : AssignmentConfig} {seen : Observed} {pass : Nat}
    {move : LeaseMove} (mem : move ∈ (planByMetrics config seen pass).moves) :
    move.target ≠ move.source ∧ (move.target ∈ seen.live ∨ seen.leasesOf move.target ≠ []) ∧
      (seen.freshUtilization config.staleThreshold move.target).isSome := by
  obtain ⟨source, target, _, chosen, _, lease, _, rfl⟩ := mem_planMoves.1 mem
  obtain ⟨known, eligible, differs⟩ := chooseTarget_mem chosen
  obtain ⟨worker, among, rfl⟩ := List.mem_map.1 known
  exact ⟨differs, Observed.mem_workers among, eligible⟩

/-- In count mode, a move goes to another worker, which is alive or owns leases, and at least two
fewer than the source. -/
theorem planByCount_target {S : Type} [Scalar S] {config : AssignmentConfig} {seen : Observed}
    {pass : Nat} {move : LeaseMove} (mem : move ∈ (planByCount S config seen pass).moves) :
    move.target ≠ move.source ∧ (move.target ∈ seen.live ∨ seen.leasesOf move.target ≠ []) ∧
      (seen.leasesOf move.target).length + 2 ≤ (seen.leasesOf move.source).length := by
  obtain ⟨source, target, chosenSource, chosen, _, lease, selected, rfl⟩ := mem_planMoves.1 mem
  obtain ⟨known, _, differs⟩ := chooseTarget_mem chosen
  obtain ⟨giver, _, rfl⟩ := List.mem_map.1 (chooseSource_mem chosenSource).1
  obtain ⟨taker, among, rfl⟩ := List.mem_map.1 known
  have fewer := (mem_selectByCount selected).2
  simp only [WorkerLoad.leaseCount, Observed.countLoad, List.length_map] at fewer
  exact ⟨differs, Observed.mem_workers among, fewer⟩

/-- The first lease of the source moves in count mode, if any. -/
theorem first_mem_planByCount {S : Type} [Scalar S] {config : AssignmentConfig} {seen : Observed}
    {pass : Nat} {source target : WorkerLoad S} {lease : Lease} (rest : List Lease)
    (chosen : chooseSource (seen.countLoads S) = some source)
    (chosenTarget : chooseTarget (seen.countLoads S) source = some target)
    (large : isGapTooSmall (Scalar.ofFloat config.rebalanceThreshold)
      (source.utilization - target.utilization) (config.isForcedPass pass) = false)
    (more : target.leaseCount + 2 ≤ source.leaseCount)
    (first : source.leaseKeys.filterMap (LeaseTable.ofLeases seen.leases).get? = lease :: rest) :
    { lease, source := source.workerId, target := target.workerId } ∈
      (planByCount S config seen pass).moves :=
  mem_planMoves.2
    ⟨source, target, chosen, chosenTarget, large, lease, first ▸ head_mem_selectByCount more, rfl⟩

/-- A move goes to another worker, which is alive or owns leases of the snapshot. In metrics mode it
has a fresh summary, and so is alive if the same summaries have decided who is. In count mode it
owns at least two leases fewer than the source. -/
theorem planRebalance_target {config : AssignmentConfig} {seen : Observed} {pass : Nat}
    {move : LeaseMove} (mem : move ∈ (planRebalance config seen pass).moves) :
    move.target ≠ move.source ∧ (move.target ∈ seen.live ∨ seen.leasesOf move.target ≠ []) ∧
      (config.disableMetrics = false →
        (seen.freshUtilization config.staleThreshold move.target).isSome ∧
          ∀ (state : Coordinator) (scanned : List Lease) (clock : Nat), state.assignment = config →
            seen.live = (state.livingWorkers scanned clock seen.summaries seen.now).toList →
              move.target ∈ seen.live) ∧
      (config.disableMetrics = true →
        (seen.leasesOf move.target).length + 2 ≤ (seen.leasesOf move.source).length) := by
  cases mode : config.disableMetrics with
  | true =>
    rw [planRebalance, if_pos mode] at mem
    obtain ⟨differs, known, fewer⟩ := planByCount_target mem
    exact ⟨differs, known, nofun, fun _ => fewer⟩
  | false =>
    rw [planRebalance, if_neg (by simp [mode])] at mem
    obtain ⟨differs, known, fresh⟩ := planByMetrics_target mem
    refine ⟨differs, known, fun _ => ⟨fresh, fun state scanned clock same live => ?_⟩, nofun⟩
    subst same
    exact live ▸ Coordinator.livingWorkers_of_fresh fresh scanned clock

/-- A worker that is alive owns three leases, and one that is not owns one. -/
def lopsided : Observed where
  leases := [{ leaseKey := "a", shardId := "a", owner := some "w1" },
    { leaseKey := "b", shardId := "b", owner := some "w1" },
    { leaseKey := "c", shardId := "c", owner := some "w1" },
    { leaseKey := "d", shardId := "d", owner := some "w0" }]
  summaries := []
  live := ["w1"]
  now := 0

/-- The summary of a worker that watches its processor. -/
def processorSummary (workerId : String) (percent : Float) : WorkerSummary :=
  { workerId, metrics := .ofList [(.cpu, { smoothed := some percent })] }

/-- A worker that is pressed owns two leases, and one that is not owns none. -/
def pressed : Observed where
  leases := [
    { leaseKey := "a", shardId := "a", owner := some "w1", throughputKbps := some 100.0 },
    { leaseKey := "b", shardId := "b", owner := some "w1", throughputKbps := some 100.0 }]
  summaries := [processorSummary "w0" 10.0, processorSummary "w1" 90.0]
  live := ["w0", "w1"]
  now := 0

/-- The one that is not alive receives a lease in count mode. -/
theorem lopsided_move :
    { lease := { leaseKey := "a", shardId := "a", owner := some "w1" }, source := "w1", target := "w0" } ∈
      (planRebalance { disableMetrics := true } lopsided 1).moves := by
  have owned : lopsided.ownedLeases = lopsided.leases :=
    Observed.ownedLeases_of_sorted (by decide +kernel)
  have busy : lopsided.countLoad Float "w1" =
      { workerId := "w1", leaseKeys := ["a", "b", "c"], throughput := 0.0, utilization := 150.0
        eligible := true } := by
    rw [Observed.countLoad, Observed.leasesOf, Observed.fairShare, owned]
    decide +kernel
  have idle : lopsided.countLoad Float "w0" =
      { workerId := "w0", leaseKeys := ["d"], throughput := 0.0, utilization := 50.0
        eligible := true } := by
    rw [Observed.countLoad, Observed.leasesOf, Observed.fairShare, owned]
    decide +kernel
  have loads : lopsided.countLoads Float =
      [lopsided.countLoad Float "w0", lopsided.countLoad Float "w1"] := by
    have workers : lopsided.workers = ["w0", "w1"] := by decide +kernel
    rw [Observed.countLoads, workers]
    rfl
  rw [busy, idle] at loads
  have source : chooseSource (lopsided.countLoads Float) = some (lopsided.countLoad Float "w1") := by
    rw [loads, busy]
    decide +kernel
  have target : chooseTarget (lopsided.countLoads Float) (lopsided.countLoad Float "w1") =
      some (lopsided.countLoad Float "w0") := by
    rw [loads, busy, idle]
    decide +kernel
  refine first_mem_planByCount ((lopsided.leases.take 3).drop 1) source target ?_ ?_ ?_
  · rw [busy, idle]
    decide +kernel
  · rw [busy, idle]
    decide +kernel
  · rw [busy]
    decide +kernel

theorem pressed_loads : pressed.metricLoads {} = [
    { workerId := "w0", leaseKeys := [], throughput := 0.0, utilization := 10.0, eligible := true },
    { workerId := "w1", leaseKeys := ["a", "b"], throughput := 200.0, utilization := 90.0
      eligible := true }] := by
  have owned : pressed.ownedLeases = pressed.leases :=
    Observed.ownedLeases_of_sorted (by decide +kernel)
  have workers : pressed.workers = ["w0", "w1"] := by decide +kernel
  simp only [Observed.metricLoads, workers, List.map_cons, List.map_nil, Observed.metricLoad,
    Observed.leasesOf, owned]
  decide +kernel

/-- One of its leases goes to the one that is not pressed, whether the pass is forced or not. -/
theorem pressed_moves (pass : Nat) : (planRebalance {} pressed pass).moves = [
    { lease := { leaseKey := "a", shardId := "a", owner := some "w1", throughputKbps := some 100.0 }
      source := "w1", target := "w0" }] := by
  rw [planRebalance, if_neg (by decide), planByMetrics, pressed_loads]
  cases AssignmentConfig.isForcedPass {} pass <;> decide +kernel

/-- The one that is not pressed receives a lease in metrics mode. -/
theorem pressed_move : ({
    lease := { leaseKey := "a", shardId := "a", owner := some "w1", throughputKbps := some 100.0 }
    source := "w1", target := "w0" } : LeaseMove) ∈ (planRebalance {} pressed 1).moves :=
  pressed_moves 1 ▸ List.mem_singleton_self _

/-- Both modes move something: in count mode even to a worker that is not alive, which owns fewer
leases, in metrics mode to one with a fresh summary. -/
theorem planRebalance_target_of_lopsided_and_pressed :
    (lopsided.leasesOf "w0").length + 2 ≤ (lopsided.leasesOf "w1").length ∧
      (pressed.freshUtilization 60000 "w0").isSome :=
  ⟨(planRebalance_target lopsided_move).2.2.2 rfl, ((planRebalance_target pressed_move).2.2.1 rfl).1⟩

/-- The target of a move need not be alive. -/
theorem target_may_be_dead :
    ¬∀ (config : AssignmentConfig) (seen : Observed) (pass : Nat),
      (seen.leases.map Lease.leaseKey).Nodup →
        ∀ move ∈ (planRebalance config seen pass).moves, move.target ∈ seen.live := by
  intro alive
  have among := alive { disableMetrics := true } lopsided 1 (by decide +kernel) _ lopsided_move
  exact absurd among (by decide +kernel)

end LeaseFleet
