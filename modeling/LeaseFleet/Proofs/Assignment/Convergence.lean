import LeaseFleet.Proofs.Assignment.CountPasses

/-!
# Passes in count mode come to rest

A run of passes over one table that nobody else writes to (`BalancingRun`), with the arithmetic of
the plans read exactly. Every pass that moves leases brings two workers closer together, so that the
sum of the squares of the numbers of leases falls; a pass that moves none leaves the table alone.
Hence only finitely many passes move anything (`BalancingRun.finite_moved`), and since a forced pass is
idle only when the workers are level, they are level in the end (`BalancingRun.eventually_level`).
-/

namespace LeaseFleet

/-- Only a share of half the difference is allowed for. -/
theorem AssignmentConfig.dampening_le {config : AssignmentConfig} (valid : config.problem? = none) :
    config.dampening ≤ 100 := by
  by_contra more
  rw [Nat.not_le] at more
  simp only [problem?, more, if_true] at valid
  split at valid <;> cases valid

namespace AssignmentEngine

variable {σ Job : Type}

/-- Carries out the moves of the current pass. -/
def carryOut (engine : AssignmentEngine) (moves : List LeaseMove) :
    Script σ Job (Nat × AssignmentEngine) := do
  if moves.isEmpty then return (0, engine)
  let applied ← executeMoves moves
  Script.record (.sample .rebalancePass)
  return (applied.length, engine.remember applied)

/-- The moves that the next pass plans in count mode, with the given numbers. -/
def countedMoves (S : Type) [Scalar S] (engine : AssignmentEngine) (seen : Observed) :
    List LeaseMove :=
  (planByCount S engine.config seen engine.nextPass.passes).moves

/-- The next pass in count mode, its arithmetic done with the given numbers. -/
def countPass (S : Type) [Scalar S] (engine : AssignmentEngine) (seen : Observed) :
    Script σ Job (Nat × AssignmentEngine) :=
  engine.nextPass.carryOut (engine.countedMoves S seen)

/-- With metrics disabled, a pass reports the gap and then is a pass in count mode, in double
precision. -/
theorem runPass_eq_countPass {engine : AssignmentEngine}
    (disabled : engine.config.disableMetrics = true) (seen : Observed) :
    ∃ gap, (engine.runPass seen : Script σ Job _) =
      (Script.gauge .utilizationGap gap).bind fun _ => engine.countPass Float seen := by
  have planned : engine.nextPass.currentPlan seen =
      planByCount Float engine.config seen engine.nextPass.passes := by
    rw [currentPlan, planRebalance]
    exact if_pos disabled
  refine ⟨(engine.nextPass.currentPlan seen).gap, ?_⟩
  rw [countPass, countedMoves, ← planned]
  rfl

/-- What a pass plans is as it is stored. -/
theorem current_countedMoves {table : LeaseTable} {seen : Observed} (keyed : table.Keyed)
    (listed : seen.leases = table.leases) (engine : AssignmentEngine) :
    table.Current (engine.countedMoves Rat seen) := by
  have distinct : (seen.leases.map Lease.leaseKey).Nodup := listed ▸ keyed.lists.keys_nodup
  have idle : table.Current [] := ⟨by simp, by simp⟩
  obtain ⟨_, none⟩ | ⟨source, target, _, some | ⟨none, _⟩⟩ :=
    planByCount_cases engine.config engine.nextPass.passes distinct
  · rwa [countedMoves, none]
  · rw [countedMoves, some]
    exact Observed.current_shift keyed listed ..
  · rwa [countedMoves, none]

/-- Alone with the table, a pass applies all the moves that it has planned. -/
theorem countPass_ensures {around : Surroundings} (reliable : ¬around.mayFail) {table : LeaseTable}
    {seen : Observed} (keyed : table.Keyed) (listed : seen.leases = table.leases)
    (engine : AssignmentEngine) :
    (engine.countPass Rat seen : Script σ Job _).Ensures around (fun _ => True)
      (fun result after =>
        result = ((engine.countedMoves Rat seen).length,
          engine.nextPass.remember (engine.countedMoves Rat seen)) ∧
        after = table.carryOut (engine.countedMoves Rat seen)) table := by
  have current := engine.current_countedMoves keyed listed
  rw [countPass, carryOut]
  cases moves : engine.countedMoves Rat seen with
  | nil => exact ⟨trivial, rfl, rfl⟩
  | cons move rest =>
    rw [moves] at current
    exact Script.ensures_bind.2 (executeMoves_ensures reliable current
      (Script.record_ensures ⟨trivial, rfl, rfl⟩))

/-- A pass can get to its end. -/
theorem countPass_ends {around : Surroundings} (reliable : ¬around.mayFail) {table : LeaseTable}
    {seen : Observed} (keyed : table.Keyed) (listed : seen.leases = table.leases)
    (engine : AssignmentEngine) :
    (engine.countPass Rat seen : Script σ Job _).Ends around table
      ((engine.countedMoves Rat seen).length,
        engine.nextPass.remember (engine.countedMoves Rat seen))
      (table.carryOut (engine.countedMoves Rat seen)) := by
  have ensures : (engine.countPass Rat seen : Script σ Job _).Ensures around _ _ table :=
    countPass_ensures reliable keyed listed engine
  obtain ⟨result, last, ends⟩ := ensures.exists_end
  obtain ⟨rfl, rfl⟩ := ensures.ends ends
  exact ends

end AssignmentEngine

/-! ## A run -/

/-- An endless run of passes in count mode over one table, with nobody else to write to it and no call
of the store that fails. The live workers stay the same, and each pass is fed what is stored. -/
structure BalancingRun (σ Job : Type) (config : AssignmentConfig) (live : List String) where
  around : Surroundings
  reliable : ¬around.mayFail
  engine : Nat → AssignmentEngine
  table : Nat → LeaseTable
  /-- What each pass looks at. -/
  seen : Nat → Observed
  /-- How many moves each pass has applied. -/
  moved : Nat → Nat
  configured : (engine 0).config = config
  keyed : (table 0).Keyed
  listed : ∀ n, (seen n).leases = (table n).leases
  alive : ∀ n, (seen n).live = live
  passes : ∀ n, ((engine n).countPass Rat (seen n) : Script σ Job _).Ends around (table n)
    (moved n, engine (n + 1)) (table (n + 1))

namespace BalancingRun

variable {σ Job : Type} {config : AssignmentConfig} {live : List String}

/-- Whether a pass ignores the threshold. -/
def IsForced (run : BalancingRun σ Job config live) (n : Nat) : Prop :=
  config.isForcedPass (run.engine n).nextPass.passes = true

section

variable (run : BalancingRun σ Job config live)

theorem keyed_at (n : Nat) : (run.table n).Keyed := by
  induction n with
  | zero => exact run.keyed
  | succ n ih =>
    have ended := (AssignmentEngine.countPass_ensures run.reliable ih (run.listed n) _).ends (run.passes n)
    rw [ended.2]
    exact ih.carryOut _

/-- What a pass of the run has done. -/
theorem pass (n : Nat) :
    (run.moved n, run.engine (n + 1)) = (((run.engine n).countedMoves Rat (run.seen n)).length,
        (run.engine n).nextPass.remember ((run.engine n).countedMoves Rat (run.seen n))) ∧
      run.table (n + 1) = (run.table n).carryOut ((run.engine n).countedMoves Rat (run.seen n)) :=
  (AssignmentEngine.countPass_ensures run.reliable (run.keyed_at n) (run.listed n) _).ends (run.passes n)

theorem moved_eq (n : Nat) :
    run.moved n = ((run.engine n).countedMoves Rat (run.seen n)).length :=
  (Prod.mk.inj (run.pass n).1).1

theorem config_at (n : Nat) : (run.engine n).config = config := by
  induction n with
  | zero => exact run.configured
  | succ n ih =>
    rw [(Prod.mk.inj (run.pass n).1).2]
    exact ih

theorem passes_at (n : Nat) : (run.engine n).passes = (run.engine 0).passes + n := by
  induction n with
  | zero => rfl
  | succ n ih =>
    rw [(Prod.mk.inj (run.pass n).1).2]
    exact congrArg (· + 1) ih

theorem distinct (n : Nat) : ((run.seen n).leases.map Lease.leaseKey).Nodup :=
  run.listed n ▸ (run.keyed_at n).lists.keys_nodup

/-- A pass that moves nothing leaves the table as it is. -/
theorem table_of_idle {n : Nat} (idle : run.moved n = 0) : run.table (n + 1) = run.table n := by
  rw [run.moved_eq, List.length_eq_zero_iff] at idle
  rw [(run.pass n).2, idle]
  rfl

/-- A pass that moves something levels two workers. -/
theorem evens_of_moved (valid : config.problem? = none) {n : Nat} (moved : run.moved n ≠ 0) :
    ∃ source target,
      (run.seen n).Evens (run.seen (n + 1)) config.dampening (run.moved n) source target ∧
        (run.table n).HandsOver (run.table (n + 1)) source target := by
  have busy : (run.engine n).countedMoves Rat (run.seen n) ≠ [] := by
    rwa [run.moved_eq, Ne, List.length_eq_zero_iff] at moved
  obtain ⟨_, none⟩ | ⟨source, target, apart, planned | ⟨none, _⟩⟩ :=
    planByCount_cases (run.engine n).config (run.engine n).nextPass.passes (run.distinct n)
  · exact absurd none busy
  · have moves : (run.engine n).countedMoves Rat (run.seen n) =
        (run.seen n).shift config.dampening source target := by
      rw [AssignmentEngine.countedMoves, planned, run.config_at]
    have after := (run.pass n).2
    rw [moves] at after
    refine ⟨source, target, ?_, ?_⟩
    · rw [run.moved_eq, moves]
      exact apart.evens (AssignmentConfig.dampening_le valid) (run.keyed_at n) (run.listed n)
        (by rw [run.listed, after]) (by rw [run.alive, run.alive])
    · rw [after]
      exact Observed.handsOver_shift (run.keyed_at n) (run.listed n) _ _ _
  · exact absurd none busy

/-- A forced pass moves nothing exactly when the workers are level. -/
theorem idle_iff_of_forced {n : Nat} (forced : run.IsForced n) :
    run.moved n = 0 ↔ (run.seen n).IsLevel := by
  have forcedToo : (run.engine n).config.isForcedPass (run.engine n).nextPass.passes = true := by
    rw [run.config_at]
    exact forced
  rw [run.moved_eq, List.length_eq_zero_iff]
  exact planByCount_forced (run.distinct n) forcedToo

theorem seen_of_idle {n : Nat} (idle : run.moved n = 0) :
    (run.seen (n + 1)).leases = (run.seen n).leases ∧ (run.seen (n + 1)).live = (run.seen n).live := by
  rw [run.listed, run.listed, run.table_of_idle idle, run.alive, run.alive]
  exact ⟨rfl, rfl⟩

/-- Only finitely many passes move anything: each of them lowers the sum of squares, and the others
leave it alone. -/
theorem finite_moved (valid : config.problem? = none) : {n | run.moved n ≠ 0}.Finite := by
  have falls {n : Nat} (moved : run.moved n ≠ 0) :
      (run.seen (n + 1)).sumOfSquares < (run.seen n).sumOfSquares := by
    obtain ⟨_, _, evens, _⟩ := run.evens_of_moved valid moved
    exact evens.sum_lt
  have never : Antitone fun n => (run.seen n).sumOfSquares := antitone_nat_of_succ_le fun n => by
    by_cases idle : run.moved n = 0
    · obtain ⟨leases, live⟩ := run.seen_of_idle idle
      simp [Observed.sumOfSquares, Observed.workers, leases, live]
    · exact (falls idle).le
  have later {first second : Nat} (before : first < second) (moved : run.moved first ≠ 0) :
      (run.seen second).sumOfSquares < (run.seen first).sumOfSquares :=
    (never (Nat.succ_le_of_lt before)).trans_lt (falls moved)
  refine Set.Finite.of_injOn (t := {sum | sum ≤ (run.seen 0).sumOfSquares})
    (f := fun n => (run.seen n).sumOfSquares) (fun n _ => never (Nat.zero_le n)) ?_ (Set.finite_le_nat _)
  intro first firstMoved second secondMoved same
  rcases lt_trichotomy first second with before | equal | after
  · exact absurd same (later before firstMoved).ne'
  · exact equal
  · exact absurd same (later after secondMoved).ne

/-- Every so often a pass is forced. -/
theorem exists_forced (everSoOften : 0 < config.varianceFrequency) (first : Nat) :
    ∃ n, first ≤ n ∧ run.IsForced n := by
  obtain ⟨ahead, number⟩ := Nat.exists_eq_add_of_le
    (Nat.le_mul_of_pos_left ((run.engine 0).passes + 1 + first) everSoOften)
  refine ⟨first + ahead, Nat.le_add_right .., ?_⟩
  have passes : (run.engine (first + ahead)).nextPass.passes =
      config.varianceFrequency * ((run.engine 0).passes + 1 + first) := by
    rw [number]
    show (run.engine (first + ahead)).passes + 1 = _
    rw [run.passes_at]
    omega
  rw [IsForced, passes]
  simp [AssignmentConfig.isForcedPass, everSoOften]

/-- In the end the workers are level: once nothing moves any more the table stays as it is, and a
forced pass that is idle has found the workers level. -/
theorem eventually_level (valid : config.problem? = none)
    (everSoOften : 0 < config.varianceFrequency) :
    ∃ last, ∀ n, last ≤ n → (run.seen n).IsLevel := by
  obtain ⟨last, bound⟩ := (run.finite_moved valid).bddAbove
  have idle (n : Nat) (after : last < n) : run.moved n = 0 := by
    by_contra moved
    exact absurd (bound moved) (Nat.not_le.2 after)
  obtain ⟨forced, after, isForced⟩ := run.exists_forced everSoOften (last + 1)
  refine ⟨forced, fun n later => ?_⟩
  induction n, later using Nat.le_induction with
  | base => exact (run.idle_iff_of_forced isForced).1 (idle forced after)
  | succ n later ih =>
    obtain ⟨leases, live⟩ := run.seen_of_idle (idle n (by omega))
    simpa [Observed.IsLevel, Observed.workers, leases, live] using ih

end

/-! ## There are such runs -/

/-- What a pass over a stored table looks at. -/
def look (live : List String) (table : LeaseTable) : Observed :=
  { leases := table.leases, summaries := [], live, now := 0 }

/-- The engine and the table before each pass. -/
def states (live : List String) (engine : AssignmentEngine) (table : LeaseTable) :
    Nat → AssignmentEngine × LeaseTable
  | 0 => (engine, table)
  | n + 1 =>
    let (engine, table) := states live engine table n
    let moves := engine.countedMoves Rat (look live table)
    (engine.nextPass.remember moves, table.carryOut moves)

theorem keyed_states (live : List String) (engine : AssignmentEngine) {table : LeaseTable}
    (keyed : table.Keyed) (n : Nat) : (states live engine table n).2.Keyed := by
  induction n with
  | zero => exact keyed
  | succ n ih => exact ih.carryOut _

/-- The run from an engine and a table. -/
def starting (live : List String) (engine : AssignmentEngine) {table : LeaseTable}
    (keyed : table.Keyed) : BalancingRun σ Job engine.config live where
  around := { listed := [], mayFail := False }
  reliable := id
  engine n := (states live engine table n).1
  table n := (states live engine table n).2
  seen n := look live (states live engine table n).2
  moved n := ((states live engine table n).1.countedMoves Rat
    (look live (states live engine table n).2)).length
  configured := rfl
  keyed := keyed
  listed _ := rfl
  alive _ := rfl
  passes n := AssignmentEngine.countPass_ends id (keyed_states live engine keyed n) rfl _

/-- Nine leases of one worker. -/
def nineLeases : LeaseTable :=
  .ofLeases (["a", "b", "c", "d", "e", "f", "g", "h", "i"].map fun leaseKey =>
    { leaseKey, shardId := leaseKey, owner := some "w1" })

/-- An engine in count mode that moves half of the difference. -/
def countingEngine : AssignmentEngine where
  config := { disableMetrics := true, dampening := 100, varianceFrequency := 1 }

/-- Three workers, one of which owns all the leases. -/
def fromOneWorker : BalancingRun Unit Unit countingEngine.config ["w1", "w2", "w3"] :=
  starting ["w1", "w2", "w3"] countingEngine (.ofLeases _ : nineLeases.Keyed)

theorem not_level_at_first : ¬(fromOneWorker.seen 0).IsLevel := fun level => by
  have close := level "w1" (by decide +kernel) "w2" (by decide +kernel)
  revert close
  decide +kernel

/-! ## Coming to rest -/

/-- Passes in count mode come to rest. Each pass is the engine's own, but for the report of the gap
and the precision of the arithmetic. A pass that moves leases gives them from a worker with the most
to one with the fewest of the others, without inverting the order of the two, and lowers the sum of
the squares of the workers' numbers of leases. So only finitely many passes move anything. A forced
pass moves nothing exactly when the numbers of any two workers differ by at most one, and in the end
they do. -/
theorem comes_to_rest (run : BalancingRun σ Job config live) (valid : config.problem? = none)
    (byCount : config.disableMetrics = true) (everSoOften : 0 < config.varianceFrequency) :
    (∀ n, ∃ gap, ((run.engine n).runPass (run.seen n) : Script σ Job _) =
      (Script.gauge .utilizationGap gap).bind fun _ => (run.engine n).countPass Float (run.seen n)) ∧
    (∀ n, run.moved n ≠ 0 → ∃ source target,
      (run.seen n).Evens (run.seen (n + 1)) config.dampening (run.moved n) source target ∧
        (run.table n).HandsOver (run.table (n + 1)) source target) ∧
    (∀ n, run.moved n = 0 → run.table (n + 1) = run.table n) ∧
    {n | run.moved n ≠ 0}.Finite ∧
    (∀ n, run.IsForced n → (run.moved n = 0 ↔ (run.seen n).IsLevel)) ∧
    ∃ last, ∀ n, last ≤ n → (run.seen n).IsLevel := by
  refine ⟨fun n => ?_, fun n => run.evens_of_moved valid, fun n => run.table_of_idle,
    run.finite_moved valid, fun n => run.idle_iff_of_forced, run.eventually_level valid everSoOften⟩
  exact AssignmentEngine.runPass_eq_countPass (by rw [run.config_at, byCount]) _

/-- The first pass moves leases, and the passes come to rest. -/
theorem comes_to_rest_from_one_worker :
    fromOneWorker.moved 0 ≠ 0 ∧ {n | fromOneWorker.moved n ≠ 0}.Finite ∧
      ∃ last, ∀ n, last ≤ n → (fromOneWorker.seen n).IsLevel := by
  have valid : countingEngine.config.problem? = none := by decide +kernel
  obtain ⟨_, _, _, finite, forced, level⟩ := comes_to_rest fromOneWorker valid rfl (by decide)
  exact ⟨fun idle => not_level_at_first ((forced 0 rfl).1 idle), finite, level⟩

end BalancingRun

end LeaseFleet
