import LeaseFleet.Proofs.Assignment.PlanTargets

/-!
# The greedy selection

The selection by throughput goes through the leases of the source from the heaviest one on and keeps
its own account of what source and target carry. `Shift.replay` is that account after some leases, and
`Shift.Fits` is what a lease must satisfy at its turn. Every lease fits at its turn if it is selected,
and if it is not it does not fit, or the budget has been met by then (`selectByThroughput_greedy`).

The comparisons are those of the doubles, where what is not at most zero is positive unless it is NaN.
Among numbers they are those of a line (`compare_eq_placeOrder`), so that leases whose throughputs are
numbers are arranged in order (`pairwise_heavierFirst`).
-/

namespace LeaseFleet

/-! ## The order of the doubles -/

section

open Float.Model

/-- Where a double lies: its sign, or twice its sign if it is infinite, then what orders the finite ones
of one sign. NaN lies anywhere. -/
def placeOf : UnpackedFloat → Int × Int × Int
  | .infinity .negative => (-2, 0, 0)
  | .finite .negative mantissa exponent _ => (-1, -exponent, -mantissa)
  | .zero _ | .notANumber => (0, 0, 0)
  | .finite .positive mantissa exponent _ => (1, exponent, mantissa)
  | .infinity .positive => (2, 0, 0)

def placeOrder : Int × Int × Int → Int × Int × Int → Ordering :=
  compareLex (compareOn (·.1)) (compareLex (compareOn (·.2.1)) (compareOn (·.2.2)))

instance : Std.TransCmp placeOrder := inferInstanceAs (Std.TransCmp (compareLex _ _))

theorem compare_neg_neg (left right : Int) : compare (-left) (-right) = (compare left right).swap := by
  rw [Int.compare_swap]
  simp only [Int.compare_eq_ite_lt, Int.neg_lt_neg_iff]

theorem compare_natCast (left right : Nat) : compare (left : Int) (right : Int) = compare left right := by
  simp only [Int.compare_eq_ite_lt, Nat.compare_eq_ite_lt, Int.ofNat_lt]

/-- Numbers compare as their places do. -/
theorem compare_eq_placeOrder {left right : UnpackedFloat} (leftNumber : left.isNaN = false)
    (rightNumber : right.isNaN = false) :
    left.compare right = some (placeOrder (placeOf left) (placeOf right)) := by
  rcases left with (_ | _) | _ | (_ | _) | ⟨_ | _, mantissa, exponent, _⟩ <;>
    rcases right with (_ | _) | _ | (_ | _) | ⟨_ | _, mantissa', exponent', _⟩ <;>
      first | cases leftNumber; done | cases rightNumber; done | rfl | skip
  case finite.negative.finite.negative =>
    show _ = some ((compare (-exponent) (-exponent')).then (compare (-mantissa : Int) (-mantissa')))
    rw [compare_neg_neg, compare_neg_neg, compare_natCast]
    exact congrArg some (Ordering.swap_then ..)
  case finite.positive.finite.positive =>
    show _ = some ((compare exponent exponent').then (compare (mantissa : Int) mantissa'))
    rw [compare_natCast]
    rfl

end

/-- Doubles in the order of their places. -/
def floatOrder (left right : Float) : Ordering :=
  placeOrder (placeOf left.toModel.unpack) (placeOf right.toModel.unpack)

theorem floatOrder_swap (left right : Float) : floatOrder left right = (floatOrder right left).swap :=
  @Std.OrientedCmp.eq_swap _ placeOrder _ _ _

instance : Std.TransCmp floatOrder where
  eq_swap := floatOrder_swap ..
  isLE_trans := fun first second => @Std.TransCmp.isLE_trans _ placeOrder _ _ _ _ first second

section

variable {left right : Float}

theorem lt_iff_floatOrder (leftNumber : left.isNaN = false) (rightNumber : right.isNaN = false) :
    left < right ↔ floatOrder left right = .lt := by
  refine decide_eq_true_iff.trans ?_
  show (left.toModel.unpack.compare right.toModel.unpack == some .lt) = true ↔ _
  rw [compare_eq_placeOrder leftNumber rightNumber]
  simp [floatOrder]

theorem le_iff_floatOrder (leftNumber : left.isNaN = false) (rightNumber : right.isNaN = false) :
    left ≤ right ↔ (floatOrder left right).isLE = true := by
  refine decide_eq_true_iff.trans ?_
  show (left.toModel.unpack.compare right.toModel.unpack).any (·.isLE) = true ↔ _
  rw [compare_eq_placeOrder leftNumber rightNumber]
  rfl

/-- Of two numbers, one is smaller where it is not at least the other. -/
theorem lt_of_not_ge (leftNumber : left.isNaN = false) (rightNumber : right.isNaN = false)
    (notAtLeast : ¬right ≤ left) : left < right := by
  rw [le_iff_floatOrder rightNumber leftNumber] at notAtLeast
  rw [lt_iff_floatOrder leftNumber rightNumber, floatOrder_swap]
  cases same : floatOrder right left <;> simp_all

/-- Numbers are ordered as their places are. -/
theorem order_eq_floatOrder (leftNumber : left.isNaN = false) (rightNumber : right.isNaN = false) :
    Scalar.order left right = floatOrder left right := by
  have below (x y : Float) : Scalar.below x y = decide (x < y) := rfl
  simp only [Scalar.order, below, decide_eq_true_eq, lt_iff_floatOrder leftNumber rightNumber,
    lt_iff_floatOrder rightNumber leftNumber]
  rw [floatOrder_swap right left]
  cases floatOrder left right <;> rfl

end

/-! ## The arrangement -/

section

variable {order cmp : Lease → Lease → Ordering} [Std.TransCmp cmp]

/-- A lease finds its place behind those that it does not precede. -/
theorem pairwise_insertFromEnd {lease : Lease} {placed : List Lease}
    (same : ∀ other ∈ placed, order lease other = cmp lease other)
    (sorted : placed.Pairwise fun later earlier => (cmp earlier later).isLE = true) :
    (insertFromEnd order lease placed).Pairwise fun later earlier => (cmp earlier later).isLE = true := by
  induction placed with
  | nil => simp [insertFromEnd]
  | cons last rest ih =>
    obtain ⟨lastIsLast, sorted'⟩ := List.pairwise_cons.1 sorted
    have atLast := same last List.mem_cons_self
    unfold insertFromEnd
    split
    case isTrue before =>
      refine List.pairwise_cons.2
        ⟨fun other mem => ?_, ih (fun other mem => same other (.tail _ mem)) sorted'⟩
      rcases List.mem_cons.1 ((insertFromEnd_perm order lease rest).subset mem) with rfl | mem
      · simp [← atLast, before]
      · exact lastIsLast other mem
    case isFalse notBefore =>
      have swapped : cmp last lease = (cmp lease last).swap := Std.OrientedCmp.eq_swap
      have after : (cmp last lease).isLE = true := by
        rw [swapped]
        rw [atLast] at notBefore
        cases isBefore : cmp lease last <;> simp_all
      refine List.pairwise_cons.2 ⟨fun other mem => ?_, sorted⟩
      rcases List.mem_cons.1 mem with rfl | mem
      · exact after
      · exact Std.TransCmp.isLE_trans (lastIsLast other mem) after

/-- Arranging sorts where the order is, among these leases, one that can be sorted by. -/
theorem pairwise_arrange {leases : List Lease}
    (same : ∀ left ∈ leases, ∀ right ∈ leases, order left right = cmp left right) :
    (arrange order leases).Pairwise fun earlier later => (cmp earlier later).isLE = true := by
  have along (rest placed : List Lease)
      (same : ∀ left ∈ rest ++ placed, ∀ right ∈ rest ++ placed, order left right = cmp left right)
      (sorted : placed.Pairwise fun later earlier => (cmp earlier later).isLE = true) :
      (rest.foldl (fun placed lease => insertFromEnd order lease placed) placed).Pairwise
        fun later earlier => (cmp earlier later).isLE = true := by
    induction rest generalizing placed with
    | nil => exact sorted
    | cons head rest ih =>
      have known {other : Lease} (mem : other ∈ rest ++ insertFromEnd order head placed) :
          other ∈ head :: rest ++ placed := by
        have moved := (insertFromEnd_perm order head placed).append_left rest
        exact (moved.trans List.perm_middle).subset mem
      exact ih _ (fun left mem right mem' => same left (known mem) right (known mem'))
        (pairwise_insertFromEnd (fun other mem => same head (by simp) other (by simp [mem])) sorted)
  exact List.pairwise_reverse.2 (along leases [] (by simpa using same) .nil)

end

/-- The order of leases by weight, for any throughputs. -/
def weightOrder : Lease → Lease → Ordering :=
  compareLex (fun left right => floatOrder right.kbps left.kbps) (compareOn Lease.leaseKey)

instance : Std.TransCmp weightOrder :=
  have : Std.TransCmp fun left right : Lease => floatOrder right.kbps left.kbps :=
    { eq_swap := floatOrder_swap ..
      isLE_trans := fun first second => @Std.TransCmp.isLE_trans _ floatOrder _ _ _ _ second first }
  inferInstanceAs (Std.TransCmp (compareLex _ _))

/-- Leases whose throughputs are numbers are arranged from the heaviest one on. -/
theorem pairwise_heavierFirst {leases : List Lease}
    (numbers : ∀ lease ∈ leases, lease.kbps.isNaN = false) :
    (arrange heavierFirst leases).Pairwise fun earlier later =>
      (heavierFirst earlier later).isLE = true := by
  have same : ∀ left ∈ leases, ∀ right ∈ leases, heavierFirst left right = weightOrder left right :=
    fun left mem right mem' => congrArg (Ordering.then · _)
      (order_eq_floatOrder (numbers right mem') (numbers left mem))
  refine (pairwise_arrange same).imp_of_mem fun mem mem' sorted => ?_
  rwa [same _ ((arrange_perm ..).subset mem) _ ((arrange_perm ..).subset mem')]

/-! ## The account of the selection -/

namespace Shift

/-- The loads after leases have been selected one after another. -/
def replay (shift : Shift) (leases : List Lease) : Shift :=
  leases.foldl (fun shift lease => shift.after lease.kbps) shift

@[simp] theorem replay_nil (shift : Shift) : shift.replay [] = shift := rfl

@[simp] theorem replay_cons (shift : Shift) (lease : Lease) (leases : List Lease) :
    shift.replay (lease :: leases) = (shift.after lease.kbps).replay leases := rfl

/-- How far the two loads are apart. -/
def gap (shift : Shift) : Float := (shift.source - shift.target).abs

/-- What a lease of some throughput must satisfy at its turn: it has one, it does not lift the target
above a cap, and it lifts it above the mean only if it may and the loads come closer. -/
structure Fits (shift : Shift) (limits : MoveLimits) (kbps : Float) : Prop where
  positive : ¬kbps ≤ 0.0
  withinCap : 0.0 < limits.cap → ¬limits.cap < (shift.after kbps).target
  narrows : limits.mean < (shift.after kbps).target →
    limits.allowOvershoot = true ∧ ¬shift.gap ≤ (shift.after kbps).gap

theorem admits_iff {shift : Shift} {limits : MoveLimits} {kbps : Float} :
    shift.admits limits kbps = true ↔ shift.Fits limits kbps := by
  have fits : shift.Fits limits kbps ↔ ¬kbps ≤ 0.0 ∧
      (0.0 < limits.cap → ¬limits.cap < shift.target + kbps) ∧
      (limits.mean < shift.target + kbps →
        limits.allowOvershoot = true ∧ shift.narrows kbps = true) := by
    refine ⟨fun fits => ⟨fits.positive, fits.withinCap, fun above => ?_⟩,
      fun ⟨positive, withinCap, narrows⟩ => ⟨positive, withinCap, fun above => ?_⟩⟩
    · simpa [Shift.narrows, gap] using fits.narrows above
    · simpa [Shift.narrows, gap] using narrows above
  rw [fits]
  unfold admits
  split
  · simp [*]
  · split
    · simp_all
    · split
      · simp_all
      · simp_all

end Shift

/-- A selection from leases in an order is the greedy one: a lease is selected exactly if the budget is
not met and it fits when it is its turn, after what is selected from the leases before it. -/
structure Greedy (limits : MoveLimits) (first : Shift) (leases selected : List Lease) : Prop where
  inOrder : selected.Sublist leases
  fits : ∀ earlier lease later, selected = earlier ++ lease :: later →
    ¬limits.budget ≤ (first.replay earlier).moved ∧ (first.replay earlier).Fits limits lease.kbps
  turn : ∀ before lease after, leases = before ++ lease :: after →
    ∃ earlier later, selected = earlier ++ later ∧ earlier.Sublist before ∧
      (limits.budget ≤ (first.replay earlier).moved ∧ later = [] ∨
        ¬limits.budget ≤ (first.replay earlier).moved ∧
          (first.replay earlier).Fits limits lease.kbps ∧
            (∃ rest, later = lease :: rest ∧ rest.Sublist after) ∨
        ¬limits.budget ≤ (first.replay earlier).moved ∧
          ¬(first.replay earlier).Fits limits lease.kbps ∧ later.Sublist after)

section

variable {limits : MoveLimits} {shift : Shift}

/-- Once the budget is met, nothing more is selected. -/
theorem selectGreedily_of_met (met : limits.budget ≤ shift.moved) (leases : List Lease) :
    selectGreedily limits shift leases = [] := by
  cases leases with
  | nil => rfl
  | cons lease rest => exact if_pos met

theorem selectGreedily_of_fits {lease : Lease} {rest : List Lease}
    (notMet : ¬limits.budget ≤ shift.moved) (fits : shift.Fits limits lease.kbps) :
    selectGreedily limits shift (lease :: rest) =
      lease :: selectGreedily limits (shift.after lease.kbps) rest :=
  (if_neg notMet).trans (if_pos (Shift.admits_iff.2 fits))

theorem selectGreedily_of_not_fits {lease : Lease} {rest : List Lease}
    (notMet : ¬limits.budget ≤ shift.moved) (unfit : ¬shift.Fits limits lease.kbps) :
    selectGreedily limits shift (lease :: rest) = selectGreedily limits shift rest :=
  (if_neg notMet).trans (if_neg fun admitted => unfit (Shift.admits_iff.1 admitted))

/-- The selection goes on from where the leases before have left the account. -/
theorem selectGreedily_append (before after : List Lease) :
    selectGreedily limits shift (before ++ after) = selectGreedily limits shift before ++
      selectGreedily limits (shift.replay (selectGreedily limits shift before)) after := by
  induction before generalizing shift with
  | nil => rfl
  | cons lease rest ih =>
    by_cases met : limits.budget ≤ shift.moved
    · simp [selectGreedily_of_met met]
    · by_cases fits : shift.Fits limits lease.kbps
      · simp [selectGreedily_of_fits met fits, ih]
      · simp [selectGreedily_of_not_fits met fits, ih]

/-- What is selected fits at its turn, and the budget is not met by then. -/
theorem fits_of_selectGreedily {leases earlier later : List Lease} {lease : Lease}
    (selected : selectGreedily limits shift leases = earlier ++ lease :: later) :
    ¬limits.budget ≤ (shift.replay earlier).moved ∧ (shift.replay earlier).Fits limits lease.kbps := by
  induction leases generalizing shift earlier with
  | nil => simp [selectGreedily] at selected
  | cons head rest ih =>
    by_cases met : limits.budget ≤ shift.moved
    · simp [selectGreedily_of_met met] at selected
    · by_cases fits : shift.Fits limits head.kbps
      · rw [selectGreedily_of_fits met fits] at selected
        cases earlier with
        | nil =>
          obtain ⟨rfl, _⟩ := List.cons.inj selected
          exact ⟨met, fits⟩
        | cons first earlier =>
          obtain ⟨rfl, onward⟩ := List.cons.inj selected
          have fitsLater := ih onward
          exact fitsLater
      · rw [selectGreedily_of_not_fits met fits] at selected
        exact ih selected

end

theorem selectGreedily_greedy (limits : MoveLimits) (first : Shift) (leases : List Lease) :
    Greedy limits first leases (selectGreedily limits first leases) := by
  refine ⟨selectGreedily_sublist .., fun _ _ _ => fits_of_selectGreedily, ?_⟩
  rintro before lease after rfl
  refine ⟨_, _, selectGreedily_append before (lease :: after), selectGreedily_sublist .., ?_⟩
  by_cases met : limits.budget ≤ (first.replay (selectGreedily limits first before)).moved
  · exact .inl ⟨met, selectGreedily_of_met met _⟩
  · by_cases fits : (first.replay (selectGreedily limits first before)).Fits limits lease.kbps
    · exact .inr (.inl ⟨met, fits, _, selectGreedily_of_fits met fits, selectGreedily_sublist ..⟩)
    · refine .inr (.inr ⟨met, fits, ?_⟩)
      rw [selectGreedily_of_not_fits met fits]
      exact selectGreedily_sublist ..

/-- What limits the selection by throughput of a pass. -/
def throughputLimits (config : AssignmentConfig) (mean gap : Float) (source : WorkerLoad Float) :
    MoveLimits where
  budget := gap / 2.0 * floatOfNat config.dampening / 100.0 * source.throughput / source.utilization
  cap := config.maxThroughputPerHost
  mean
  allowOvershoot := config.allowOvershoot

/-- With a shift to make and a source that is utilized and carries throughput, the selection is the
greedy one from the leases of the source, arranged from the heaviest one on. Where the numbers that are
compared are not NaN, what is selected carries throughput, and the budget is not exhausted before. -/
theorem selectByThroughput_greedy {config : AssignmentConfig} {mean gap : Float}
    {source target : WorkerLoad Float}
    (shifts : ¬gap / 2.0 * floatOfNat config.dampening / 100.0 ≤ 0.0)
    (carries : ¬source.throughput ≤ 0.0) (utilized : ¬source.utilization ≤ 0.0)
    (leases : List Lease) :
    (arrange heavierFirst leases).Perm leases ∧
      ((∀ lease ∈ leases, lease.kbps.isNaN = false) →
        (arrange heavierFirst leases).Pairwise fun earlier later =>
          (heavierFirst earlier later).isLE = true) ∧
      Greedy (throughputLimits config mean gap source)
        { source := source.throughput, target := target.throughput } (arrange heavierFirst leases)
        (selectByThroughput config mean source target gap leases) ∧
      ∀ earlier lease later,
        selectByThroughput config mean source target gap leases = earlier ++ lease :: later →
        let moved := (Shift.replay { source := source.throughput, target := target.throughput }
          earlier).moved
        (lease.kbps.isNaN = false → 0.0 < lease.kbps) ∧
          (moved.isNaN = false → (throughputLimits config mean gap source).budget.isNaN = false →
            moved < (throughputLimits config mean gap source).budget) := by
  have selection : selectByThroughput config mean source target gap leases =
      selectGreedily (throughputLimits config mean gap source)
        { source := source.throughput, target := target.throughput } (arrange heavierFirst leases) := by
    simp only [selectByThroughput, if_neg shifts]
    exact if_neg (by simp [carries, utilized])
  have greedy := selectGreedily_greedy (throughputLimits config mean gap source)
    { source := source.throughput, target := target.throughput } (arrange heavierFirst leases)
  rw [← selection] at greedy
  refine ⟨arrange_perm .., pairwise_heavierFirst, greedy, fun earlier lease later selected => ?_⟩
  obtain ⟨notMet, fits⟩ := greedy.fits earlier lease later selected
  exact ⟨fun number => lt_of_not_ge rfl number fits.positive,
    fun moved budget => lt_of_not_ge moved budget notMet⟩

/-- The leases of a busy worker: one too heavy for the cap, one that fits, and one that no longer does. -/
def weighed : List Lease := [
  { leaseKey := "a", shardId := "a", throughputKbps := some 30.0 },
  { leaseKey := "b", shardId := "b", throughputKbps := some 300.0 },
  { leaseKey := "c", shardId := "c", throughputKbps := some 40.0 }]

def busyLoad : WorkerLoad Float :=
  { workerId := "w1", leaseKeys := ["a", "b", "c"], throughput := 370.0, utilization := 90.0
    eligible := true }

def idleLoad : WorkerLoad Float :=
  { workerId := "w0", leaseKeys := [], throughput := 100.0, utilization := 10.0, eligible := true }

def cappedConfig : AssignmentConfig := { maxThroughputPerHost := 250.0, allowOvershoot := false }

/-- The heaviest of them stays for its weight, the next one is selected, and then the lightest one would
lift the target above the mean. -/
theorem selectByThroughput_greedy_of_weighed :
    ¬(80.0 : Float) / 2.0 * floatOfNat cappedConfig.dampening / 100.0 ≤ 0.0 ∧
      ¬busyLoad.throughput ≤ 0.0 ∧ ¬busyLoad.utilization ≤ 0.0 ∧
      Greedy (throughputLimits cappedConfig 150.0 80.0 busyLoad)
        { source := busyLoad.throughput, target := idleLoad.throughput }
        (arrange heavierFirst weighed) (weighed.drop 2) := by
  have shifts : ¬(80.0 : Float) / 2.0 * floatOfNat cappedConfig.dampening / 100.0 ≤ 0.0 := by
    decide +kernel
  have carries : ¬busyLoad.throughput ≤ 0.0 := by decide +kernel
  have utilized : ¬busyLoad.utilization ≤ 0.0 := by decide +kernel
  have selected : selectByThroughput cappedConfig 150.0 busyLoad idleLoad 80.0 weighed =
      weighed.drop 2 := by
    decide +kernel
  refine ⟨shifts, carries, utilized, ?_⟩
  rw [← selected]
  exact (selectByThroughput_greedy shifts carries utilized weighed).2.2.1

end LeaseFleet
