import LeaseFleet.Coordinator.State

/-!
# What a history of scans tells

A coordinator keeps one counter and one instant for each lease. These stand for the whole history of
its scans: the counter is that of the last scan, and the instant is that of the first of the scans,
without a gap up to the last one, that have shown this counter (`get?_observedAfter`).
-/

namespace LeaseFleet

/-- A listing of all leases that a coordinator has taken in. -/
structure Scan where
  /-- Who has made the scan. -/
  thread : Nat
  /-- When the listing came. -/
  heard : Nat
  /-- The instant that the coordinator takes for the time of the scan. -/
  time : Nat
  leases : List Lease

namespace Scan

def keys (scan : Scan) : List String := scan.leases.map (·.leaseKey)

/-- No two leases of the listing have one key. -/
def Distinct (scan : Scan) : Prop := scan.keys.Nodup

/-- The lease was there, with the counter. -/
def Shows (scan : Scan) (leaseKey : String) (counter : Nat) : Prop :=
  ∃ lease ∈ scan.leases, lease.leaseKey = leaseKey ∧ lease.counter = counter

end Scan

/-- The last scans of a history, back to one at the given instant, have all shown the counter, and
the scan before these has not. Histories have the last scan first. -/
def Standing (leaseKey : String) (counter since : Nat) (scans : List Scan) : Prop :=
  ∃ later oldest earlier, scans = later ++ oldest :: earlier ∧ oldest.time = since ∧
    (∀ scan ∈ later ++ [oldest], scan.Shows leaseKey counter) ∧
      ∀ scan ∈ earlier.head?, ¬scan.Shows leaseKey counter

/-- The counter that stands has stood for a time, the patience, at an instant. -/
def Overdue (patience : Nat) (scans : List Scan) (instant : Nat) (leaseKey : String) : Prop :=
  ∃ counter since, Standing leaseKey counter since scans ∧ since + patience ≤ instant

namespace Standing

variable {leaseKey : String} {counter since : Nat} {scan : Scan} {scans : List Scan}

theorem shows (standing : Standing leaseKey counter since (scan :: scans)) :
    scan.Shows leaseKey counter := by
  obtain ⟨later, oldest, earlier, same, _, shown, _⟩ := standing
  cases later with
  | nil =>
    obtain ⟨rfl, _⟩ := List.cons.inj same
    exact shown scan (by simp)
  | cons newest later =>
    obtain ⟨rfl, _⟩ := List.cons.inj same
    exact shown scan (by simp)

theorem not_nil : ¬Standing leaseKey counter since [] := by
  rintro ⟨later, oldest, earlier, same, _⟩
  simp at same

/-- A counter that was shown last has been standing since some instant. -/
theorem exists_since (shown : scan.Shows leaseKey counter) (earlier : List Scan) :
    ∃ since, Standing leaseKey counter since (scan :: earlier) := by
  induction earlier generalizing scan with
  | nil => exact ⟨scan.time, [], scan, [], rfl, rfl, by simpa using shown, by simp⟩
  | cons previous rest ih =>
    by_cases before : previous.Shows leaseKey counter
    · obtain ⟨since, later, oldest, earlier, same, first, all, stopped⟩ := ih before
      refine ⟨since, scan :: later, oldest, earlier, by rw [same]; rfl, first, ?_, stopped⟩
      rw [List.cons_append]
      exact List.forall_mem_cons.2 ⟨shown, all⟩
    · refine ⟨scan.time, [], scan, previous :: rest, rfl, rfl, by simpa using shown, ?_⟩
      simpa using before

/-- A further scan with the same counter lets it stand since the same instant. -/
theorem cons_of_shows (shown : scan.Shows leaseKey counter)
    (standing : Standing leaseKey counter since scans) :
    Standing leaseKey counter since (scan :: scans) := by
  obtain ⟨later, oldest, earlier, rfl, first, all, stopped⟩ := standing
  refine ⟨scan :: later, oldest, earlier, rfl, first, ?_, stopped⟩
  rw [List.cons_append]
  exact List.forall_mem_cons.2 ⟨shown, all⟩

/-- A counter that is new in the last scan stands since this scan; one that was there before, since
then. -/
theorem cons_iff : Standing leaseKey counter since (scan :: scans) ↔
    scan.Shows leaseKey counter ∧ (Standing leaseKey counter since scans ∨
      scan.time = since ∧ ∀ previous ∈ scans.head?, ¬previous.Shows leaseKey counter) := by
  constructor
  · intro standing
    refine ⟨standing.shows, ?_⟩
    obtain ⟨later, oldest, earlier, same, first, all, stopped⟩ := standing
    cases later with
    | nil =>
      obtain ⟨rfl, rfl⟩ := List.cons.inj same
      exact .inr ⟨first, stopped⟩
    | cons newest later =>
      obtain ⟨rfl, rfl⟩ := List.cons.inj same
      exact .inl ⟨later, oldest, earlier, rfl, first, fun scan mem => all scan (by simp_all), stopped⟩
  · rintro ⟨shown, standing | ⟨rfl, stopped⟩⟩
    · exact standing.cons_of_shows shown
    · exact ⟨[], scan, scans, rfl, rfl, by simpa using shown, stopped⟩

/-- A counter that the scan before the last one has not shown stands since the last one. -/
theorem since_eq_of_new {previous : Scan}
    (standing : Standing leaseKey counter since (scan :: previous :: scans))
    (new : ¬previous.Shows leaseKey counter) : scan.time = since := by
  obtain ⟨_, earlier | ⟨here, _⟩⟩ := cons_iff.1 standing
  · exact (new earlier.shows).elim
  · exact here

theorem exists_scan (standing : Standing leaseKey counter since scans) :
    ∃ scan ∈ scans, scan.time = since ∧ scan.Shows leaseKey counter := by
  obtain ⟨later, oldest, earlier, rfl, first, all, _⟩ := standing
  exact ⟨oldest, by simp, first, all oldest (by simp)⟩

/-- Of the last scans, a counter stands since one instant only. -/
theorem since_unique {other : Nat} (standing : Standing leaseKey counter since scans)
    (too : Standing leaseKey counter other scans) : since = other := by
  induction scans with
  | nil => exact (not_nil standing).elim
  | cons scan rest ih =>
    obtain ⟨_, earlier | ⟨here, stopped⟩⟩ := cons_iff.1 standing
    · obtain ⟨_, earlierToo | ⟨_, stopped⟩⟩ := cons_iff.1 too
      · exact ih earlier earlierToo
      · cases rest with
        | nil => exact (not_nil earlier).elim
        | cons previous _ => exact (stopped previous rfl earlier.shows).elim
    · obtain ⟨_, earlierToo | ⟨hereToo, _⟩⟩ := cons_iff.1 too
      · cases rest with
        | nil => exact (not_nil earlierToo).elim
        | cons previous _ => exact (stopped previous rfl earlierToo.shows).elim
      · exact here.symm.trans hereToo

end Standing

namespace Coordinator

/-- What is known of the leases after a history of scans. -/
def observedAfter : List Scan → SortedMap String Observation
  | [] => .empty
  | scan :: earlier => .ofList (scan.leases.map fun lease =>
      (lease.leaseKey, observation (observedAfter earlier) lease scan.time))

theorem observe_observed {state : Coordinator} {earlier : List Scan}
    (same : state.observed = observedAfter earlier) (scan : Scan) :
    (state.observe scan.leases scan.time).observed = observedAfter (scan :: earlier) := by
  simp [observe, observedAfter, same]

/-- What is known after a scan is known of its leases. -/
theorem contains_observedAfter {scan : Scan} {earlier : List Scan} {leaseKey : String} :
    (observedAfter (scan :: earlier)).contains leaseKey = true ↔ leaseKey ∈ scan.keys := by
  simp [observedAfter, SortedMap.contains_ofList, Scan.keys, Function.comp_def]

/-- Each lease of the last scan is known with its counter, and with the instant since which it has
stood. -/
theorem get?_observedAfter {scans : List Scan} (distinct : ∀ scan ∈ scans, scan.Distinct)
    {leaseKey : String} {counter since : Nat} :
    (observedAfter scans).get? leaseKey = some { counter, since } ↔
      Standing leaseKey counter since scans := by
  induction scans generalizing leaseKey counter since with
  | nil => simp [observedAfter, Standing.not_nil]
  | cons scan earlier ih =>
    obtain ⟨here, before⟩ := List.forall_mem_cons.1 distinct
    have known {leaseKey : String} {counter since : Nat} :
        (observedAfter earlier).get? leaseKey = some { counter, since } ↔
          Standing leaseKey counter since earlier := ih before
    have keys : (scan.leases.map fun lease =>
        (lease.leaseKey, observation (observedAfter earlier) lease scan.time)).map (·.1) = scan.keys := by
      simp [Scan.keys, Function.comp_def]
    -- a lease of this scan is known since then or since now, as the scan before has shown it or not
    have seen (lease : Lease) : Standing lease.leaseKey lease.counter
        (observation (observedAfter earlier) lease scan.time).since earlier ∨
          (observation (observedAfter earlier) lease scan.time).since = scan.time ∧
            ∀ since, ¬Standing lease.leaseKey lease.counter since earlier := by
      unfold observation
      split
      · rename_i found there
        split
        · rename_i same
          rw [← same]
          exact .inl (known.1 there)
        · rename_i differs
          refine .inr ⟨rfl, fun since standing => differs ?_⟩
          have sameFound := there.symm.trans (known.2 standing)
          rw [Option.some.inj sameFound]
      · rename_i missing
        refine .inr ⟨rfl, fun since standing => ?_⟩
        rw [known.2 standing] at missing
        cases missing
    have counterOf (lease : Lease) :
        (observation (observedAfter earlier) lease scan.time).counter = lease.counter := by
      unfold observation
      split
      · split
        · assumption
        · rfl
      · rfl
    have unseen {lease : Lease} (never : ∀ since, ¬Standing lease.leaseKey lease.counter since earlier) :
        ∀ previous ∈ earlier.head?, ¬previous.Shows lease.leaseKey lease.counter := by
      intro previous head shown
      obtain ⟨rest, rfl⟩ := List.head?_eq_some_iff.1 head
      obtain ⟨since, standing⟩ := Standing.exists_since shown rest
      exact never since standing
    rw [observedAfter, SortedMap.get?_ofList (keys ▸ here), List.mem_map, Standing.cons_iff]
    constructor
    · rintro ⟨lease, mem, same⟩
      obtain ⟨rfl, sameSeen⟩ := Prod.mk.inj same
      obtain rfl : lease.counter = counter := by rw [← counterOf lease, sameSeen]
      have sinceOf : (observation (observedAfter earlier) lease scan.time).since = since := by
        rw [sameSeen]
      refine ⟨⟨lease, mem, rfl, rfl⟩, ?_⟩
      rcases seen lease with standing | ⟨now, never⟩
      · exact .inl (sinceOf ▸ standing)
      · exact .inr ⟨now.symm.trans sinceOf, unseen never⟩
    · rintro ⟨⟨lease, mem, rfl, rfl⟩, standing⟩
      refine ⟨lease, mem, ?_⟩
      have sinceOf : (observation (observedAfter earlier) lease scan.time).since = since := by
        rcases standing with standing | ⟨rfl, stopped⟩
        · rcases seen lease with too | ⟨_, never⟩
          · exact too.since_unique standing
          · exact (never since standing).elim
        · rcases seen lease with too | ⟨now, _⟩
          · cases earlier with
            | nil => exact (Standing.not_nil too).elim
            | cons previous _ => exact (stopped previous rfl too.shows).elim
          · exact now
      rw [Prod.mk.injEq]
      exact ⟨rfl, by rw [← sinceOf, ← counterOf lease]⟩

/-- Of one lease only one counter is standing. -/
theorem counter_unique {scans : List Scan} (distinct : ∀ scan ∈ scans, scan.Distinct) {leaseKey : String}
    {counter since other otherSince : Nat} (standing : Standing leaseKey counter since scans)
    (too : Standing leaseKey other otherSince scans) : counter = other := by
  have known := ((get?_observedAfter distinct).2 standing).symm.trans ((get?_observedAfter distinct).2 too)
  injection known with same
  exact congrArg Observation.counter same

/-- A scan shows one counter of a lease. -/
theorem shows_unique {scan : Scan} (distinct : scan.Distinct) {leaseKey : String} {counter other : Nat}
    (shown : scan.Shows leaseKey counter) (too : scan.Shows leaseKey other) : counter = other := by
  obtain ⟨since, standing⟩ := Standing.exists_since shown []
  obtain ⟨otherSince, standingToo⟩ := Standing.exists_since too []
  exact counter_unique (by simpa using distinct) standing standingToo

/-- A lease is expired when it is overdue for the failover time, at an instant after the scans. -/
theorem isExpired_iff {state : Coordinator} {scans : List Scan}
    (same : state.observed = observedAfter scans) (distinct : ∀ scan ∈ scans, scan.Distinct) {now : Nat}
    (inTime : ∀ scan ∈ scans, scan.time ≤ now) {lease : Lease} :
    state.isExpired lease now = true ↔ Overdue state.settings.failoverTime scans now lease.leaseKey := by
  have before {leaseKey : String} {counter since : Nat} (standing : Standing leaseKey counter since scans) :
      since ≤ now := by
    obtain ⟨scan, mem, rfl, _⟩ := standing.exists_scan
    exact inTime scan mem
  unfold isExpired
  rw [same]
  constructor
  · intro expired
    split at expired
    · rename_i found there
      have standing := (get?_observedAfter distinct).1 there
      have elapsed := of_decide_eq_true expired
      have le := before standing
      exact ⟨found.counter, found.since, standing, by omega⟩
    · cases expired
  · rintro ⟨counter, since, standing, elapsed⟩
    rw [(get?_observedAfter distinct).2 standing]
    have le := before standing
    exact decide_eq_true (show state.settings.failoverTime ≤ now - since by omega)

end Coordinator

end LeaseFleet
