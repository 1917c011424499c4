import LeaseFleet.Proofs.Coordinator.ScanRuns

/-!
# Who is considered alive

A worker goes by the counters that its scans have shown, but by the time at which it judges. So the
owner of a lease that is renewed in every failover time is considered alive as long as the counter that
was shown last has stood for less than the failover time; after that the owner may be missed, though
only if the last scan is older than the judgement (`renewing_owner_alive_unless_overdue`). A rebalancing
pass scans nothing by itself, and so it may find that it leads although a worker with a smaller id is
renewing its lease.
-/

namespace LeaseFleet

/-- The first member of a set is its smallest one. -/
theorem SortedSet.le_of_head? {live : SortedSet String} {least other : String}
    (first : live.toList.head? = some least) (mem : other ∈ live.toList) : least ≤ other := by
  obtain ⟨entries, sorted⟩ := live
  cases entries with
  | nil => cases first
  | cons entry rest =>
    obtain rfl : entry.1 = least := Option.some.inj first
    rcases List.mem_cons.1 mem with rfl | later
    · exact String.le_refl _
    · obtain ⟨entry', inRest, rfl⟩ := List.mem_map.1 later
      exact Std.le_of_lt (compareOfLessAndEq_eq_lt.1 ((List.pairwise_cons.1 sorted).1 entry' inRest))

theorem leaderOf_of_lt {live : SortedSet String} {worker least : String}
    (first : live.toList.head? = some least) (less : least < worker) : leaderOf worker live = least := by
  obtain ⟨rest, isLive⟩ := List.head?_eq_some_iff.1 first
  unfold leaderOf
  rw [isLive]
  exact if_pos less

/-- The leader counts no smaller worker among the living. -/
theorem not_mem_of_leads {worker other : String} {live : SortedSet String}
    (leads : isLeaderAmong worker live = true) (smaller : other < worker) : other ∉ live.toList := by
  intro mem
  have leads : leaderOf worker live = worker := of_decide_eq_true leads
  obtain ⟨least, first⟩ : ∃ least, live.toList.head? = some least :=
    Option.isSome_iff_exists.1 (List.isSome_head?.2 (List.ne_nil_of_mem mem))
  have less : least < worker := Std.lt_of_le_of_lt (SortedSet.le_of_head? first mem) smaller
  rw [leaderOf_of_lt first less] at leads
  exact String.lt_irrefl worker (leads ▸ less)

theorem Coordinator.mem_livingWorkers {state : Coordinator} {leases : List Lease} {now epoch : Nat}
    {summaries : List WorkerSummary} {worker : String} :
    worker ∈ (state.livingWorkers leases now summaries epoch).toList ↔
      worker = state.workerId ∨
        (∃ lease ∈ leases, state.isExpired lease now = false ∧ lease.owner = some worker) ∨
        ∃ summary ∈ summaries, summary.isStale epoch state.assignment.staleThreshold = false ∧
          summary.workerId = worker := by
  simp [livingWorkers, SortedSet.mem_toList_ofList, and_assoc]

/-- Who is found alive, by the history of the scans. -/
theorem Weighing.mem_live_iff {first : Coordinator} (weighing : Weighing) {seen : List Scan}
    (self : first.SameSelf weighing.looked)
    (known : weighing.looked.observed = Coordinator.observedAfter seen)
    (distinct : ∀ scan ∈ seen, scan.Distinct) (inTime : ∀ scan ∈ seen, scan.time ≤ weighing.instant)
    (worker : String) :
    worker ∈ weighing.live.toList ↔ worker = first.workerId ∨
      (∃ lease ∈ weighing.known.allLeases,
        ¬Overdue first.settings.failoverTime seen weighing.instant lease.leaseKey ∧
          lease.owner = some worker) ∨
      ∃ summary ∈ weighing.reports,
        summary.isStale weighing.epoch first.assignment.staleThreshold = false ∧
          summary.workerId = worker := by
  have expired (lease : Lease) : weighing.looked.isExpired lease weighing.instant = false ↔
      ¬Overdue first.settings.failoverTime seen weighing.instant lease.leaseKey := by
    rw [← self.settings, ← Coordinator.isExpired_iff known distinct inTime, Bool.not_eq_true]
  rw [Weighing.live, Coordinator.mem_livingWorkers, self.workerId, self.assignment]
  simp only [expired]

namespace Company

variable {first : Coordinator} {tasks : Nat → CoordinatorTask} {moments before : List (Moment Coordinator)}
  {last : Company Coordinator CoordinatorJob Unit}

/-- What a set of the living goes by, when it is noted. -/
structure Weighs (moments : List (Moment Coordinator)) (thread : Nat) (before : List (Moment Coordinator))
    (weighing : Weighing) : Prop where
  weighing : (journal thread before).weighing? = some weighing
  noted : ∃ time found now, { time, thread, act := .changed found now } :: before <:+ moments

/-- What a worker goes by are the scans up to its look at the state, and the leases of one of them. -/
theorem Weighs.sight (unsighted : first.Unsighted)
    (run : Run (CoordinatorTask.company first tasks) moments last) {thread : Nat} {weighing : Weighing}
    (weighs : Weighs moments thread before weighing) :
    ∃ looking, looking <:+ before ∧ first.SameSelf weighing.looked ∧
      weighing.looked.observed = Coordinator.observedAfter (scans looking) ∧
      (∀ scan ∈ scans looking, scan.time ≤ weighing.instant) ∧
        ∃ knowing, knowing <:+ looking ∧ weighing.known.allLeases = lastLeases (scans knowing) := by
  obtain ⟨time, found, now, noted⟩ := weighs.noted
  obtain ⟨there, upTo, _⟩ := run.upTo noted
  obtain ⟨left, knowingFound, rest, own⟩ := Journal.weighing?_eq_some weighs.weighing
  have look : .asked .clock weighing.instant :: .changed weighing.looked left ::
      .changed knowingFound weighing.known :: rest <:+ journal thread before :=
    own ▸ List.suffix_append [_, _] _
  obtain ⟨looking, part, ownLooking, self, known, inTime, _⟩ := upTo.looked unsighted look
  have ownKnowing : .changed knowingFound weighing.known :: rest <:+ journal thread looking :=
    ownLooking ▸ List.suffix_refl _
  obtain ⟨knownAt, knowing, knownPart, _⟩ := exists_of_journal_suffix ownKnowing
  obtain ⟨knew, upToKnown⟩ := upTo.back (knownPart.trans part)
  refine ⟨looking, part, self, known, inTime, _, knownPart, ?_⟩
  rw [← (upToKnown.sight unsighted).2, upToKnown.state_of_changed]

/-- In all listings of a run somebody owns a lease, whose counter is renewed at least once in every while
of the given length. -/
structure Renews (moments : List (Moment Coordinator)) (patience : Nat) (owner leaseKey : String)
    (counterAt : Nat → Nat) : Prop where
  shown : ∀ {time leases}, Listed moments time leases → ∃ lease ∈ leases, lease.leaseKey = leaseKey ∧
    lease.owner = some owner ∧ lease.counter = counterAt time
  grows : ∀ {early late}, early ≤ late → counterAt early ≤ counterAt late
  moves : ∀ time, counterAt time < counterAt (time + patience)

/-- A lease that is renewed in time is overdue only after its last scan. -/
theorem Renews.heard_lt {patience instant : Nat} {owner leaseKey : String} {counterAt : Nat → Nat}
    (renews : Renews moments patience owner leaseKey counterAt)
    (run : Run (CoordinatorTask.company first tasks) moments last) {seen : List Scan}
    (within : seen <:+ scans moments) (distinct : ∀ scan ∈ seen, scan.Distinct)
    (overdue : Overdue patience seen instant leaseKey) : ∀ newest ∈ seen.head?, newest.heard < instant := by
  obtain ⟨counter, since, standing, elapsed⟩ := overdue
  have counterOf {scan : Scan} (mem : scan ∈ seen) (shows : scan.Shows leaseKey counter) :
      counter = counterAt scan.heard := by
    obtain ⟨lease, inScan, isKey, _, isCounter⟩ := renews.shown (run.scan_listed (within.mem mem)).1
    exact Coordinator.shows_unique (distinct scan mem) shows ⟨lease, inScan, isKey, isCounter⟩
  obtain ⟨oldest, oldestMem, rfl, oldestShows⟩ := standing.exists_scan
  obtain ⟨_, heardBefore, _⟩ := run.scan_listed (within.mem oldestMem)
  intro newest isNewest
  obtain ⟨rest, rfl⟩ := List.head?_eq_some_iff.1 isNewest
  have same : counterAt newest.heard = counterAt oldest.heard :=
    (counterOf List.mem_cons_self standing.shows).symm.trans (counterOf oldestMem oldestShows)
  refine Nat.lt_of_not_le fun late => ?_
  have moved := renews.moves oldest.heard
  have grown := renews.grows (show oldest.heard + patience ≤ newest.heard by omega)
  omega

/-- Once something was listed, the lease is among what a worker goes by. -/
theorem Renews.known {patience : Nat} {owner leaseKey : String} {counterAt : Nat → Nat}
    (renews : Renews moments patience owner leaseKey counterAt)
    (run : Run (CoordinatorTask.company first tasks) moments last) {knowing : List (Moment Coordinator)}
    (within : knowing <:+ moments) (listed : lastLeases (scans knowing) ≠ []) :
    ∃ lease ∈ lastLeases (scans knowing), lease.leaseKey = leaseKey ∧ lease.owner = some owner := by
  cases whole : scans knowing with
  | nil =>
    rw [whole] at listed
    exact absurd rfl listed
  | cons scan earlier =>
    have mem : scan ∈ scans moments := (scans_suffix within).mem (whole ▸ List.mem_cons_self)
    obtain ⟨lease, inScan, isKey, isOwned, _⟩ := renews.shown (run.scan_listed mem).1
    exact ⟨lease, inScan, isKey, isOwned⟩

/-- Who is found alive by the scans so far: the worker itself, the owners of leases that are not overdue,
and who has a fresh summary. Once something was listed, the owner of a lease is missed only if the lease is
overdue, and then the last scan is of a listing from before the judgement. -/
structure Weighed (first : Coordinator) (seen : List Scan) (weighing : Weighing) (owner leaseKey : String) :
    Prop where
  alive : ∀ {worker}, worker ∈ weighing.live.toList ↔ worker = first.workerId ∨
    (∃ lease ∈ weighing.known.allLeases,
      ¬Overdue first.settings.failoverTime seen weighing.instant lease.leaseKey ∧ lease.owner = some worker) ∨
    ∃ summary ∈ weighing.reports,
      summary.isStale weighing.epoch first.assignment.staleThreshold = false ∧ summary.workerId = worker
  missed : weighing.known.allLeases ≠ [] → owner ∉ weighing.live.toList →
    Overdue first.settings.failoverTime seen weighing.instant leaseKey ∧
      ∀ newest ∈ seen.head?, newest.heard < weighing.instant

theorem Weighs.weighed (unsighted : first.Unsighted)
    (run : Run (CoordinatorTask.company first tasks) moments last)
    (distinct : ∀ {time leases}, Listed moments time leases → (leases.map (·.leaseKey)).Nodup)
    {owner leaseKey : String} {counterAt : Nat → Nat}
    (renews : Renews moments first.settings.failoverTime owner leaseKey counterAt) {thread : Nat}
    {weighing : Weighing} (weighs : Weighs moments thread before weighing) :
    ∃ seen, seen <:+ scans before ∧ Weighed first seen weighing owner leaseKey := by
  obtain ⟨looking, part, self, known, inTime, knowing, knownPart, leases⟩ := weighs.sight unsighted run
  obtain ⟨_, _, _, noted⟩ := weighs.noted
  have inRun := part.trans ((List.suffix_cons ..).trans noted)
  have allDistinct := run.scan_distinct distinct
  have lookDistinct := fun scan mem => allDistinct scan ((scans_suffix inRun).mem mem)
  have alive {worker : String} := weighing.mem_live_iff self known lookDistinct inTime worker
  refine ⟨scans looking, scans_suffix part, alive, fun listed missed => ?_⟩
  obtain ⟨lease, mem, rfl, owned⟩ := renews.known run (knownPart.trans inRun) (leases ▸ listed)
  have overdue : Overdue first.settings.failoverTime (scans looking) weighing.instant lease.leaseKey := by
    by_cases overdue : Overdue first.settings.failoverTime (scans looking) weighing.instant lease.leaseKey
    · exact overdue
    · exact absurd (alive.2 (.inr (.inl ⟨lease, leases ▸ mem, overdue, owned⟩))) missed
  exact ⟨overdue, renews.heard_lt run (scans_suffix inRun) lookDistinct overdue⟩

/-- Every set of the living that is noted is weighed by the scans so far. So somebody who owns a lease and
renews it in time is missed only if this lease is overdue since a scan of an earlier listing. A rebalancing
pass calls the store only after it has weighed the living and found that it leads; where it leads in the place
of such a worker with a smaller id, it has missed this worker. -/
theorem renewing_owner_alive_unless_overdue (unsighted : first.Unsighted)
    (run : Run (CoordinatorTask.company first tasks) moments last)
    (distinct : ∀ {time leases}, Listed moments time leases → (leases.map (·.leaseKey)).Nodup)
    {owner leaseKey : String} {counterAt : Nat → Nat}
    (renews : Renews moments first.settings.failoverTime owner leaseKey counterAt) :
    (∀ {time thread found now before weighing},
      { time, thread, act := .changed found now } :: before <:+ moments →
      (journal thread before).weighing? = some weighing → now.live = weighing.live ∧
        ∃ seen, seen <:+ scans before ∧ Weighed first seen weighing owner leaseKey) ∧
    ∀ {time thread call reply before},
      { time, thread, act := .asked (.store call) reply } :: before <:+ moments →
      (tasks thread).Rebalances → ∃ earlier weighing, Weighs before thread earlier weighing ∧
        isLeaderAmong first.workerId weighing.live = true ∧
        (owner < first.workerId → owner ∉ weighing.live.toList ∧
          ∃ seen, seen <:+ scans earlier ∧ Weighed first seen weighing owner leaseKey) := by
  refine ⟨fun {time thread found now before weighing} part weighs => ?_, fun part rebalances => ?_⟩
  · have watches : (journal thread before).Watches found now := run.may.2 part
    exact ⟨watches.weighed weighs,
      Weighs.weighed unsighted run distinct renews ⟨weighs, time, found, now, part⟩⟩
  · obtain ⟨found, now, weighing, past, noted, weighs, leads⟩ := (run.may.2 part).2 rebalances
    obtain ⟨time, earlier, notedPart, rfl⟩ := exists_of_journal_suffix noted
    refine ⟨earlier, weighing, ⟨weighs, time, found, now, notedPart⟩, leads, fun smaller => ?_⟩
    have inRun := notedPart.trans ((List.suffix_cons ..).trans part)
    exact ⟨not_mem_of_leads leads smaller,
      Weighs.weighed unsighted run distinct renews ⟨weighs, time, found, now, inRun⟩⟩

/-! ### A rebalancing pass after the failover time -/

/-- A worker with a smaller id owns a lease and renews it every 300 milliseconds. -/
def renewedLeases (time : Nat) : List Lease := [ownedLease "s1" "w0" (time / 300)]

/-- A worker scans at the time 0 and sets out to rebalance a second later. -/
def overdueTasks (thread : Nat) : CoordinatorTask := if thread = 0 then .take else .rebalance

/-- Its pass gets as far as the listing of the leases. -/
def overdueRun : Played Coordinator CoordinatorJob Unit :=
  play (worldOf renewedLeases) (turns 0 0 20 ++ turns 1000 1 9)
    (CoordinatorTask.company newWorker overdueTasks)

theorem run_overdueRun :
    Run (CoordinatorTask.company newWorker overdueTasks) overdueRun.moments overdueRun.company :=
  run_play ..

theorem renews_overdueRun : Renews overdueRun.moments 1000 "w0" "s1" (· / 300) where
  shown {time leases} listed := by
    obtain rfl : leases = renewedLeases time := listing_of_listed listed
    exact ⟨ownedLease "s1" "w0" (time / 300), List.mem_cons_self, rfl, rfl, rfl⟩
  grows le := Nat.div_le_div_right le
  moves time := by omega

/-- Before the pass calls the store, it notes a set of the living in which the smaller worker is missing. -/
theorem weighing_overdueRun : ∃ found now weighing call,
    overdueRun.moments = { time := 1000, thread := 1, act := .asked (.store .list) call } ::
      overdueRun.moments.tail ∧
    overdueRun.moments.drop 4 = { time := 1000, thread := 1, act := .changed found now } ::
      overdueRun.moments.drop 5 ∧
    (journal 1 (overdueRun.moments.drop 5)).weighing? = some weighing ∧
    weighing.instant = 1000 ∧ weighing.known.allLeases ≠ [] ∧ "w0" ∉ weighing.live.toList :=
  ⟨_, _, _, _, rfl, rfl, rfl, rfl, by decide, by decide⟩

/-- Though it renews its lease, the smaller worker is missed, and the other one takes the lead. -/
theorem renewing_owner_missed_after_failover :
    (∃ seen, seen <:+ scans overdueRun.moments ∧ Overdue 1000 seen 1000 "s1" ∧
      ∀ newest ∈ seen.head?, newest.heard < 1000) ∧
    ∃ earlier weighing, Weighs overdueRun.moments.tail 1 earlier weighing ∧
      isLeaderAmong "w1" weighing.live = true ∧ "w0" ∉ weighing.live.toList := by
  obtain ⟨found, now, weighing, call, last, noting, weighs, instant, listed, missing⟩ := weighing_overdueRun
  have distinct {time : Nat} {leases : List Lease} (listed : Listed overdueRun.moments time leases) :
      (leases.map (·.leaseKey)).Nodup := by
    rw [listing_of_listed listed, renewedLeases]
    simp
  obtain ⟨weighed, leads⟩ :=
    renewing_owner_alive_unless_overdue ⟨rfl, rfl⟩ run_overdueRun distinct renews_overdueRun
  constructor
  · obtain ⟨_, seen, part, byScans⟩ := weighed (noting ▸ List.drop_suffix 4 _) weighs
    have late := byScans.missed listed missing
    rw [instant] at late
    exact ⟨seen, part.trans (scans_suffix (List.drop_suffix 5 _)), late⟩
  · obtain ⟨earlier, weighing, noted, leading, missed⟩ := leads ⟨[], last.symm⟩ (.inl rfl)
    exact ⟨earlier, weighing, noted, leading, (missed (by decide)).1⟩

end Company

end LeaseFleet
