import LeaseFleet.Proofs.Interleaving.Schedules
import LeaseFleet.Proofs.Coordinator.ScanHistory
import LeaseFleet.Proofs.Coordinator.TaskJournals

/-!
# Runs of a coordinator

Any number of tasks of one coordinator, each acting when it likes. Whatever the tasks are, what the
coordinator knows of the leases is what the history of their scans tells (`Run.sight`). So a lease of
another worker is claimed only when its counter has stood for the failover time
(`others_claimed_after_failover`). That time ends when the cycle judges the lease and not when it scans
the table, so a cycle that takes long may claim a lease whose counter has moved since the scan before
(`moved_lease_may_be_claimed`).
-/

namespace LeaseFleet

/-- Nothing has been seen yet. -/
def Coordinator.Unsighted (state : Coordinator) : Prop := state.observed = .empty ∧ state.allLeases = []

/-- A coordinator with its tasks. -/
def CoordinatorTask.company (first : Coordinator) (tasks : Nat → CoordinatorTask) :
    Company Coordinator CoordinatorJob Unit where
  state := first
  scripts thread := (tasks thread).script

namespace Company

/-! ## Scans among the moments -/

/-- All leases were listed at a time. -/
def Listed (moments : List (Moment Coordinator)) (time : Nat) (leases : List Lease) : Prop :=
  ∃ thread, { time, thread, act := .asked (.store .list) (.ok leases) } ∈ moments

/-- The time of the last act but one of a script. -/
def timeBefore (thread : Nat) (moments : List (Moment Coordinator)) : Nat :=
  ((moments.filter (·.thread = thread))[1]?.map (·.time)).getD 0

/-- The listing for which a script has just read the time. -/
def underWay? (thread : Nat) (moments : List (Moment Coordinator)) : Option Scan :=
  (journal thread moments).listing?.map fun (time, leases) =>
    { thread, heard := timeBefore thread moments, time, leases }

/-- The scans of all scripts, the last one first. -/
def scans : List (Moment Coordinator) → List Scan
  | [] => []
  | moment :: before =>
    match moment.act with
    | .changed _ _ => (underWay? moment.thread before).toList ++ scans before
    | .asked _ _ => scans before

/-- The leases of the last scan. -/
def lastLeases : List Scan → List Lease
  | [] => []
  | scan :: _ => scan.leases

variable {moments before : List (Moment Coordinator)}

theorem scans_suffix (part : before <:+ moments) : scans before <:+ scans moments := by
  obtain ⟨later, rfl⟩ := part
  induction later with
  | nil => exact List.suffix_refl _
  | cons moment later ih =>
    rw [List.cons_append, scans]
    split
    · exact ih.trans (List.suffix_append ..)
    · exact ih

theorem underWay?_of_listing {thread time : Nat} {leases : List Lease}
    (listing : (journal thread moments).listing? = some (time, leases)) :
    underWay? thread moments = some { thread, heard := timeBefore thread moments, time, leases } := by
  rw [underWay?, listing]
  rfl

/-- The listing is the last act but one of its script, and the reading of the time is the last. -/
theorem underWay?_eq_some {thread : Nat} {scan : Scan} (found : underWay? thread moments = some scan) :
    ∃ read earlier, moments.filter (·.thread = thread) =
      { time := read, thread, act := .asked .clock scan.time } ::
      { time := scan.heard, thread, act := .asked (.store .list) (.ok scan.leases) } :: earlier := by
  obtain ⟨⟨time, leases⟩, listing, rfl⟩ := Option.map_eq_some_iff.1 found
  obtain ⟨rest, same⟩ := Journal.listing?_eq_some listing
  obtain ⟨last, others, whole, lastAct, same⟩ := List.map_eq_cons_iff.1 same
  obtain ⟨previous, earlier, rfl, previousAct, _⟩ := List.map_eq_cons_iff.1 same
  have threads : ∀ moment ∈ last :: previous :: earlier, moment.thread = thread := by
    intro moment mem
    rw [← whole] at mem
    exact of_decide_eq_true (List.mem_filter.1 mem).2
  obtain ⟨read, lastThread, _⟩ := last
  obtain ⟨heard, previousThread, _⟩ := previous
  obtain rfl : lastThread = thread := threads _ (.head _)
  obtain rfl : previousThread = lastThread := threads _ (.tail _ (.head _))
  subst lastAct previousAct
  exact ⟨read, earlier, by simp [timeBefore, whole]⟩

theorem mem_scans {scan : Scan} (mem : scan ∈ scans moments) :
    ∃ moment before, moment :: before <:+ moments ∧ underWay? moment.thread before = some scan := by
  induction moments with
  | nil => cases mem
  | cons moment before ih =>
    rw [scans] at mem
    split at mem
    · rcases List.mem_append.1 mem with here | mem
      · exact ⟨moment, before, List.suffix_refl _, Option.mem_toList.1 here⟩
      · obtain ⟨scanning, earlier, part, found⟩ := ih mem
        exact ⟨scanning, earlier, part.trans (List.suffix_cons ..), found⟩
    · obtain ⟨scanning, earlier, part, found⟩ := ih mem
      exact ⟨scanning, earlier, part.trans (List.suffix_cons ..), found⟩

/-- A listing that has been taken in is a scan of its script. -/
theorem exists_scan_of_taken {thread time : Nat} {listed : Journal Coordinator} {leases : List Lease}
    {found : Coordinator} (part : listed.taken leases time found <:+ journal thread moments) :
    ∃ scan ∈ scans moments, scan.thread = thread ∧ scan.time = time ∧ scan.leases = leases := by
  obtain ⟨_, between, within, same⟩ := exists_of_journal_suffix part
  have listing : (journal thread between).listing? = some (time, leases) := by
    rw [same]
    rfl
  have scanned := underWay?_of_listing listing
  refine ⟨{ thread, heard := timeBefore thread between, time, leases }, (scans_suffix within).mem ?_,
    rfl, rfl, rfl⟩
  rw [scans, scanned]
  exact List.mem_cons_self

namespace Run

variable {first : Coordinator} {tasks : Nat → CoordinatorTask}
  {last : Company Coordinator CoordinatorJob Unit}

/-- Every act of a run was open to the task that did it. -/
theorem may (run : Run (CoordinatorTask.company first tasks) moments last) :
    first.SameSelf last.state ∧ ∀ {moment before}, moment :: before <:+ moments →
      (tasks moment.thread).May first.workerId (journal moment.thread before) moment.act := by
  have follows (thread : Nat) : ((CoordinatorTask.company first tasks).scripts thread).Follows
      ((tasks thread).rules first) (fun _ _ => True) [] := (tasks thread).follows
  exact run.opened follows (.refl first) fun self watches => self.trans watches.sameSelf

/-- What is known of the leases is what the scans tell. -/
theorem sight (unsighted : first.Unsighted)
    (run : Run (CoordinatorTask.company first tasks) moments last) :
    last.state.observed = Coordinator.observedAfter (scans moments) ∧
      last.state.allLeases = lastLeases (scans moments) := by
  induction run with
  | start => exact unsighted
  | idle _ _ ih => exact ih
  | @act moments last thread act rest time earlier does fits inTime ih =>
    cases act with
    | asked query reply => exact ih
    | changed found now =>
      obtain rfl : found = last.state := fits
      have watches : (journal thread moments).Watches last.state now :=
        (earlier.act time does rfl inTime).may.2 (List.suffix_refl _)
      unfold Journal.Watches at watches
      show now.observed = Coordinator.observedAfter ((underWay? thread moments).toList ++ scans moments) ∧
        now.allLeases = lastLeases ((underWay? thread moments).toList ++ scans moments)
      split at watches
      · rename_i time leases listing
        have observed := Coordinator.observe_observed ih.1
          { thread, heard := timeBefore thread moments, time, leases }
        rw [underWay?_of_listing listing, watches]
        exact ⟨observed, rfl⟩
      · rename_i listing
        rw [underWay?, listing]
        exact ⟨watches.1.observed.trans ih.1, watches.1.allLeases.trans ih.2⟩

/-- Each act fits the state at its moment. -/
theorem fits {σ Job α : Type} {first last : Company σ Job α} {moments : List (Moment σ)}
    (run : Run first moments last) {moment : Moment σ} (mem : moment ∈ moments) :
    ∃ state, moment.act.Fits moment.time state := by
  obtain ⟨later, before, rfl⟩ := List.append_of_mem mem
  obtain ⟨there, _, fits⟩ := run.upTo (List.suffix_append ..)
  exact ⟨there.state, fits⟩

/-- A scan is of a listing that came no later than its time. -/
theorem scan_listed (run : Run (CoordinatorTask.company first tasks) moments last) {scan : Scan}
    (mem : scan ∈ scans moments) : Listed moments scan.heard scan.leases ∧ scan.heard ≤ scan.time ∧
      ∃ moment ∈ moments, moment.time = scan.time := by
  obtain ⟨moment, before, part, found⟩ := mem_scans mem
  obtain ⟨read, earlier, own⟩ := underWay?_eq_some found
  have among {other : Moment Coordinator} (mem : other ∈ before.filter (·.thread = moment.thread)) :
      other ∈ moments :=
    part.mem (.tail _ (List.mem_filter.1 mem).1)
  have ownOf : (before.filter (·.thread = moment.thread)).Sublist before := List.filter_sublist
  have inOrder := (run.inOrder.sublist ((List.suffix_cons ..).trans part).sublist).sublist ownOf
  rw [own] at among inOrder
  obtain ⟨state, sameTime⟩ := run.fits (among (.head _))
  have sameTime : scan.time = read := sameTime
  refine ⟨⟨moment.thread, among (.tail _ (.head _))⟩, ?_, _, among (.head _), sameTime.symm⟩
  exact sameTime ▸ (List.pairwise_cons.1 inOrder).1 _ (.head _)

theorem scan_time_le (run : Run (CoordinatorTask.company first tasks) moments last)
    {moment : Moment Coordinator} (part : moment :: before <:+ moments) {scan : Scan}
    (mem : scan ∈ scans before) : scan.time ≤ moment.time := by
  obtain ⟨there, upTo, _⟩ := run.upTo part
  obtain ⟨_, _, read, inBefore, same⟩ := upTo.scan_listed mem
  have inOrder := run.inOrder.sublist part.sublist
  exact same ▸ (List.pairwise_cons.1 inOrder).1 read inBefore

theorem scan_distinct (run : Run (CoordinatorTask.company first tasks) moments last)
    (distinct : ∀ {time leases}, Listed moments time leases → (leases.map (·.leaseKey)).Nodup) :
    ∀ scan ∈ scans moments, scan.Distinct :=
  fun _ mem => distinct (run.scan_listed mem).1

/-- Who looks at the state and then reads the time goes by the scans up to the look, all of which were
before that time. -/
theorem looked (unsighted : first.Unsighted) (run : Run (CoordinatorTask.company first tasks) moments last)
    {thread instant : Nat} {found now : Coordinator} {earlier : Journal Coordinator}
    (part : .asked .clock instant :: .changed found now :: earlier <:+ journal thread moments) :
    ∃ looking, looking <:+ moments ∧ journal thread looking = earlier ∧ first.SameSelf found ∧
      found.observed = Coordinator.observedAfter (scans looking) ∧
        (∀ scan ∈ scans looking, scan.time ≤ instant) ∧ ∃ moment ∈ moments, moment.time = instant := by
  obtain ⟨time, reading, readPart, same⟩ := exists_of_journal_suffix part
  obtain ⟨read, _, fits⟩ := run.upTo readPart
  obtain rfl : instant = time := fits
  have ownLook : .changed found now :: earlier <:+ journal thread reading := same ▸ List.suffix_refl _
  obtain ⟨seen, looking, lookPart, before⟩ := exists_of_journal_suffix ownLook
  have whole := lookPart.trans ((List.suffix_cons ..).trans readPart)
  obtain ⟨there, upTo, fits⟩ := run.upTo whole
  obtain rfl : found = there.state := fits
  refine ⟨looking, (List.suffix_cons ..).trans whole, before, upTo.may.1, (upTo.sight unsighted).1,
    fun scan mem => ?_, _, readPart.mem (.head _), rfl⟩
  have inLook := run.scan_time_le whole mem
  have inOrder := run.inOrder.sublist readPart.sublist
  exact Nat.le_trans inLook ((List.pairwise_cons.1 inOrder).1 _ (lookPart.mem (.head _)))

end Run

/-! ## Claims -/

section

variable {first : Coordinator} {tasks : Nat → CoordinatorTask}
  {last : Company Coordinator CoordinatorJob Unit}

/-- After each scan the coordinator knows exactly the leases of this scan, each with the counter that
the scan has shown and the time of the first scan since which all scans have shown it. A taking cycle
claims leases as its own scan has listed them. If somebody else owns the lease, then at some instant up
to the claim its counter had stood for the failover time in the scans up to then; it is the counter that
is claimed, unless another cycle has scanned meanwhile. Where the scan before the last one did not show
the counter, the failover time has gone by since the last one. -/
theorem others_claimed_after_failover (unsighted : first.Unsighted)
    (run : Run (CoordinatorTask.company first tasks) moments last)
    (distinct : ∀ {time leases}, Listed moments time leases → (leases.map (·.leaseKey)).Nodup) :
    (∀ {scan earlier}, scans moments = scan :: earlier → ∀ {leaseKey},
      last.state.observed.contains leaseKey = true ↔ leaseKey ∈ scan.keys) ∧
    (∀ {leaseKey counter since}, last.state.observed.get? leaseKey = some { counter, since } ↔
      Standing leaseKey counter since (scans moments)) ∧
    ∀ {time thread proposal expected reply before},
      { time, thread, act := .asked (.store (.update proposal expected)) reply } :: before <:+ moments →
      (tasks thread).Takes → ∃ scan ∈ scans before, scan.thread = thread ∧ ∃ lease ∈ scan.leases,
        proposal = lease.transferredTo (some first.workerId) ∧ expected = lease.counter ∧
        (lease.owner = none ∨ lease.owner = some first.workerId ∨
          ∃ seen counter since now, seen <:+ scans before ∧ scan ∈ seen ∧ now ≤ time ∧
            Standing lease.leaseKey counter since seen ∧ since + first.settings.failoverTime ≤ now ∧
            (seen.head? = some scan → counter = lease.counter) ∧
            ∀ {newest previous earlier}, seen = newest :: previous :: earlier →
              ¬previous.Shows lease.leaseKey counter →
                newest.time + first.settings.failoverTime ≤ now) := by
  obtain ⟨observed, _⟩ := run.sight unsighted
  have allDistinct := run.scan_distinct distinct
  refine ⟨fun same leaseKey => ?_, ?_, fun part takes => ?_⟩
  · rw [observed, same]
    exact Coordinator.contains_observedAfter
  · rw [observed]
    exact Coordinator.get?_observedAfter allDistinct
  · obtain ⟨there, upTo, _⟩ := run.upTo part
    obtain ⟨leases, scanTime, found, listed, taken, lease, mem, proposed, counted, owned⟩ :=
      (run.may.2 part).1 takes rfl
    obtain unowned | own | ⟨judged, now, earlier, judging, since, expired⟩ := owned
    · obtain ⟨scan, inScans, ofThread, _, rfl⟩ := exists_scan_of_taken taken
      exact ⟨scan, inScans, ofThread, lease, mem, proposed, counted, .inl unowned⟩
    · obtain ⟨scan, inScans, ofThread, _, rfl⟩ := exists_scan_of_taken taken
      exact ⟨scan, inScans, ofThread, lease, mem, proposed, counted, .inr (.inl own)⟩
    · obtain ⟨looking, lookPart, rfl, self, known, inTime, read, readMem, rfl⟩ :=
        upTo.looked unsighted judging
      obtain ⟨scan, inScans, ofThread, _, rfl⟩ := exists_scan_of_taken since
      have before : scans looking <:+ scans moments :=
        scans_suffix (lookPart.trans ((List.suffix_cons ..).trans part))
      have lookDistinct := fun scan mem => allDistinct scan (before.mem mem)
      obtain ⟨counter, since, standing, elapsed⟩ :=
        (Coordinator.isExpired_iff known lookDistinct inTime).1 expired
      rw [self.settings] at elapsed
      have seen := scans_suffix lookPart
      refine ⟨scan, seen.mem inScans, ofThread, lease, mem, proposed, counted, .inr (.inr
        ⟨scans looking, counter, since, read.time, seen, inScans, ?_, standing, elapsed, ?_, ?_⟩)⟩
      · exact (List.pairwise_cons.1 (run.inOrder.sublist part.sublist)).1 read readMem
      · intro isLast
        obtain ⟨rest, whole⟩ := List.head?_eq_some_iff.1 isLast
        obtain ⟨shownSince, shown⟩ := Standing.exists_since ⟨lease, mem, rfl, rfl⟩ rest
        exact Coordinator.counter_unique lookDistinct standing (whole ▸ shown)
      · intro newest previous rest whole new
        have newSince := (whole ▸ standing).since_eq_of_new new
        omega

end

/-! ### A cycle that takes long -/

/-- A world in which the store does what it is told, and lists the leases of the time. -/
def worldOf (listing : Nat → List Lease) (time : Nat) : (query : Query) → query.Reply
  | .store .list => .ok (listing time)
  | .store (.update proposal expected) => .ok (.updated { proposal with counter := expected + 1 })
  | query => Interleaving.plainReply query

theorem listing_of_listed {listing : Nat → List Lease} {schedule : List Turn} {Job α : Type}
    {first : Company Coordinator Job α} {time : Nat} {leases : List Lease}
    (listed : Listed (play (worldOf listing) schedule first).moments time leases) :
    leases = listing time := by
  obtain ⟨thread, mem⟩ := listed
  exact Except.ok.inj (play_told _ _ _ _ mem)

def ownedLease (leaseKey owner : String) (counter : Nat) : Lease :=
  { leaseKey, shardId := leaseKey, owner := some owner, counter }

def newWorker : Coordinator := .ofSettings "w1" { failoverTime := 1000 } {}

/-- By the time 400 the other worker has handed over one of its leases, renewed the other and taken
two more. -/
def movedLeases (time : Nat) : List Lease :=
  if time < 400 then [ownedLease "s1" "w2" 0, ownedLease "s2" "w2" 0]
  else [ownedLease "s1" "w1" 1, ownedLease "s2" "w2" 1, ownedLease "s3" "w2" 0, ownedLease "s4" "w2" 0]

/-- A worker scans at the time 0 and again at 400; then the write by which it adopts the lease that was
handed over takes a second. -/
def delayedRun : Played Coordinator CoordinatorJob Unit :=
  play (worldOf movedLeases) (turns 0 0 20 ++ turns 400 1 10 ++ turns 1000 1 10)
    (CoordinatorTask.company newWorker fun _ => .take)

theorem run_delayedRun :
    Run (CoordinatorTask.company newWorker fun _ => .take) delayedRun.moments delayedRun.company :=
  run_play ..

/-- The renewed lease, as it is claimed. -/
def movedClaim : Lease := (ownedLease "s2" "w2" 1).transferredTo (some "w1")

/-- The run ends with this claim. -/
theorem delayedRun_moments : delayedRun.moments =
    { time := 1400
      thread := 1
      act := .asked (.store (.update movedClaim 1)) (.ok (.updated { movedClaim with counter := 2 })) } ::
        delayedRun.moments.tail := rfl

theorem scans_delayedRun : scans delayedRun.moments.tail =
    [⟨1, 400, 400, movedLeases 400⟩, ⟨0, 0, 0, movedLeases 0⟩] := rfl

/-- A lease of another worker may be claimed although its counter has moved between the last two scans. -/
theorem moved_lease_may_be_claimed :
    ¬∀ {first : Coordinator} {tasks : Nat → CoordinatorTask} {moments : List (Moment Coordinator)}
      {last : Company Coordinator CoordinatorJob Unit}, first.Unsighted → 0 < first.settings.failoverTime →
      Run (CoordinatorTask.company first tasks) moments last →
      ∀ {time thread proposal expected reply before},
        { time, thread, act := .asked (.store (.update proposal expected)) reply } :: before <:+ moments →
        (tasks thread).Takes → ∀ {current previous earlier}, scans before = current :: previous :: earlier →
        ∀ lease ∈ current.leases, lease.owner ≠ none → lease.owner ≠ some first.workerId →
          proposal = lease.transferredTo (some first.workerId) →
          ∀ {counter}, previous.Shows lease.leaseKey counter → counter = lease.counter := by
  intro never
  have still : 0 = 1 := never ⟨rfl, rfl⟩ (by decide) run_delayedRun ⟨[], delayedRun_moments.symm⟩
    (.inl rfl) scans_delayedRun (ownedLease "s2" "w2" 1) (by decide) (by decide) (by decide) rfl
    ⟨ownedLease "s2" "w2" 0, by decide, rfl, rfl⟩
  exact absurd still (by decide)

/-- The moved lease is claimed a second after the scan that has shown its counter first. -/
theorem moved_lease_claimed_after_failover :
    ∃ seen counter since now, seen <:+ scans delayedRun.moments.tail ∧ now ≤ 1400 ∧
      Standing "s2" counter since seen ∧ since + 1000 ≤ now := by
  have distinct {time : Nat} {leases : List Lease} (listed : Listed delayedRun.moments time leases) :
      (leases.map (·.leaseKey)).Nodup := by
    rw [listing_of_listed listed, movedLeases]
    split <;> decide
  obtain ⟨scan, mem, ofThread, lease, inScan, proposed, _, owned⟩ :=
    (others_claimed_after_failover ⟨rfl, rfl⟩ run_delayedRun distinct).2.2
      ⟨[], delayedRun_moments.symm⟩ (.inl rfl)
  have isKey : lease.leaseKey = "s2" := (congrArg Lease.leaseKey proposed).symm
  have isOthers : lease.owner = some "w2" := by
    have inSecond : ∀ lease ∈ movedLeases 400, lease.leaseKey = "s2" → lease.owner = some "w2" := by
      decide
    rw [scans_delayedRun] at mem
    rcases List.mem_cons.1 mem with rfl | mem
    · exact inSecond lease inScan isKey
    · obtain rfl := List.mem_singleton.1 mem
      cases ofThread
  obtain unowned | own | ⟨seen, counter, since, now, part, _, inTime, standing, elapsed, _⟩ := owned
  · rw [isOthers] at unowned
    cases unowned
  · rw [isOthers] at own
    exact absurd own (by decide)
  · exact ⟨seen, counter, since, now, part, inTime, isKey ▸ standing, elapsed⟩

end Company

end LeaseFleet
