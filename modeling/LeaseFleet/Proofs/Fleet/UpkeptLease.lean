import LeaseFleet.Proofs.Fleet.Fencing
import LeaseFleet.Proofs.Fleet.UpkeepThreads

/-!
# Tending one lease

What the copies of one lease have to do with the stored version while its worker renews it and
stores checkpoints (`Upkept`), what the writes so far have come to (`Tally`), and that both are kept
by every move that does not concern the lease (`Upkept.quiet`, `Tally.quiet`).
-/

namespace LeaseFleet

namespace Event

variable {Job Result : Type}

/-- The counter against which a thread has tried to write the lease with the given key. -/
def attempt? (leaseKey : String) : Event Job Result → Option Nat
  | called _ _ (.update proposal expected) _ =>
    if proposal.leaseKey = leaseKey then some expected else none
  | _ => none

/-- The checkpoint that a request has tried to store with the lease with the given key. -/
def position? (leaseKey : String) : Event Duty Outcome → Option Checkpoint
  | called _ (.request (.checkpoint _ _ position)) (.update proposal _) _ =>
    if proposal.leaseKey = leaseKey then some position else none
  | _ => none

/-- The answer to a request to store a checkpoint with a lease that is held under a token. -/
def answer? (place leaseKey : String) (token : Token) : Event Duty Outcome → Option Outcome
  | ended there (.request (.checkpoint key under _)) result =>
    if there = place ∧ key = leaseKey ∧ under = token then some result else none
  | _ => none

/-- No call of a thread has failed, and nobody else has updated or deleted the lease with the given
key. -/
def Spares (leaseKey : String) : Event Job Result → Prop
  | called _ _ _ (.error _) => False
  | outside (.update proposal _) (.ok (.updated _)) => proposal.leaseKey ≠ leaseKey
  | outside (.delete key) (.ok _) => key ≠ leaseKey
  | _ => True

instance (leaseKey : String) (event : Event Job Result) : Decidable (event.Spares leaseKey) :=
  match event with
  | called _ _ _ (.error _) => isFalse id
  | called _ _ _ (.ok _) => isTrue trivial
  | outside (.update proposal _) (.ok (.updated _)) =>
    inferInstanceAs (Decidable (proposal.leaseKey ≠ leaseKey))
  | outside (.delete key) (.ok _) => inferInstanceAs (Decidable (key ≠ leaseKey))
  | outside (.update _ _) (.ok .versionConflict) | outside (.update _ _) (.ok .notFound)
  | outside (.update _ _) (.error _) | outside (.delete _) (.error _) => isTrue trivial
  | outside .list _ | outside (.create _) _ | outside .isEmpty _ => isTrue trivial
  | inner | begun _ _ | ended _ _ _ => isTrue trivial

end Event

/-- The counters against which threads have tried to write a lease, oldest first. -/
def attempts (leaseKey : String) (trace : List (Event Duty Outcome)) : List Nat :=
  trace.filterMap (Event.attempt? leaseKey)

/-- The checkpoints that requests have tried to store with a lease, oldest first. -/
def positions (leaseKey : String) (trace : List (Event Duty Outcome)) : List Checkpoint :=
  trace.filterMap (Event.position? leaseKey)

/-- The answers to the requests to store a checkpoint with a lease that is held under a token. -/
def answers (place leaseKey : String) (token : Token) (trace : List (Event Duty Outcome)) :
    List Outcome :=
  trace.filterMap (Event.answer? place leaseKey token)

section

variable {place leaseKey : String} {token : Token} {trace : List (Event Duty Outcome)}
  {event : Event Duty Outcome}

theorem attempts_append_of_none (silent : event.attempt? leaseKey = none) :
    attempts leaseKey (trace ++ [event]) = attempts leaseKey trace := by
  simp only [attempts, List.filterMap_append, List.filterMap_cons, silent, List.filterMap_nil,
    List.append_nil]

theorem attempts_append_of_some {counter : Nat} (shown : event.attempt? leaseKey = some counter) :
    attempts leaseKey (trace ++ [event]) = attempts leaseKey trace ++ [counter] := by
  simp only [attempts, List.filterMap_append, List.filterMap_cons, shown, List.filterMap_nil]

theorem positions_append_of_none (silent : event.position? leaseKey = none) :
    positions leaseKey (trace ++ [event]) = positions leaseKey trace := by
  simp only [positions, List.filterMap_append, List.filterMap_cons, silent, List.filterMap_nil,
    List.append_nil]

theorem positions_append_of_some {position : Checkpoint}
    (shown : event.position? leaseKey = some position) :
    positions leaseKey (trace ++ [event]) = positions leaseKey trace ++ [position] := by
  simp only [positions, List.filterMap_append, List.filterMap_cons, shown, List.filterMap_nil]

theorem answers_append_of_none (silent : event.answer? place leaseKey token = none) :
    answers place leaseKey token (trace ++ [event]) = answers place leaseKey token trace := by
  simp only [answers, List.filterMap_append, List.filterMap_cons, silent, List.filterMap_nil,
    List.append_nil]

theorem attempts_append_inner :
    attempts leaseKey (trace ++ [Event.inner]) = attempts leaseKey trace :=
  attempts_append_of_none rfl

theorem positions_append_inner :
    positions leaseKey (trace ++ [Event.inner]) = positions leaseKey trace :=
  positions_append_of_none rfl

theorem answers_append_inner :
    answers place leaseKey token (trace ++ [Event.inner]) = answers place leaseKey token trace :=
  answers_append_of_none rfl

end

/-- The held lease that a duty is to write, by its key. -/
def Duty.leaseKey? : Duty → Option String
  | .background (.coordinator (.renewal held)) => some held.lease.leaseKey
  | .request (.checkpoint leaseKey _ _) => some leaseKey
  | _ => none

theorem Duty.Tends.leaseKey {duty : Duty} {deed : Deed} {held : HeldLease}
    (tends : duty.Tends deed held) : duty.leaseKey? = some held.lease.leaseKey := by
  unfold Duty.Tends at tends
  split at tends
  · obtain ⟨_, rfl⟩ := tends
    rfl
  · obtain ⟨_, rfl, _⟩ := tends
    rfl
  · exact tends.elim

/-- A worker alone holds the stored version of a lease, and nothing is under way. -/
structure HoldsAlone (place : String) (origin : HeldLease) (s : FleetState) : Prop where
  idle : s.threads = .empty
  keyed : ∀ {other worker}, s.places.get? other = some worker → worker.coordinator.Keyed
  holds : ∃ worker, s.places.get? place = some worker ∧
    worker.coordinator.held.get? origin.lease.leaseKey = some origin
  apart : ∀ {other worker}, s.places.get? other = some worker → other ≠ place →
    worker.coordinator.held.get? origin.lease.leaseKey = none
  stored : s.table.get? origin.lease.leaseKey = some origin.lease

/-! ## Changes of what is held -/

namespace Coordinator

variable {state : Coordinator} {leaseKey other : String} {token : Token} {stored : Lease} {time : Nat}

theorem get?_confirm_of_ne (ne : other ≠ leaseKey) :
    (state.confirm leaseKey token stored time).held.get? other = state.held.get? other := by
  unfold confirm
  split
  · exact SortedMap.get?_insert_of_ne _ ne _
  · rfl

theorem get?_drop_of_ne (ne : other ≠ leaseKey) :
    (state.drop leaseKey token).held.get? other = state.held.get? other := by
  unfold drop
  split
  · simp [SortedMap.get?_erase, ne]
  · rfl

theorem get?_drop_eq_some {held : HeldLease}
    (found : (state.drop leaseKey token).held.get? other = some held) :
    state.held.get? other = some held := by
  unfold drop at found
  split at found
  · exact (SortedMap.get?_erase_eq_some_iff.1 found).2
  · exact found

/-- A lease is not held any more under a token under which it was dropped. -/
theorem get?_drop_self {held : HeldLease} (found : state.held.get? leaseKey = some held)
    (same : held.token = token) : (state.drop leaseKey token).held.get? leaseKey = none := by
  have holds : state.holds leaseKey token = true := by simp [holds, found, same]
  simp [drop, holds, SortedMap.get?_erase]

theorem get?_confirm_self {held : HeldLease} (found : state.held.get? leaseKey = some held)
    (same : held.token = token) :
    (state.confirm leaseKey token stored time).held.get? leaseKey = some ⟨stored, token, time⟩ := by
  have holds : state.holds leaseKey token = true := by simp [holds, found, same]
  simp [confirm, holds]

theorem confirm_of_missing (missing : state.held.get? leaseKey = none) :
    state.confirm leaseKey token stored time = state := by
  simp [confirm, holds, missing]

theorem Keyed.drop (keyed : state.Keyed) : (state.drop leaseKey token).Keyed :=
  fun found => keyed (get?_drop_eq_some found)

theorem Keyed.confirm (keyed : state.Keyed) (isKey : stored.leaseKey = leaseKey) :
    (state.confirm leaseKey token stored time).Keyed := by
  intro other held found
  by_cases same : other = leaseKey
  · subst same
    cases before : state.held.get? other with
    | none =>
      rw [confirm_of_missing before] at found
      exact keyed found
    | some earlier =>
      by_cases sameToken : earlier.token = token
      · rw [get?_confirm_self before sameToken] at found
        cases found
        exact isKey
      · have notHeld : state.holds other token = false := by simp [holds, before, sameToken]
        simp only [Coordinator.confirm, notHeld] at found
        exact keyed found
  · rw [get?_confirm_of_ne same] at found
    exact keyed found

theorem Keyed.of_same_held {after : Coordinator} (keyed : state.Keyed)
    (same : after.held = state.held) : after.Keyed :=
  fun found => keyed (same ▸ found)

end Coordinator

/-! ## One lease along a run -/

/-- A copy of the lease that was held at the start. `stored` is the version in the table, and
`writer` the thread that has written it, if the worker has yet to note that. -/
structure IsCopy (origin : HeldLease) (stored : Lease) (writer : Option Nat) (held : HeldLease) :
    Prop where
  token : held.token = origin.token
  since : origin.lease.counter ≤ held.lease.counter
  current : held.lease = stored ∧ writer = none ∨ held.lease.counter < stored.counter

namespace Stage

/-- A write of the lease was applied and has yet to be noted. -/
def Writes (leaseKey : String) : Stage → Prop
  | wrote held _ => held.lease.leaseKey = leaseKey
  | _ => False

/-- A write of the lease was refused, and the lease has yet to be dropped. -/
def Fails (leaseKey : String) : Stage → Prop
  | refused held => held.lease.leaseKey = leaseKey
  | _ => False

/-- Where and with what a thread may be at a stage that is about the lease. -/
def Sound (place : String) (origin : HeldLease) (stored : Lease) (writer : Option Nat)
    (there : String) (duty : Duty) : Stage → Prop
  | reads copies => ∀ held, copies held → held.lease.leaseKey = origin.lease.leaseKey →
    there = place ∧ IsCopy origin stored writer held
  | wrote held written => (∃ deed, duty.Tends deed held) ∧
    written.leaseKey = held.lease.leaseKey ∧ (held.lease.leaseKey = origin.lease.leaseKey →
      there = place ∧ held.token = origin.token ∧ written = stored)
  | refused held => (∃ deed, duty.Tends deed held) ∧
    (held.lease.leaseKey = origin.lease.leaseKey → there = place ∧ held.token = origin.token)
  | noted _ => True

end Stage

section

variable (place : String) (origin : HeldLease) (stored : Lease)

/-- The worker holds the lease that it held at the start. -/
def StillHeld (s : FleetState) : Prop :=
  ∃ worker held, s.places.get? place = some worker ∧
    worker.coordinator.held.get? origin.lease.leaseKey = some held

/-- What the copies of the lease have to do with the stored version. -/
structure Upkept (writer : Option Nat) (s : FleetState) (marks : Nat → Stage) : Prop where
  table : s.table.get? origin.lease.leaseKey = some stored
  keyed : ∀ {other worker}, s.places.get? other = some worker → worker.coordinator.Keyed
  apart : ∀ {other worker}, s.places.get? other = some worker → other ≠ place →
    worker.coordinator.held.get? origin.lease.leaseKey = none
  current : ∀ {worker held}, s.places.get? place = some worker →
    worker.coordinator.held.get? origin.lease.leaseKey = some held →
      IsCopy origin stored writer held ∧ (writer = none → held.lease = stored)
  sound : ∀ {id thread}, s.threads.get? id = some thread →
    (marks id).Sound place origin stored writer thread.place thread.job
  fresh : ∀ {id thread}, s.threads.get? id = some thread → id < s.started
  writes : ∀ {id}, writer = some id ↔
    ∃ thread, s.threads.get? id = some thread ∧ (marks id).Writes origin.lease.leaseKey

/-- A stage at which nothing has gone wrong with the lease. -/
structure Stage.Fine (thread : Thread Worker Duty Outcome) (stage : Stage) : Prop where
  notFails : ¬stage.Fails origin.lease.leaseKey
  kept : ∀ {position kept}, thread.place = place →
    thread.job = .request (.checkpoint origin.lease.leaseKey origin.token position) →
      stage = .noted kept → kept = true

/-- As long as no counter was used twice, nothing has gone wrong. -/
structure Flawless (trace : List (Event Duty Outcome)) (s : FleetState) (marks : Nat → Stage) :
    Prop where
  held : StillHeld place origin s
  threads : ∀ {id thread}, s.threads.get? id = some thread → (marks id).Fine place origin thread
  told : ∀ outcome ∈ answers place origin.lease.leaseKey origin.token trace, outcome = .truth true
  checkpoint : stored.checkpoint =
    (positions origin.lease.leaseKey trace).getLastD origin.lease.checkpoint

/-- What the writes so far have come to: every counter up to the stored one was used, and the lease
is lost, or about to be lost, if and only if one was used twice. -/
structure Tally (trace : List (Event Duty Outcome)) (s : FleetState) (marks : Nat → Stage) :
    Prop where
  tried : ∀ {counter}, counter ∈ attempts origin.lease.leaseKey trace ↔
    origin.lease.counter ≤ counter ∧ counter < stored.counter
  flawless : (attempts origin.lease.leaseKey trace).Nodup → Flawless place origin stored trace s marks
  lost : ¬(attempts origin.lease.leaseKey trace).Nodup → StillHeld place origin s →
    ∃ id thread, s.threads.get? id = some thread ∧ (marks id).Fails origin.lease.leaseKey

/-- A stage at which a thread has nothing to note about the lease. -/
structure Stage.Idle (writer : Option Nat) (s : FleetState) (thread : Thread Worker Duty Outcome)
    (stage : Stage) : Prop where
  sound : stage.Sound place origin stored writer thread.place thread.job
  notWrites : ¬stage.Writes origin.lease.leaseKey
  fine : StillHeld place origin s → stage.Fine place origin thread

/-- A change of the surroundings of the threads that does not concern the lease. -/
structure Unaffected (s after : FleetState) : Prop where
  table : after.table.get? origin.lease.leaseKey = s.table.get? origin.lease.leaseKey
  earlier : ∀ {other worker}, after.places.get? other = some worker →
    ∃ before, s.places.get? other = some before ∧ worker.coordinator.held.get? origin.lease.leaseKey =
      before.coordinator.held.get? origin.lease.leaseKey ∧
        (before.coordinator.Keyed → worker.coordinator.Keyed)
  later : ∀ {worker}, s.places.get? place = some worker →
    ∃ now, after.places.get? place = some now ∧ now.coordinator.held.get? origin.lease.leaseKey =
      worker.coordinator.held.get? origin.lease.leaseKey

/-- A change that concerns neither the lease nor anybody who has to note something about it. -/
structure Quiet (writer : Option Nat) (s : FleetState) (marks : Nat → Stage) (after : FleetState)
    (remarked : Nat → Stage) : Prop extends Unaffected place origin s after where
  threads : ∀ {id thread}, after.threads.get? id = some thread → id < after.started ∧
    ((∃ old, s.threads.get? id = some old ∧ old.place = thread.place ∧ old.job = thread.job ∧
      remarked id = marks id) ∨ (remarked id).Idle place origin stored writer s thread)
  busy : ∀ {id thread}, s.threads.get? id = some thread →
    (marks id).Writes origin.lease.leaseKey ∨ (marks id).Fails origin.lease.leaseKey →
      ∃ now, after.threads.get? id = some now ∧ remarked id = marks id

end

section

variable {place : String} {origin : HeldLease} {stored : Lease} {writer : Option Nat}
  {s after : FleetState} {marks remarked : Nat → Stage} {trace : List (Event Duty Outcome)}
  {event : Event Duty Outcome}

theorem Quiet.stillHeld (quiet : Quiet place origin stored writer s marks after remarked) :
    StillHeld place origin after ↔ StillHeld place origin s := by
  constructor
  · rintro ⟨worker, held, here, holds⟩
    obtain ⟨before, there, same, _⟩ := quiet.earlier here
    exact ⟨before, held, there, same ▸ holds⟩
  · rintro ⟨worker, held, here, holds⟩
    obtain ⟨now, there, same⟩ := quiet.later here
    exact ⟨now, held, there, same.trans holds⟩

theorem Upkept.quiet (upkept : Upkept place origin stored writer s marks)
    (quiet : Quiet place origin stored writer s marks after remarked) :
    Upkept place origin stored writer after remarked where
  table := quiet.table.trans upkept.table
  keyed found := by
    obtain ⟨before, there, _, keyed⟩ := quiet.earlier found
    exact keyed (upkept.keyed there)
  apart found ne := by
    obtain ⟨before, there, same, _⟩ := quiet.earlier found
    exact same.trans (upkept.apart there ne)
  current found holds := by
    obtain ⟨before, there, same, _⟩ := quiet.earlier found
    exact upkept.current there (same ▸ holds)
  sound found := by
    obtain ⟨_, ⟨old, there, samePlace, sameJob, sameMark⟩ | idle⟩ := quiet.threads found
    · rw [sameMark, ← samePlace, ← sameJob]
      exact upkept.sound there
    · exact idle.sound
  fresh found := (quiet.threads found).1
  writes {id} := by
    rw [upkept.writes]
    constructor
    · rintro ⟨thread, found, writes⟩
      obtain ⟨now, there, same⟩ := quiet.busy found (.inl writes)
      exact ⟨now, there, same ▸ writes⟩
    · rintro ⟨thread, found, writes⟩
      obtain ⟨_, ⟨old, there, _, _, sameMark⟩ | idle⟩ := quiet.threads found
      · exact ⟨old, there, sameMark ▸ writes⟩
      · exact absurd writes idle.notWrites

/-- A step that shows nothing of the lease leaves the tally as it is, as long as what it answers is
true. -/
theorem Tally.quiet (tally : Tally place origin stored trace s marks)
    (quiet : Quiet place origin stored writer s marks after remarked)
    (noAttempt : event.attempt? origin.lease.leaseKey = none)
    (noPosition : event.position? origin.lease.leaseKey = none)
    (truth : ∀ outcome, event.answer? place origin.lease.leaseKey origin.token = some outcome →
      Flawless place origin stored trace s marks → outcome = .truth true) :
    Tally place origin stored (trace ++ [event]) after remarked := by
  have sameAttempts : attempts origin.lease.leaseKey (trace ++ [event]) =
      attempts origin.lease.leaseKey trace := attempts_append_of_none noAttempt
  have samePositions : positions origin.lease.leaseKey (trace ++ [event]) =
      positions origin.lease.leaseKey trace := positions_append_of_none noPosition
  refine ⟨?_, ?_, ?_⟩
  · rw [sameAttempts]
    exact tally.tried
  · rw [sameAttempts]
    intro nodup
    have flawless := tally.flawless nodup
    refine ⟨quiet.stillHeld.2 flawless.held, ?_, ?_, ?_⟩
    · intro id thread found
      obtain ⟨_, ⟨old, there, samePlace, sameJob, sameMark⟩ | idle⟩ := quiet.threads found
      · have fine := flawless.threads there
        rw [sameMark]
        refine ⟨fine.notFails, fun atPlace job noted => ?_⟩
        exact fine.kept (samePlace.trans atPlace) (sameJob.trans job) noted
      · exact idle.fine flawless.held
    · intro outcome mem
      rw [answers, List.filterMap_append, List.mem_append] at mem
      rcases mem with mem | mem
      · exact flawless.told outcome mem
      · obtain ⟨shown, isEvent, answered⟩ := List.mem_filterMap.1 mem
        rw [List.mem_singleton] at isEvent
        exact truth outcome (isEvent ▸ answered) flawless
    · rw [samePositions]
      exact flawless.checkpoint
  · rw [sameAttempts, quiet.stillHeld]
    intro crossed held
    obtain ⟨id, thread, found, fails⟩ := tally.lost crossed held
    obtain ⟨now, there, same⟩ := quiet.busy found (.inr fails)
    exact ⟨id, now, there, same ▸ fails⟩

/-! ### Quiet moves -/

theorem Unaffected.of_same (table : after.table.get? origin.lease.leaseKey =
    s.table.get? origin.lease.leaseKey) (places : after.places = s.places) :
    Unaffected place origin s after where
  table := table
  earlier found := ⟨_, places ▸ found, rfl, id⟩
  later found := ⟨_, places.symm ▸ found, rfl⟩

/-- A worker may change, but not with the lease. -/
theorem Unaffected.setPlace {other : String} {worker now : Worker}
    (here : s.places.get? other = some worker)
    (same : now.coordinator.held.get? origin.lease.leaseKey =
      worker.coordinator.held.get? origin.lease.leaseKey)
    (keyed : worker.coordinator.Keyed → now.coordinator.Keyed) :
    Unaffected place origin s (s.setPlace other now) where
  table := rfl
  earlier found := by
    rcases SortedMap.get?_insert_eq_some_iff.1 found with ⟨rfl, rfl⟩ | ⟨_, found⟩
    · exact ⟨worker, here, same, keyed⟩
    · exact ⟨_, found, rfl, id⟩
  later {before} found := by
    by_cases isOther : place = other
    · subst isOther
      rw [here] at found
      cases found
      exact ⟨now, SortedMap.get?_insert_self .., same⟩
    · exact ⟨before, SortedMap.get?_insert_eq_some_iff.2 (.inr ⟨isOther, found⟩), rfl⟩

variable {id : Nat} {thread old : Thread Worker Duty Outcome} {between : FleetState} {mark : Stage}

/-- A thread may go on at the stage at which it is. -/
theorem Quiet.resume (thread : Thread Worker Duty Outcome)
    (upkept : Upkept place origin stored writer s marks)
    (unaffected : Unaffected place origin s between) (threads : between.threads = s.threads)
    (started : between.started = s.started) (found : s.threads.get? id = some old)
    (samePlace : old.place = thread.place) (sameJob : old.job = thread.job) :
    Quiet place origin stored writer s marks (between.goOn id thread) marks where
  table := unaffected.table
  earlier := unaffected.earlier
  later := unaffected.later
  threads {other _} here := by
    have sameStarted : (between.goOn id thread).started = s.started := started
    rw [Interleaving.goOn, threads] at here
    rw [sameStarted]
    rcases SortedMap.get?_insert_eq_some_iff.1 here with ⟨rfl, rfl⟩ | ⟨_, here⟩
    · exact ⟨upkept.fresh found, .inl ⟨old, found, samePlace, sameJob, rfl⟩⟩
    · exact ⟨upkept.fresh here, .inl ⟨_, here, rfl, rfl, rfl⟩⟩
  busy {other other'} here _ := by
    rw [Interleaving.goOn, threads]
    by_cases same : other = id
    · subst same
      exact ⟨thread, SortedMap.get?_insert_self .., rfl⟩
    · exact ⟨other', SortedMap.get?_insert_eq_some_iff.2 (.inr ⟨same, here⟩), rfl⟩

/-- A thread that has nothing to note may come to another such stage. -/
theorem Quiet.remark (upkept : Upkept place origin stored writer s marks)
    (unaffected : Unaffected place origin s between) (threads : between.threads = s.threads)
    (started : between.started = s.started) (found : s.threads.get? id = some old)
    (notBusy : ¬((marks id).Writes origin.lease.leaseKey ∨ (marks id).Fails origin.lease.leaseKey))
    (idle : mark.Idle place origin stored writer s thread) :
    Quiet place origin stored writer s marks (between.goOn id thread) (setMark marks id mark) where
  table := unaffected.table
  earlier := unaffected.earlier
  later := unaffected.later
  threads {other _} here := by
    have sameStarted : (between.goOn id thread).started = s.started := started
    rw [Interleaving.goOn, threads] at here
    rw [sameStarted]
    rcases SortedMap.get?_insert_eq_some_iff.1 here with ⟨rfl, rfl⟩ | ⟨ne, here⟩
    · rw [setMark_self]
      exact ⟨upkept.fresh found, .inr idle⟩
    · exact ⟨upkept.fresh here, .inl ⟨_, here, rfl, rfl, setMark_of_ne marks ne mark⟩⟩
  busy {other other'} here isBusy := by
    rw [Interleaving.goOn, threads]
    have ne : other ≠ id := by
      rintro rfl
      exact notBusy isBusy
    exact ⟨other', SortedMap.get?_insert_eq_some_iff.2 (.inr ⟨ne, here⟩), setMark_of_ne marks ne mark⟩

theorem Quiet.launch {there : String} {duty : Duty}
    (upkept : Upkept place origin stored writer s marks)
    (idle : mark.Idle place origin stored writer s ⟨there, duty, Duty.behaviour duty, []⟩) :
    Quiet place origin stored writer s marks (s.launch Duty.behaviour there duty)
      (setMark marks s.started mark) where
  toUnaffected := .of_same rfl rfl
  threads {other _} here := by
    simp only [Interleaving.launch]
    rcases SortedMap.get?_insert_eq_some_iff.1 here with ⟨rfl, rfl⟩ | ⟨ne, here⟩
    · rw [setMark_self]
      exact ⟨Nat.lt_succ_self _, .inr idle⟩
    · exact ⟨Nat.lt_succ_of_lt (upkept.fresh here),
        .inl ⟨_, here, rfl, rfl, setMark_of_ne marks ne mark⟩⟩
  busy {other other'} here _ := by
    have ne : other ≠ s.started := Nat.ne_of_lt (upkept.fresh here)
    exact ⟨other', SortedMap.get?_insert_eq_some_iff.2 (.inr ⟨ne, here⟩), setMark_of_ne marks ne mark⟩

/-- A thread that has nothing to note may end. -/
theorem Quiet.drop (upkept : Upkept place origin stored writer s marks)
    (notBusy : ¬((marks id).Writes origin.lease.leaseKey ∨ (marks id).Fails origin.lease.leaseKey)) :
    Quiet place origin stored writer s marks (s.drop id) marks where
  toUnaffected := .of_same rfl rfl
  threads here := by
    have before := (SortedMap.get?_erase_eq_some_iff.1 here).2
    exact ⟨upkept.fresh before, .inl ⟨_, before, rfl, rfl, rfl⟩⟩
  busy {other other'} here isBusy := by
    have ne : other ≠ id := by
      rintro rfl
      exact notBusy isBusy
    exact ⟨other', SortedMap.get?_erase_eq_some_iff.2 ⟨ne, here⟩, rfl⟩

theorem Quiet.surroundings (upkept : Upkept place origin stored writer s marks)
    (unaffected : Unaffected place origin s after) (threads : after.threads = s.threads)
    (started : after.started = s.started) :
    Quiet place origin stored writer s marks after marks where
  toUnaffected := unaffected
  threads here := by
    rw [threads] at here
    rw [started]
    exact ⟨upkept.fresh here, .inl ⟨_, here, rfl, rfl, rfl⟩⟩
  busy here _ := ⟨_, threads ▸ here, rfl⟩

end

end LeaseFleet
