import LeaseFleet.Proofs.Fleet.UpkeepWrites

/-!
# Crossing writes

A worker renews a held lease and stores checkpoints of it in threads that do not wait for each
other. Each thread writes against the counter of the copy that it has taken. As long as no counter
is used twice, every write is applied and the lease stays held. Two threads that take their copies
before either has noted its write use one counter, and the refusal of the second one makes the
worker drop a lease that nobody else has touched (`kept_exactly_without_crossing`).
-/

namespace LeaseFleet

section

variable {place : String} {origin : HeldLease} {stored : Lease} {writer : Option Nat}
  {s after between : FleetState} {marks remarked : Nat → Stage} {trace : List (Event Duty Outcome)}
  {event : Event Duty Outcome} {id : Nat} {thread : Thread Worker Duty Outcome} {mark : Stage}
  {held : HeldLease} {deed : Deed}

/-! ## What every move keeps -/

theorem Stage.Idle.of_reads {copies : HeldLease → Prop}
    (sound : (Stage.reads copies).Sound place origin stored writer thread.place thread.job) :
    (Stage.reads copies).Idle place origin stored writer s thread where
  sound := sound
  notWrites := not_false
  fine _ := ⟨not_false, fun _ _ isNoted => by cases isNoted⟩

theorem Stage.Rests.notBusy {leaseKey : String} (rests : mark.Rests) :
    ¬(mark.Writes leaseKey ∨ mark.Fails leaseKey) := by
  cases mark with
  | reads | noted => simp [Writes, Fails]
  | wrote | refused => exact rests.elim

/-- A job that may be started has nothing to note about the lease. -/
theorem Stage.Starts.idle {job : CoordinatorJob} {child later : Stage} {there : String}
    {duty next : Duty} {script : Script Worker Duty (Duty ⊕ Outcome)} {pending : List Nat}
    (starts : mark.Starts job child later)
    (sound : mark.Sound place origin stored writer there duty) :
    later = mark ∧ mark.Rests ∧
      child.Idle place origin stored writer s ⟨there, next, script, pending⟩ := by
  cases starts with
  | renewal copy =>
    refine ⟨rfl, trivial, .of_reads ?_⟩
    rintro held rfl isKey
    exact sound held copy isKey
  | again =>
    refine ⟨rfl, trivial, .of_reads ?_⟩
    exact fun held copied isKey => sound held copied isKey

/-- The surroundings answer nothing that concerns the lease, unless they carry out a call. -/
theorem Unaffected.of_answers {query : Query} {reply : query.Reply}
    (answers : s.Answers query reply between) (notCall : ∀ call, query ≠ .store call) :
    Unaffected place origin s between := by
  refine .of_same ?_ answers.places
  cases answers with
  | stored call => exact absurd rfl (notCall call)
  | _ => rfl

/-- Others do nothing that concerns the lease, if they spare it. -/
theorem Upkept.unaffected_of_outside (upkept : Upkept place origin stored writer s marks)
    {call : StoreCall} {reply : call.Reply} (answers : s.Answers (.store call) reply between)
    (spares : (Event.outside call reply : Event Duty Outcome).Spares origin.lease.leaseKey) :
    Unaffected place origin s (between.keepCopies call reply) := by
  refine .of_same ?_ ((Interleaving.keepCopies_places ..).trans answers.places)
  rw [Interleaving.keepCopies_table]
  cases answers with
  | failed call error => rfl
  | other notCall => exact absurd rfl (notCall call)
  | stored call =>
    cases call with
    | list | isEmpty => rfl
    | delete leaseKey =>
      have ne : origin.lease.leaseKey ≠ leaseKey := fun same => spares same.symm
      simp [LeaseTable.perform, SortedMap.get?_erase, ne]
    | create lease =>
      rcases s.table.create_cases lease with ⟨same, _⟩ | ⟨absent, created⟩
      · simp [LeaseTable.perform, same]
      · have ne : origin.lease.leaseKey ≠ lease.leaseKey := by
          intro same
          rw [← same, upkept.table] at absent
          cases absent
        simp only [LeaseTable.perform, created]
        exact SortedMap.get?_insert_of_ne _ ne _
    | update proposal expected =>
      cases outcome : (s.table.update proposal expected).1 with
      | updated written =>
        have ne : proposal.leaseKey ≠ origin.lease.leaseKey := by
          simpa [Event.Spares, LeaseTable.perform, outcome] using spares
        exact LeaseTable.get?_update_of_ne (Ne.symm ne)
      | versionConflict | notFound =>
        have same : (s.table.update proposal expected).2 = s.table :=
          LeaseTable.update_refused (by simp [outcome])
        simp [LeaseTable.perform, same]

/-- What comes of a write of another lease does not matter. -/
theorem Stage.Idle.of_elsewhere (tends : thread.job.Tends deed held)
    (notKey : held.lease.leaseKey ≠ origin.lease.leaseKey) (outcome : UpdateOutcome)
    (sameKey : ∀ written, outcome = .updated written → written.leaseKey = held.lease.leaseKey) :
    (Stage.ofOutcome held outcome).Idle place origin stored writer s thread := by
  have idle (written : Lease) (isKey : written.leaseKey = held.lease.leaseKey) :
      (Stage.wrote held written).Idle place origin stored writer s thread :=
    ⟨⟨⟨deed, tends⟩, isKey, fun same => absurd same notKey⟩, notKey,
      fun _ => ⟨not_false, fun _ _ isNoted => by cases isNoted⟩⟩
  have dropped : (Stage.refused held).Idle place origin stored writer s thread :=
    ⟨⟨⟨deed, tends⟩, fun same => absurd same notKey⟩, not_false,
      fun _ => ⟨notKey, fun _ _ isNoted => by cases isNoted⟩⟩
  cases outcome with
  | updated written => exact idle written (sameKey written rfl)
  | versionConflict => exact dropped
  | notFound => exact dropped

/-- The write of a copy: of the lease it is applied, if the copy is current, and otherwise it is
refused; of other leases it does not matter. -/
theorem Upkept.write (upkept : Upkept place origin stored writer s marks)
    (tally : Tally place origin stored trace s marks) (found : s.threads.get? id = some thread)
    {copies : HeldLease → Prop} (isAt : marks id = .reads copies) (copied : copies held)
    (tends : thread.job.Tends deed held) (script : Script Worker Duty (Duty ⊕ Outcome)) :
    let update := s.table.update (deed.propose held.lease) held.lease.counter
    let written := Interleaving.goOn { s with table := update.2 } id { thread with script }
    let remarked := setMark marks id (.ofOutcome held update.1)
    ∃ stored writer, Upkept place origin stored writer written remarked ∧
      Tally place origin stored (trace ++ [writeEvent thread deed held update.1]) written remarked := by
  have sound := upkept.sound found
  rw [isAt] at sound
  by_cases isKey : held.lease.leaseKey = origin.lease.leaseKey
  · obtain ⟨isPlace, copy⟩ := sound held copied isKey
    have inTable : s.table.get? (deed.propose held.lease).leaseKey = some stored := by
      rw [Deed.propose_leaseKey, isKey]
      exact upkept.table
    rcases copy.current with ⟨isStored, rfl⟩ | old
    · have applied : s.table.update (deed.propose held.lease) held.lease.counter =
          (.updated (deed.written held.lease), s.table.put (deed.written held.lease)) :=
        LeaseTable.update_of_current inTable (by rw [isStored])
      rw [applied]
      exact ⟨_, _, upkept.applied found tends isPlace copy.token isKey isStored script,
        tally.applied found isAt tends isKey isStored copy.since _ script⟩
    · have refused : s.table.update (deed.propose held.lease) held.lease.counter =
          (.versionConflict, s.table) := LeaseTable.update_of_stale inTable (Nat.ne_of_gt old)
      rw [refused]
      refine ⟨stored, writer, upkept.goOn found ?_ ?_, tally.refused isKey copy.since old _ script⟩
      · exact ⟨⟨deed, tends⟩, fun _ => ⟨isPlace, copy.token⟩⟩
      · rw [isAt]
        exact Iff.rfl
  · have ne : origin.lease.leaseKey ≠ (deed.propose held.lease).leaseKey := by
      rw [Deed.propose_leaseKey]
      exact Ne.symm isKey
    have idle : (Stage.ofOutcome held
        (s.table.update (deed.propose held.lease) held.lease.counter).1).Idle place origin stored
          writer s { thread with script } := by
      have stillTends : (Thread.job { thread with script }).Tends deed held := tends
      refine .of_elsewhere stillTends isKey _ fun written outcome => ?_
      rw [(LeaseTable.update_updated.1 outcome).2]
      exact deed.propose_leaseKey held.lease
    have rests : (marks id).Rests := by
      rw [isAt]
      trivial
    have unaffected : Unaffected place origin s { s with
        table := (s.table.update (deed.propose held.lease) held.lease.counter).2 } :=
      .of_same (LeaseTable.get?_update_of_ne ne) rfl
    have quiet := Quiet.remark upkept unaffected rfl rfl found rests.notBusy idle
    refine ⟨stored, writer, upkept.quiet quiet, tally.quiet quiet ?_ ?_ ?_⟩
    · simp [writeEvent, Event.attempt?, isKey]
    · exact position?_write_of_ne isKey _
    · intro outcome answered
      cases answered

/-- A quiet move that shows nothing keeps everything. -/
theorem Quiet.keeps (quiet : Quiet place origin stored writer s marks after remarked)
    (upkept : Upkept place origin stored writer s marks)
    (tally : Tally place origin stored trace s marks) :
    ∃ stored writer, Upkept place origin stored writer after remarked ∧
      Tally place origin stored (trace ++ [Event.inner]) after remarked :=
  ⟨stored, writer, upkept.quiet quiet, tally.quiet quiet rfl rfl nofun⟩

/-- A noted outcome that is about another lease, or about this one when it is not held, does not
matter. -/
theorem Stage.Idle.of_noted {kept : Bool} (isKept : ∀ {position}, StillHeld place origin s →
    thread.place = place → thread.job =
      .request (.checkpoint origin.lease.leaseKey origin.token position) → kept = true) :
    (Stage.noted kept).Idle place origin stored writer s thread where
  sound := trivial
  notWrites := not_false
  fine stillHeld := ⟨not_false, fun atPlace job isNoted => by
    cases isNoted
    exact isKept stillHeld atPlace job⟩

theorem Duty.Tends.ne_of_elsewhere {duty : Duty} {leaseKey : String} {token : Token}
    {position : Checkpoint} (tends : duty.Tends deed held) (ne : held.lease.leaseKey ≠ leaseKey) :
    duty ≠ .request (.checkpoint leaseKey token position) := by
  rintro rfl
  exact ne tends.2.1

/-- What a worker does with what it holds keeps everything. -/
theorem Upkept.change (upkept : Upkept place origin stored writer s marks)
    (tally : Tally place origin stored trace s marks) (found : s.threads.get? id = some thread)
    {worker now : Worker} (here : s.places.get? thread.place = some worker)
    (steps : Stage.Steps thread.job (marks id) worker.coordinator now.coordinator mark)
    (script : Script Worker Duty (Duty ⊕ Outcome)) :
    ∃ stored writer, Upkept place origin stored writer
      ((s.setPlace thread.place now).goOn id { thread with script }) (setMark marks id mark) ∧
        Tally place origin stored (trace ++ [Event.inner])
          ((s.setPlace thread.place now).goOn id { thread with script }) (setMark marks id mark) := by
  have sound := upkept.sound found
  have same (sameHeld : now.coordinator.held = worker.coordinator.held) :
      Unaffected place origin s (s.setPlace thread.place now) :=
    .setPlace here (by rw [sameHeld]) fun keyed => keyed.of_same_held sameHeld
  generalize isAt : marks id = stage at steps sound
  generalize isBefore : worker.coordinator = before at steps
  generalize isNow : now.coordinator = later at steps
  cases steps with
  | stay sameHeld =>
    subst isAt isBefore isNow
    rw [Discipline.setMark_same]
    have quiet := Quiet.resume { thread with script } upkept (same sameHeld) rfl rfl found rfl rfl
    exact quiet.keeps upkept tally
  | read sameHeld =>
    subst isBefore isNow
    have rests : (marks id).Rests := by
      rw [isAt]
      trivial
    refine (Quiet.remark upkept (same sameHeld) rfl rfl found rests.notBusy (.of_reads ?_)).keeps upkept
      tally
    rintro held ⟨leaseKey, holds⟩ isKey
    obtain rfl : held.lease.leaseKey = leaseKey := upkept.keyed here holds
    rw [isKey] at holds
    by_cases atPlace : thread.place = place
    · rw [atPlace] at here
      exact ⟨atPlace, (upkept.current here holds).1⟩
    · rw [upkept.apart here atPlace] at holds
      cases holds
  | missing sameHeld asked without =>
    subst isBefore isNow
    have rests : (marks id).Rests := by
      rw [isAt]
      trivial
    refine (Quiet.remark upkept (same sameHeld) rfl rfl found rests.notBusy (.of_noted ?_)).keeps upkept
      tally
    rintro position ⟨other, held, there, holds⟩ atPlace job
    cases asked.symm.trans job
    rw [show thread.place = place from atPlace, there] at here
    cases here
    have holdsIt : worker.coordinator.holds origin.lease.leaseKey origin.token = true := by
      simp [Coordinator.holds, holds, (upkept.current there holds).1.token]
    rw [holdsIt] at without
    cases without
  | @confirm held written _ _ time changed =>
    subst isBefore
    rw [← isNow] at changed
    obtain ⟨⟨deed, tends⟩, sameKey, isOurs⟩ := sound
    by_cases isKey : held.lease.leaseKey = origin.lease.leaseKey
    · obtain ⟨rfl, sameToken, rfl⟩ := isOurs isKey
      have writes : (marks id).Writes origin.lease.leaseKey := by
        rw [isAt]
        exact isKey
      have notFails : ¬(marks id).Fails origin.lease.leaseKey := by
        rw [isAt]
        exact not_false
      obtain rfl := upkept.writes.2 ⟨thread, found, writes⟩
      rw [isKey, sameToken] at changed ⊢
      exact ⟨written, none,
        upkept.confirmed found here time (sameKey.trans isKey) changed _,
        tally.confirmed upkept notFails here time changed⟩
    · have notBusy : ¬((marks id).Writes origin.lease.leaseKey ∨
          (marks id).Fails origin.lease.leaseKey) := by
        rw [isAt]
        exact fun busy => busy.elim isKey not_false
      have elsewhere : Unaffected place origin s (s.setPlace thread.place now) := by
        refine .setPlace here ?_ fun keyed => ?_
        · rw [changed]
          exact Coordinator.get?_confirm_of_ne (Ne.symm isKey)
        · rw [changed]
          exact Coordinator.Keyed.confirm keyed sameKey
      refine (Quiet.remark upkept elsewhere rfl rfl found notBusy (.of_noted ?_)).keeps upkept tally
      exact fun _ _ job => absurd job (tends.ne_of_elsewhere isKey)
  | @drop held _ _ changed =>
    subst isBefore
    rw [← isNow] at changed
    obtain ⟨⟨deed, tends⟩, isOurs⟩ := sound
    by_cases isKey : held.lease.leaseKey = origin.lease.leaseKey
    · obtain ⟨rfl, sameToken⟩ := isOurs isKey
      have fails : (marks id).Fails origin.lease.leaseKey := by
        rw [isAt]
        exact isKey
      rw [isKey, sameToken] at changed
      exact ⟨stored, writer, upkept.dropped found fails here changed _,
        tally.dropped upkept found fails here changed⟩
    · have notBusy : ¬((marks id).Writes origin.lease.leaseKey ∨
          (marks id).Fails origin.lease.leaseKey) := by
        rw [isAt]
        exact fun busy => busy.elim not_false isKey
      have elsewhere : Unaffected place origin s (s.setPlace thread.place now) := by
        refine .setPlace here ?_ fun keyed => ?_
        · rw [changed]
          exact Coordinator.get?_drop_of_ne (Ne.symm isKey)
        · rw [changed]
          exact Coordinator.Keyed.drop keyed
      refine (Quiet.remark upkept elsewhere rfl rfl found notBusy (.of_noted ?_)).keeps upkept tally
      exact fun _ _ job => absurd job (tends.ne_of_elsewhere isKey)

theorem Event.answer?_ended {there leaseKey : String} {token : Token} {duty : Duty}
    {result outcome : Outcome}
    (answered : (Event.ended there duty result).answer? place leaseKey token = some outcome) :
    ∃ position, there = place ∧ duty = .request (.checkpoint leaseKey token position) ∧
      result = outcome := by
  unfold Event.answer? at answered
  split at answered
  · rename_i same
    cases same
    split at answered
    · rename_i isOurs
      obtain ⟨rfl, rfl, rfl⟩ := isOurs
      cases answered
      exact ⟨_, rfl, rfl, rfl⟩
    · cases answered
  · cases answered

theorem Stage.Finishes.rests {duty : Duty} {result : Outcome} (finishes : mark.Finishes result duty) :
    mark.Rests := by
  unfold Stage.Finishes at finishes
  split at finishes
  · obtain ⟨kept, rfl, _⟩ := finishes
    trivial
  · exact finishes

/-- A thread whose write of the lease was refused is there to write the lease. -/
theorem Stage.Sound.of_fails {there : String} {duty : Duty}
    (sound : mark.Sound place origin stored writer there duty)
    (fails : mark.Fails origin.lease.leaseKey) :
    there = place ∧ duty.leaseKey? = some origin.lease.leaseKey := by
  cases mark with
  | refused held =>
    obtain ⟨⟨deed, tends⟩, isOurs⟩ := sound
    have isKey : held.lease.leaseKey = origin.lease.leaseKey := fails
    exact ⟨(isOurs isKey).1, by rw [tends.leaseKey, isKey]⟩
  | _ => exact fails.elim

/-- Every move that spares the lease keeps the invariants. -/
theorem Upkept.move {asked : Duty → Prop} (upkept : Upkept place origin stored writer s marks)
    (tally : Tally place origin stored trace s marks)
    (move : upkeepDiscipline.Move Duty.behaviour asked s marks event after remarked)
    (spares : event.Spares origin.lease.leaseKey) :
    ∃ stored writer, Upkept place origin stored writer after remarked ∧
      Tally place origin stored (trace ++ [event]) after remarked := by
  cases move with
  | ask script found answers isOpen =>
    rename_i answered id thread query reply mark
    replace isOpen : Stage.Asks thread.job (marks id) query reply mark := isOpen
    have resumes (notCall : ∀ call, query ≠ .store call) :
        Quiet place origin stored writer s marks (answered.goOn id { thread with script }) marks :=
      Quiet.resume { thread with script } upkept (.of_answers answers notCall) answers.threads
        answers.started found rfl rfl
    cases query with
    | store call =>
      cases call with
      | update proposal expected =>
        cases answers with
        | stored =>
          obtain ⟨copies, deed, held, isAt, copied, tends, rfl, rfl, rfl⟩ := isOpen
          exact upkept.write tally found isAt copied tends script
        | failed _ error => exact isOpen.elim
        | other notCall => exact absurd rfl (notCall _)
      | _ => exact isOpen.elim
    | _ =>
      obtain rfl : mark = marks id := isOpen
      rw [Discipline.setMark_same]
      exact (resumes (by simp)).keeps upkept tally
  | change script found here isOpen => exact upkept.change tally found here isOpen script
  | stay script pending found =>
    rename_i id thread
    have quiet := Quiet.resume { thread with script, pending } upkept (.of_same rfl rfl) rfl rfl found
      rfl rfl
    exact quiet.keeps upkept tally
  | spawn thread found isOpen =>
    rename_i id job child later
    obtain ⟨worker, rfl, inner, rfl, starts⟩ := isOpen
    obtain ⟨rfl, _, idle⟩ := starts.idle (upkept.sound found)
    rw [Discipline.setMark_same]
    exact (Quiet.launch upkept idle).keeps upkept tally
  | follow found isOpen =>
    rename_i id thread job child
    obtain ⟨worker, rfl, inner, rfl, starts⟩ := isOpen
    obtain ⟨_, rests, idle⟩ := starts.idle (upkept.sound found)
    exact (Quiet.remark upkept (.of_same rfl rfl) rfl rfl found rests.notBusy idle).keeps upkept tally
  | finish found isOpen =>
    rename_i id thread result
    replace isOpen : (marks id).Finishes result thread.job := isOpen
    have quiet := Quiet.drop upkept isOpen.rests.notBusy
    refine ⟨stored, writer, upkept.quiet quiet, tally.quiet quiet rfl rfl ?_⟩
    intro outcome answered flawless
    obtain ⟨position, atPlace, job, rfl⟩ := Event.answer?_ended answered
    rw [job] at isOpen
    obtain ⟨kept, isNoted, rfl⟩ := isOpen
    rw [(flawless.threads found).kept atPlace job isNoted]
  | begin known may =>
    rename_i there duty
    have idle : (Stage.reads fun _ => False).Idle place origin stored writer s
        ⟨there, duty, Duty.behaviour duty, []⟩ := .of_reads fun held copied => copied.elim
    have quiet := Quiet.launch upkept idle
    exact ⟨stored, writer, upkept.quiet quiet, tally.quiet quiet rfl rfl nofun⟩
  | outside may answers =>
    rename_i answered call reply
    have threads : (answered.keepCopies call reply).threads = s.threads := by
      rw [Interleaving.keepCopies_threads, answers.threads]
    have started : (answered.keepCopies call reply).started = s.started := by
      rw [Interleaving.keepCopies_started, answers.started]
    have quiet := Quiet.surroundings upkept (upkept.unaffected_of_outside answers spares) threads started
    exact ⟨stored, writer, upkept.quiet quiet, tally.quiet quiet rfl rfl nofun⟩

/-! ## Runs -/

/-- At the start nothing has been written. -/
theorem HoldsAlone.upkept (alone : HoldsAlone place origin s) :
    Upkept place origin origin.lease none s fun _ => upkeepDiscipline.idle where
  table := alone.stored
  keyed := alone.keyed
  apart := alone.apart
  current found holds := by
    obtain ⟨worker, here, held⟩ := alone.holds
    cases here.symm.trans found
    cases held.symm.trans holds
    exact ⟨⟨rfl, Nat.le_refl _, .inl ⟨rfl, rfl⟩⟩, fun _ => rfl⟩
  sound found := by simp [alone.idle] at found
  fresh found := by simp [alone.idle] at found
  writes := by simp [alone.idle]

theorem HoldsAlone.tally (alone : HoldsAlone place origin s) :
    Tally place origin origin.lease [] s fun _ => upkeepDiscipline.idle where
  tried := by simp [attempts]
  flawless _ := by
    obtain ⟨worker, here, held⟩ := alone.holds
    refine ⟨⟨worker, origin, here, held⟩, ?_, ?_, ?_⟩
    · intro id thread found
      simp [alone.idle] at found
    · intro outcome mem
      cases mem
    · rfl
  lost crossed := absurd List.nodup_nil crossed

theorem Tally.of_inner (tally : Tally place origin stored (trace ++ [Event.inner]) s marks) :
    Tally place origin stored trace s marks := by
  refine ⟨?_, ?_, ?_⟩
  · rw [← attempts_append_inner]
    exact tally.tried
  · rw [← attempts_append_inner]
    intro nodup
    have flawless := tally.flawless nodup
    refine ⟨flawless.held, flawless.threads, ?_, ?_⟩
    · intro outcome mem
      rw [← answers_append_inner] at mem
      exact flawless.told outcome mem
    · rw [← positions_append_inner]
      exact flawless.checkpoint
  · rw [← attempts_append_inner]
    exact tally.lost

/-- A thread of which no call fails hears no failure. -/
theorem succeeds_of_spares {there leaseKey : String} {duty : Duty} {query : Query}
    {reply : query.Reply}
    (spares : (Event.ofAnswer there duty query reply : Event Duty Outcome).Spares leaseKey) :
    Succeeds query reply := by
  cases query with
  | store call =>
    cases reply with
    | error error => exact spares
    | ok answer => trivial
  | _ => trivial

/-- The invariants hold after every run of upkeep that spares the lease. -/
theorem upkept_of_run {first : FleetState} (alone : HoldsAlone place origin first)
    (run : Interleaving.Run Duty.behaviour Duty.IsUpkeep first trace s)
    (spares : ∀ event ∈ trace, event.Spares origin.lease.leaseKey) :
    ∃ marks stored writer, Upkept place origin stored writer s marks ∧
      Tally place origin stored trace s marks := by
  obtain ⟨marks, _, kept⟩ := Discipline.Run.keeps_marked
    (fun trace s marks => ∃ stored writer, Upkept place origin stored writer s marks ∧
      Tally place origin stored trace s marks)
    (fun event => event.Spares origin.lease.leaseKey) upkeepDiscipline_obeyed
    (fun ⟨_, _, upkept, tally⟩ move spares => upkept.move tally move spares)
    (fun ⟨stored, writer, upkept, tally⟩ => ⟨stored, writer, upkept, tally.of_inner⟩)
    (fun _ ⟨_, _, upkept, _⟩ found => upkept.keyed found)
    (fun spares _ => succeeds_of_spares spares)
    (Discipline.marked_of_no_threads _ alone.idle) ⟨_, _, alone.upkept, alone.tally⟩ run spares
  exact ⟨marks, kept⟩

/-- In every run in which workers only keep up what they hold, nobody else writes or deletes a lease
that one of them holds alone, and no call fails: as long as no counter was tried twice for that
lease, the worker holds it under its token, every request to store a checkpoint under that token was
answered by `true`, and the stored checkpoint is the one that was tried last. Once a counter was
tried twice, the worker does not hold the lease any more as soon as no thread is about to write
it. -/
theorem kept_exactly_without_crossing {first : FleetState} (alone : HoldsAlone place origin first)
    (run : Interleaving.Run Duty.behaviour Duty.IsUpkeep first trace s)
    (spares : ∀ event ∈ trace, event.Spares origin.lease.leaseKey) :
    ((attempts origin.lease.leaseKey trace).Nodup →
      (∃ worker held, s.places.get? place = some worker ∧
        worker.coordinator.held.get? origin.lease.leaseKey = some held ∧ held.token = origin.token) ∧
      (∀ outcome ∈ answers place origin.lease.leaseKey origin.token trace, outcome = .truth true) ∧
      ∃ stored, s.table.get? origin.lease.leaseKey = some stored ∧ stored.checkpoint =
        (positions origin.lease.leaseKey trace).getLastD origin.lease.checkpoint) ∧
    (¬(attempts origin.lease.leaseKey trace).Nodup →
      (∀ {id thread}, s.threads.get? id = some thread → thread.place = place →
        thread.job.leaseKey? ≠ some origin.lease.leaseKey) →
      ∀ {worker}, s.places.get? place = some worker →
        worker.coordinator.held.get? origin.lease.leaseKey = none) := by
  obtain ⟨marks, stored, writer, upkept, tally⟩ := upkept_of_run alone run spares
  refine ⟨fun nodup => ?_, fun crossed idle worker here => ?_⟩
  · have flawless := tally.flawless nodup
    obtain ⟨worker, held, here, holds⟩ := flawless.held
    refine ⟨⟨worker, held, here, holds, ?_⟩, flawless.told, stored, upkept.table, flawless.checkpoint⟩
    exact (upkept.current here holds).1.token
  · cases holds : worker.coordinator.held.get? origin.lease.leaseKey with
    | none => rfl
    | some held =>
      obtain ⟨id, thread, found, fails⟩ := tally.lost crossed ⟨worker, held, here, holds⟩
      obtain ⟨atPlace, about⟩ := (upkept.sound found).of_fails fails
      exact absurd about (idle found atPlace)

end

/-- A lease that a worker holds, at the counter 1. -/
def loneHeld : HeldLease where
  lease := { leaseKey := "a", shardId := "a", owner := some "w1", counter := 1 }
  token := ⟨0⟩
  lastRenewal := 0

/-- The worker alone, with its lease in the table. -/
def lone : FleetState :=
  let setup : WorkerSetup := { workerId := "w1", region := "r", account := "c" }
  { table := .ofLeases [loneHeld.lease]
    places := SortedMap.empty.insert "w1" { setup.worker with
      coordinator := setup.worker.coordinator.hold loneHeld.lease loneHeld.token 0 }
    tokens := 1 }

theorem lone_holdsAlone : HoldsAlone "w1" loneHeld lone where
  idle := rfl
  keyed found := by
    rcases SortedMap.get?_insert_eq_some_iff.1 found with ⟨rfl, rfl⟩ | ⟨_, found⟩
    · intro leaseKey held holds
      rcases SortedMap.get?_insert_eq_some_iff.1 holds with ⟨rfl, rfl⟩ | ⟨_, holds⟩
      · rfl
      · cases holds
    · cases found
  holds := ⟨_, SortedMap.get?_insert_self .., SortedMap.get?_insert_self ..⟩
  apart found ne := by
    rcases SortedMap.get?_insert_eq_some_iff.1 found with ⟨rfl, rfl⟩ | ⟨_, found⟩
    · exact absurd rfl ne
    · cases found
  stored := by decide +kernel

/-- What happens when a schedule is played to the worker. -/
def lonePlays (choices : List (Interleaving.Choice Duty)) : List (Event Duty Outcome) × FleetState :=
  Interleaving.play Duty.behaviour Duty.IsUpkeep choices ([], lone)

/-- A renewal and then a checkpoint. -/
def inTurn : List (Event Duty Outcome) × FleetState :=
  lonePlays (List.flatten [
    [.begin "w1" (.request .renew)], Interleaving.acts 0 2, Interleaving.acts 1 20,
    Interleaving.acts 0 20,
    [.begin "w1" (.request (.checkpoint "a" ⟨0⟩ (.sequence "7")))], Interleaving.acts 2 20])

/-- A checkpoint is begun when a renewal was stored and not noted yet. -/
def crossed : List (Event Duty Outcome) × FleetState :=
  lonePlays (List.flatten [
    [.begin "w1" (.request .renew)], Interleaving.acts 0 2, Interleaving.acts 1 2,
    [.begin "w1" (.request (.checkpoint "a" ⟨0⟩ (.sequence "7")))], Interleaving.acts 2 20,
    Interleaving.acts 1 20, Interleaving.acts 0 20])

theorem lonePlays_run (choices : List (Interleaving.Choice Duty)) :
    Interleaving.Run Duty.behaviour Duty.IsUpkeep lone (lonePlays choices).1 (lonePlays choices).2 :=
  Interleaving.run_play choices (.refl _)

/-- In turn, both writes are applied and the lease stays held. Crossed, the checkpoint is answered
by `false` and the lease is lost, though nobody but its worker has ever written it. -/
theorem kept_in_turn_and_lost_when_crossed :
    ((∃ worker held, inTurn.2.places.get? "w1" = some worker ∧
        worker.coordinator.held.get? "a" = some held ∧ held.token = ⟨0⟩) ∧
      (∀ outcome ∈ answers "w1" "a" ⟨0⟩ inTurn.1, outcome = .truth true) ∧
      ∃ stored, inTurn.2.table.get? "a" = some stored ∧ stored.checkpoint = .sequence "7") ∧
    .truth false ∈ answers "w1" "a" ⟨0⟩ crossed.1 ∧
    ∀ {worker}, crossed.2.places.get? "w1" = some worker →
      worker.coordinator.held.get? "a" = none := by
  have first : Interleaving.Run Duty.behaviour Duty.IsUpkeep lone inTurn.1 inTurn.2 := lonePlays_run _
  have second : Interleaving.Run Duty.behaviour Duty.IsUpkeep lone crossed.1 crossed.2 :=
    lonePlays_run _
  obtain ⟨kept, _⟩ := kept_exactly_without_crossing lone_holdsAlone first
    (by decide +kernel : ∀ event ∈ inTurn.1, event.Spares "a")
  obtain ⟨_, lost⟩ := kept_exactly_without_crossing lone_holdsAlone second
    (by decide +kernel : ∀ event ∈ crossed.1, event.Spares "a")
  refine ⟨?_, ?_, ?_⟩
  · obtain ⟨held, told, stored, found, last⟩ :=
      kept (by decide +kernel : (attempts "a" inTurn.1).Nodup)
    have positions : (positions "a" inTurn.1).getLastD .trimHorizon = .sequence "7" := by
      decide +kernel
    exact ⟨held, told, stored, found, last.trans positions⟩
  · have isTold : (answers "w1" "a" ⟨0⟩ crossed.1).any (· matches .truth false) = true := by
      decide +kernel
    obtain ⟨outcome, mem, isFalse⟩ := List.any_eq_true.1 isTold
    split at isFalse
    · exact mem
    · cases isFalse
  · refine lost (by decide +kernel : ¬(attempts "a" crossed.1).Nodup) fun {id thread} found => ?_
    have ended : crossed.2.threads.keys = [] := by decide +kernel
    have mem : id ∈ crossed.2.threads.keys := SortedMap.mem_keys.2 (by simp [SortedMap.contains, found])
    rw [ended] at mem
    cases mem

end LeaseFleet
