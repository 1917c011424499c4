import LeaseFleet.Proofs.Fleet.UpkeptLease

/-!
# Writing one lease

The moves that do concern the lease: a write that is applied or refused, and what the worker notes
of it. A write from a copy is applied if and only if the copy is the stored version, and after a
refusal the worker drops the lease.
-/

namespace LeaseFleet

section

variable {place : String} {origin : HeldLease} {stored : Lease} {writer : Option Nat}
  {s : FleetState} {marks : Nat → Stage} {trace : List (Event Duty Outcome)} {id : Nat}
  {thread old : Thread Worker Duty Outcome} {mark : Stage} {held : HeldLease} {deed : Deed}

/-- What is sound with a version is so with a later one that was written by a copy of it. -/
theorem Stage.Sound.advance {written : Lease} {there : String} {duty : Duty} (id : Nat)
    (sound : mark.Sound place origin stored none there duty)
    (notWrites : ¬mark.Writes origin.lease.leaseKey) (rises : stored.counter < written.counter) :
    mark.Sound place origin written (some id) there duty := by
  cases mark with
  | reads copies =>
    intro held copied isKey
    obtain ⟨isPlace, copy⟩ := sound held copied isKey
    refine ⟨isPlace, copy.token, copy.since, .inr ?_⟩
    rcases copy.current with ⟨rfl, _⟩ | lt
    · exact rises
    · exact Nat.lt_trans lt rises
  | wrote held stored => exact ⟨sound.1, sound.2.1, fun isKey => absurd isKey notWrites⟩
  | refused held => exact sound
  | noted kept => exact sound

/-- Copies that are older than a version that has yet to be noted are so when it has been. -/
theorem Stage.Sound.settle {there : String} {duty : Duty}
    (sound : mark.Sound place origin stored (some id) there duty) :
    mark.Sound place origin stored none there duty := by
  cases mark with
  | reads copies =>
    intro held copied isKey
    obtain ⟨isPlace, copy⟩ := sound held copied isKey
    refine ⟨isPlace, copy.token, copy.since, .inr ?_⟩
    rcases copy.current with ⟨_, impossible⟩ | lt
    · cases impossible
    · exact lt
  | _ => exact sound

/-- A thread may come to another stage, if that says the same of applied writes. -/
theorem Upkept.goOn (upkept : Upkept place origin stored writer s marks)
    (found : s.threads.get? id = some old)
    (sound : mark.Sound place origin stored writer thread.place thread.job)
    (sameWrites : mark.Writes origin.lease.leaseKey ↔ (marks id).Writes origin.lease.leaseKey) :
    Upkept place origin stored writer (s.goOn id thread) (setMark marks id mark) where
  table := upkept.table
  keyed := upkept.keyed
  apart := upkept.apart
  current := upkept.current
  sound here :=
    forall_threads_insert
      (P := fun there (mark : Stage) => mark.Sound place origin stored writer there.place there.job) sound
      (fun _ => upkept.sound) here
  fresh here :=
    SortedMap.forall_insert (P := fun other _ => other < s.started) (upkept.fresh found)
      (fun _ => upkept.fresh) here
  writes {other} := by
    rw [upkept.writes]
    by_cases same : other = id
    · subst same
      simp only [Interleaving.goOn, SortedMap.get?_insert_self, setMark_self, found, sameWrites]
      simp
    · simp only [Interleaving.goOn, SortedMap.get?_insert_of_ne _ same, setMark_of_ne marks same]

/-- A write of the stored version is applied, and then has to be noted. -/
theorem Upkept.applied (upkept : Upkept place origin stored none s marks)
    (found : s.threads.get? id = some thread) (tends : thread.job.Tends deed held)
    (isPlace : thread.place = place) (sameToken : held.token = origin.token)
    (isKey : held.lease.leaseKey = origin.lease.leaseKey) (isStored : held.lease = stored)
    (script : Script Worker Duty (Duty ⊕ Outcome)) :
    Upkept place origin (deed.written held.lease) (some id)
      (Interleaving.goOn { s with table := s.table.put (deed.written held.lease) } id
        { thread with script })
      (setMark marks id (.wrote held (deed.written held.lease))) := by
  subst isStored
  have notWrites {other : Nat} {thread : Thread Worker Duty Outcome}
      (here : s.threads.get? other = some thread) : ¬(marks other).Writes origin.lease.leaseKey := by
    intro writes
    cases upkept.writes.2 ⟨thread, here, writes⟩
  refine ⟨?_, upkept.keyed, upkept.apart, ?_, ?_, ?_, ?_⟩
  · rw [← isKey, ← deed.written_leaseKey held.lease]
    exact SortedMap.get?_insert_self ..
  · intro worker other here holds
    obtain ⟨copy, same⟩ := upkept.current here holds
    refine ⟨⟨copy.token, copy.since, .inr ?_⟩, nofun⟩
    rw [same rfl, Deed.written_counter]
    exact Nat.lt_succ_self _
  · refine forall_threads_insert (P := fun there (mark : Stage) => mark.Sound place origin
      (deed.written held.lease) (some id) there.place there.job) ?_ ?_
    · exact ⟨⟨deed, tends⟩, deed.written_leaseKey held.lease, fun _ => ⟨isPlace, sameToken, rfl⟩⟩
    · exact fun _ here => (upkept.sound here).advance id (notWrites here) (Nat.lt_succ_self _)
  · exact SortedMap.forall_insert (P := fun other _ => other < s.started) (upkept.fresh found)
      fun _ => upkept.fresh
  · intro other
    constructor
    · intro same
      cases same
      exact ⟨_, SortedMap.get?_insert_self .., by rw [setMark_self]; exact isKey⟩
    · rintro ⟨there, here, writes⟩
      rcases SortedMap.get?_insert_eq_some_iff.1 here with ⟨rfl, rfl⟩ | ⟨ne, here⟩
      · rfl
      · rw [setMark_of_ne marks ne] at writes
        exact absurd writes (notWrites here)

/-- The worker notes the version that was written, if it still holds the lease. -/
theorem Upkept.confirmed (upkept : Upkept place origin stored (some id) s marks)
    (found : s.threads.get? id = some old) {worker now : Worker}
    (here : s.places.get? place = some worker) (time : Nat) (isKey : stored.leaseKey = origin.lease.leaseKey)
    (changed : now.coordinator =
      worker.coordinator.confirm origin.lease.leaseKey origin.token stored time) (kept : Bool) :
    Upkept place origin stored none ((s.setPlace place now).goOn id thread)
      (setMark marks id (.noted kept)) := by
  refine ⟨upkept.table, ?_, ?_, ?_, ?_, ?_, ?_⟩
  · refine SortedMap.forall_insert (P := fun _ (worker : Worker) => worker.coordinator.Keyed) ?_
      fun _ => upkept.keyed
    rw [changed]
    exact Coordinator.Keyed.confirm (upkept.keyed here) isKey
  · intro other later at_ ne
    rcases SortedMap.get?_insert_eq_some_iff.1 at_ with ⟨rfl, rfl⟩ | ⟨_, at_⟩
    · exact absurd rfl ne
    · exact upkept.apart at_ ne
  · intro later held at_ holds
    rcases SortedMap.get?_insert_eq_some_iff.1 at_ with ⟨_, rfl⟩ | ⟨ne, _⟩
    · rw [changed] at holds
      cases before : worker.coordinator.held.get? origin.lease.leaseKey with
      | none =>
        rw [Coordinator.confirm_of_missing before, before] at holds
        cases holds
      | some earlier =>
        obtain ⟨copy, _⟩ := upkept.current here before
        rw [Coordinator.get?_confirm_self before copy.token] at holds
        cases holds
        refine ⟨⟨rfl, ?_, .inl ⟨rfl, rfl⟩⟩, fun _ => rfl⟩
        rcases copy.current with ⟨_, impossible⟩ | lt
        · cases impossible
        · exact Nat.le_of_lt (Nat.lt_of_le_of_lt copy.since lt)
    · exact absurd rfl ne
  · refine forall_threads_insert (P := fun there (mark : Stage) => mark.Sound place origin stored none
      there.place there.job) ?_ fun _ here => (upkept.sound here).settle
    trivial
  · exact SortedMap.forall_insert (P := fun other _ => other < s.started) (upkept.fresh found)
      fun _ => upkept.fresh
  · intro other
    refine ⟨nofun, ?_⟩
    rintro ⟨there, here, writes⟩
    rcases SortedMap.get?_insert_eq_some_iff.1 here with ⟨rfl, rfl⟩ | ⟨ne, here⟩
    · rw [setMark_self] at writes
      exact writes.elim
    · rw [setMark_of_ne marks ne] at writes
      cases upkept.writes.2 ⟨there, here, writes⟩
      exact absurd rfl ne

/-- The worker drops the lease. -/
theorem Upkept.dropped (upkept : Upkept place origin stored writer s marks)
    (found : s.threads.get? id = some old) (fails : (marks id).Fails origin.lease.leaseKey)
    {worker now : Worker} (here : s.places.get? place = some worker)
    (changed : now.coordinator = worker.coordinator.drop origin.lease.leaseKey origin.token)
    (kept : Bool) :
    Upkept place origin stored writer ((s.setPlace place now).goOn id thread)
      (setMark marks id (.noted kept)) := by
  have dropped : Upkept place origin stored writer (s.setPlace place now) marks := by
    refine ⟨upkept.table, ?_, ?_, ?_, upkept.sound, upkept.fresh, upkept.writes⟩
    · refine SortedMap.forall_insert (P := fun _ (worker : Worker) => worker.coordinator.Keyed) ?_
        fun _ => upkept.keyed
      rw [changed]
      exact Coordinator.Keyed.drop (upkept.keyed here)
    · intro other later at_ ne
      rcases SortedMap.get?_insert_eq_some_iff.1 at_ with ⟨rfl, rfl⟩ | ⟨_, at_⟩
      · exact absurd rfl ne
      · exact upkept.apart at_ ne
    · intro later held at_ holds
      rcases SortedMap.get?_insert_eq_some_iff.1 at_ with ⟨_, rfl⟩ | ⟨ne, _⟩
      · rw [changed] at holds
        exact upkept.current here (Coordinator.get?_drop_eq_some holds)
      · exact absurd rfl ne
  have notWrites : ¬(marks id).Writes origin.lease.leaseKey := by
    intro writes
    cases isAt : marks id <;> simp [isAt, Stage.Writes, Stage.Fails] at writes fails
  exact dropped.goOn found trivial ⟨fun writes => writes.elim, fun writes => absurd writes notWrites⟩

/-! ## The tally of the writes -/

/-- The step that shows the write of a copy by a thread. -/
def writeEvent (thread : Thread Worker Duty Outcome) (deed : Deed) (held : HeldLease)
    (outcome : UpdateOutcome) : Event Duty Outcome :=
  .called thread.place thread.job (.update (deed.propose held.lease) held.lease.counter) (.ok outcome)

theorem attempts_append_write (isKey : held.lease.leaseKey = origin.lease.leaseKey)
    (outcome : UpdateOutcome) :
    attempts origin.lease.leaseKey (trace ++ [writeEvent thread deed held outcome]) =
      attempts origin.lease.leaseKey trace ++ [held.lease.counter] := by
  refine attempts_append_of_some ?_
  have sameKey : (deed.propose held.lease).leaseKey = origin.lease.leaseKey := by
    rw [Deed.propose_leaseKey, isKey]
  exact if_pos sameKey

theorem position?_write_of_ne {leaseKey : String} (ne : held.lease.leaseKey ≠ leaseKey)
    (outcome : UpdateOutcome) :
    (writeEvent thread deed held outcome).position? leaseKey = none := by
  obtain ⟨there, duty, script, pending⟩ := thread
  unfold writeEvent Event.position?
  split
  · rename_i same
    cases same
    simp [ne]
  · rfl

/-- The last checkpoint that was tried is the one that the write leaves, if it was so before. -/
theorem positions_append_write (tends : thread.job.Tends deed held)
    (isKey : held.lease.leaseKey = origin.lease.leaseKey) (outcome : UpdateOutcome)
    (before : held.lease.checkpoint =
      (positions origin.lease.leaseKey trace).getLastD origin.lease.checkpoint) :
    (deed.written held.lease).checkpoint =
      (positions origin.lease.leaseKey (trace ++ [writeEvent thread deed held outcome])).getLastD
        origin.lease.checkpoint := by
  obtain ⟨there, duty, script, pending⟩ := thread
  unfold Duty.Tends at tends
  dsimp only at tends
  split at tends
  · obtain ⟨rfl, rfl⟩ := tends
    rw [positions_append_of_none rfl]
    exact before
  · rename_i position
    obtain ⟨rfl, rfl, rfl⟩ := tends
    have shown : (writeEvent ⟨there, .request (.checkpoint held.lease.leaseKey held.token position),
        script, pending⟩ (.checkpoint position) held outcome).position? origin.lease.leaseKey =
          some position := if_pos isKey
    rw [positions_append_of_some shown, List.getLastD_concat]
    rfl
  · exact tends.elim

theorem Tally.applied (tally : Tally place origin stored trace s marks)
    (found : s.threads.get? id = some thread) {copies : HeldLease → Prop}
    (isAt : marks id = .reads copies) (tends : thread.job.Tends deed held)
    (isKey : held.lease.leaseKey = origin.lease.leaseKey) (isStored : held.lease = stored)
    (since : origin.lease.counter ≤ held.lease.counter) (outcome : UpdateOutcome)
    (script : Script Worker Duty (Duty ⊕ Outcome)) :
    Tally place origin (deed.written held.lease) (trace ++ [writeEvent thread deed held outcome])
      (Interleaving.goOn { s with table := s.table.put (deed.written held.lease) } id
        { thread with script })
      (setMark marks id (.wrote held (deed.written held.lease))) := by
  subst isStored
  have isNew : ∀ counter ∈ attempts origin.lease.leaseKey trace, counter ≠ held.lease.counter := by
    intro counter mem
    exact Nat.ne_of_lt (tally.tried.1 mem).2
  have nodup_iff : (attempts origin.lease.leaseKey trace ++ [held.lease.counter]).Nodup ↔
      (attempts origin.lease.leaseKey trace).Nodup := by
    rw [List.nodup_append]
    constructor
    · exact fun both => both.1
    · intro nodup
      refine ⟨nodup, by simp, ?_⟩
      intro counter mem other isLast
      rw [List.mem_singleton.1 isLast]
      exact isNew counter mem
  refine ⟨?_, ?_, ?_⟩
  · intro counter
    rw [attempts_append_write isKey, List.mem_append, List.mem_singleton, tally.tried,
      Deed.written_counter]
    omega
  · rw [attempts_append_write isKey, nodup_iff]
    intro nodup
    have flawless := tally.flawless nodup
    refine ⟨flawless.held, ?_, ?_, ?_⟩
    · refine forall_threads_insert (P := fun there (mark : Stage) => mark.Fine place origin there) ?_
        fun _ => flawless.threads
      exact ⟨not_false, fun _ _ noted => by cases noted⟩
    · rw [answers_append_of_none rfl]
      exact flawless.told
    · exact positions_append_write tends isKey outcome flawless.checkpoint
  · rw [attempts_append_write isKey, nodup_iff]
    intro crossed stillHeld
    obtain ⟨other, there, here, fails⟩ := tally.lost crossed stillHeld
    have ne : other ≠ id := by
      rintro rfl
      rw [isAt] at fails
      exact fails
    refine ⟨other, there, SortedMap.get?_insert_eq_some_iff.2 (.inr ⟨ne, here⟩), ?_⟩
    rwa [setMark_of_ne marks ne]

/-- A write against a counter below the stored one uses it a second time. -/
theorem Tally.refused (tally : Tally place origin stored trace s marks)
    (isKey : held.lease.leaseKey = origin.lease.leaseKey)
    (since : origin.lease.counter ≤ held.lease.counter)
    (old : held.lease.counter < stored.counter) (outcome : UpdateOutcome)
    (script : Script Worker Duty (Duty ⊕ Outcome)) :
    Tally place origin stored (trace ++ [writeEvent thread deed held outcome])
      (s.goOn id { thread with script }) (setMark marks id (.refused held)) := by
  have again : held.lease.counter ∈ attempts origin.lease.leaseKey trace :=
    tally.tried.2 ⟨since, old⟩
  have crossed : ¬(attempts origin.lease.leaseKey trace ++ [held.lease.counter]).Nodup := by
    intro nodup
    exact (List.nodup_append.1 nodup).2.2 _ again _ (List.mem_singleton_self _) rfl
  refine ⟨?_, ?_, ?_⟩
  · intro counter
    rw [attempts_append_write isKey, List.mem_append, List.mem_singleton, ← tally.tried]
    constructor
    · rintro (mem | rfl)
      · exact mem
      · exact again
    · exact .inl
  · rw [attempts_append_write isKey]
    exact fun nodup => absurd nodup crossed
  · intro _ _
    refine ⟨id, _, SortedMap.get?_insert_self .., ?_⟩
    rw [setMark_self]
    exact isKey

theorem Tally.confirmed (tally : Tally place origin stored trace s marks)
    (upkept : Upkept place origin stored writer s marks)
    (notFails : ¬(marks id).Fails origin.lease.leaseKey) {worker now : Worker}
    (here : s.places.get? place = some worker) (time : Nat)
    (changed : now.coordinator =
      worker.coordinator.confirm origin.lease.leaseKey origin.token stored time) :
    Tally place origin stored (trace ++ [Event.inner]) ((s.setPlace place now).goOn id thread)
      (setMark marks id (.noted (worker.coordinator.holds origin.lease.leaseKey origin.token))) := by
  have heldBefore : StillHeld place origin ((s.setPlace place now).goOn id thread) →
      StillHeld place origin s := by
    rintro ⟨later, held, at_, holds⟩
    rcases SortedMap.get?_insert_eq_some_iff.1 at_ with ⟨_, rfl⟩ | ⟨ne, _⟩
    · rw [changed] at holds
      cases before : worker.coordinator.held.get? origin.lease.leaseKey with
      | none =>
        rw [Coordinator.confirm_of_missing before, before] at holds
        cases holds
      | some earlier => exact ⟨worker, earlier, here, before⟩
    · exact absurd rfl ne
  refine ⟨?_, ?_, ?_⟩
  · rw [attempts_append_inner]
    exact tally.tried
  · rw [attempts_append_inner]
    intro nodup
    have flawless := tally.flawless nodup
    obtain ⟨same, held, there, before⟩ := flawless.held
    obtain rfl : worker = same := Option.some.inj (here.symm.trans there)
    have sameToken := (upkept.current here before).1.token
    refine ⟨⟨now, ⟨stored, origin.token, time⟩, SortedMap.get?_insert_self .., ?_⟩, ?_, ?_, ?_⟩
    · rw [changed]
      exact Coordinator.get?_confirm_self before sameToken
    · refine forall_threads_insert (P := fun there (mark : Stage) => mark.Fine place origin there) ?_
        fun _ => flawless.threads
      have holds : worker.coordinator.holds origin.lease.leaseKey origin.token = true := by
        simp [Coordinator.holds, before, sameToken]
      rw [holds]
      exact ⟨not_false, fun _ _ noted => by cases noted; rfl⟩
    · intro outcome mem
      rw [answers_append_inner] at mem
      exact flawless.told outcome mem
    · rw [positions_append_inner]
      exact flawless.checkpoint
  · rw [attempts_append_inner]
    intro crossed stillHeld
    obtain ⟨other, there, here, fails⟩ := tally.lost crossed (heldBefore stillHeld)
    have ne : other ≠ id := by
      rintro rfl
      exact notFails fails
    refine ⟨other, there, SortedMap.get?_insert_eq_some_iff.2 (.inr ⟨ne, here⟩), ?_⟩
    rwa [setMark_of_ne marks ne]

/-- After a refusal the lease is lost. -/
theorem Tally.dropped (tally : Tally place origin stored trace s marks)
    (upkept : Upkept place origin stored writer s marks) (found : s.threads.get? id = some old)
    (fails : (marks id).Fails origin.lease.leaseKey) {worker now : Worker}
    (here : s.places.get? place = some worker)
    (changed : now.coordinator = worker.coordinator.drop origin.lease.leaseKey origin.token) :
    Tally place origin stored (trace ++ [Event.inner]) ((s.setPlace place now).goOn id thread)
      (setMark marks id (.noted false)) := by
  refine ⟨?_, ?_, ?_⟩
  · rw [attempts_append_inner]
    exact tally.tried
  · rw [attempts_append_inner]
    intro nodup
    exact absurd fails ((tally.flawless nodup).threads found).notFails
  · rintro _ ⟨later, held, at_, holds⟩
    rcases SortedMap.get?_insert_eq_some_iff.1 at_ with ⟨_, rfl⟩ | ⟨ne, _⟩
    · rw [changed] at holds
      have before := Coordinator.get?_drop_eq_some holds
      rw [Coordinator.get?_drop_self before (upkept.current here before).1.token] at holds
      cases holds
    · exact absurd rfl ne

end

end LeaseFleet
