import LeaseFleet.Proofs.Fleet.DutyDeeds

/-!
# Versions

Every version of a lease that the table has held is told apart from the others by its key and its
counter (`Versions`). So an update by a deed, which carries the counter of the version that it was
made from, is applied to that very version or not at all (`Versions.update`). Whatever copies of
leases are around are versions that the table has held (`Fenced`), as long as no lease is deleted.
-/

namespace LeaseFleet

/-- The versions that the table has held, with the stored ones among them: no two of a lease have
the same counter, and none has a greater one than the stored version. -/
structure Versions (table : LeaseTable) (past : Lease → Prop) : Prop where
  key : ∀ {leaseKey stored}, table.get? leaseKey = some stored → stored.leaseKey = leaseKey
  stored : ∀ {leaseKey stored}, table.get? leaseKey = some stored → past stored
  unique : ∀ {one other}, past one → past other → one.leaseKey = other.leaseKey →
    one.counter = other.counter → one = other
  below : ∀ {lease}, past lease →
    ∃ stored, table.get? lease.leaseKey = some stored ∧ lease.counter ≤ stored.counter

namespace Versions

variable {table : LeaseTable} {past : Lease → Prop}

/-- A table that is built from a list holds versions. -/
theorem of_ofLeases (leases : List Lease) :
    Versions (.ofLeases leases) fun lease => (LeaseTable.ofLeases leases).get? lease.leaseKey = some lease where
  key found := (LeaseTable.get?_ofLeases found).2
  stored found := by rwa [(LeaseTable.get?_ofLeases found).2]
  unique one other sameKey _ := by
    rw [sameKey] at one
    exact Option.some.inj (one.symm.trans other)
  below found := ⟨_, found, Nat.le_refl _⟩

/-- A version is the stored one when it has the stored counter. -/
theorem stored_of_counter (versions : Versions table past) {lease stored : Lease} (mem : past lease)
    (found : table.get? lease.leaseKey = some stored) (same : stored.counter = lease.counter) :
    stored = lease :=
  versions.unique (versions.stored found) mem (versions.key found) same

/-- A new version is stored: its counter is greater than that of the stored one, if there is one. -/
theorem put (versions : Versions table past) {written : Lease}
    (newer : ∀ stored, table.get? written.leaseKey = some stored → stored.counter < written.counter) :
    Versions (table.put written) fun lease => past lease ∨ lease = written := by
  have older {lease : Lease} (mem : past lease) (sameKey : lease.leaseKey = written.leaseKey) :
      lease.counter < written.counter := by
    obtain ⟨stored, found, le⟩ := versions.below mem
    exact Nat.lt_of_le_of_lt le (newer stored (sameKey ▸ found))
  refine ⟨?_, ?_, ?_, ?_⟩
  · intro leaseKey stored found
    rcases SortedMap.get?_insert_eq_some_iff.1 found with ⟨rfl, rfl⟩ | ⟨_, found⟩
    · rfl
    · exact versions.key found
  · intro leaseKey stored found
    rcases SortedMap.get?_insert_eq_some_iff.1 found with ⟨_, rfl⟩ | ⟨_, found⟩
    · exact .inr rfl
    · exact .inl (versions.stored found)
  · rintro one other (one' | rfl) (other' | rfl) sameKey sameCounter
    · exact versions.unique one' other' sameKey sameCounter
    · exact absurd sameCounter (Nat.ne_of_lt (older one' sameKey))
    · exact absurd sameCounter.symm (Nat.ne_of_lt (older other' sameKey.symm))
    · rfl
  · rintro lease (mem | rfl)
    · by_cases sameKey : lease.leaseKey = written.leaseKey
      · refine ⟨written, ?_, Nat.le_of_lt (older mem sameKey)⟩
        rw [sameKey]
        exact SortedMap.get?_insert_self ..
      · obtain ⟨stored, found, le⟩ := versions.below mem
        exact ⟨stored, SortedMap.get?_insert_eq_some_iff.2 (.inr ⟨sameKey, found⟩), le⟩
    · exact ⟨lease, SortedMap.get?_insert_self .., Nat.le_refl _⟩

/-- A deed on a version that the table has held is applied to the stored version or not at all. -/
theorem update (versions : Versions table past) {base written : Lease} {deed : Deed}
    (mem : past base)
    (updated : (table.update (deed.propose base) base.counter).1 = .updated written) :
    table.get? base.leaseKey = some base ∧ written = deed.written base := by
  obtain ⟨⟨stored, found, same⟩, written⟩ := LeaseTable.update_updated.1 updated
  rw [deed.propose_leaseKey] at found
  have isStored := versions.stored_of_counter mem found same
  exact ⟨isStored ▸ found, written⟩

/-- After a deed on the stored version, the version that it has written is one more. -/
theorem put_written (versions : Versions table past) {base : Lease}
    (found : table.get? base.leaseKey = some base) (deed : Deed) :
    Versions (table.put (deed.written base)) fun lease => past lease ∨ lease = deed.written base := by
  refine versions.put fun stored here => ?_
  rw [deed.written_leaseKey] at here
  rw [Option.some.inj (here.symm.trans found), deed.written_counter]
  exact Nat.lt_succ_self _

/-- An honest call that deletes nothing keeps the versions, and its answer tells of versions. -/
theorem perform (versions : Versions table past) {may : Deed → Lease → Prop} {call : StoreCall}
    (honest : Honest may past (.store call)) (kept : ¬call.Deletes (table.perform call).1) :
    ∃ later : Lease → Prop, (∀ lease, past lease → later lease) ∧
      Versions (table.perform call).2 later ∧
        ∀ lease, Tells (.store call) (table.perform call).1 lease → later lease := by
  cases call with
  | list =>
    refine ⟨past, fun _ => id, versions, fun lease told => ?_⟩
    obtain ⟨leaseKey, found⟩ := LeaseTable.mem_leases.1 told
    exact versions.stored found
  | isEmpty => exact ⟨past, fun _ => id, versions, fun lease told => told.elim⟩
  | delete leaseKey => exact absurd trivial kept
  | create lease =>
    rcases table.create_cases lease with ⟨same, _⟩ | ⟨absent, created⟩
    · exact ⟨past, fun _ => id, same.symm ▸ versions, fun lease told => told.elim⟩
    · have after : (table.perform (.create lease)).2 = table.put lease := by
        simp [LeaseTable.perform, created]
      refine ⟨fun other => past other ∨ other = lease, fun _ => .inl, after ▸ versions.put ?_,
        fun lease told => told.elim⟩
      simp [absent]
  | update proposal expected =>
    obtain ⟨deed, base, mem, _, rfl, rfl⟩ := honest
    refine ⟨fun lease => past lease ∨
      (table.update (deed.propose base) base.counter).1 = .updated lease, fun _ => .inl, ?_, ?_⟩
    · cases outcome : (table.update (deed.propose base) base.counter).1 with
      | updated written =>
        obtain ⟨found, rfl⟩ := versions.update mem outcome
        have after : (table.perform (.update (deed.propose base) base.counter)).2 =
            table.put (deed.written base) := LeaseTable.update_table outcome
        have kept := versions.put_written found deed
        simpa [after, eq_comm] using kept
      | versionConflict | notFound =>
        have after : (table.perform (.update (deed.propose base) base.counter)).2 = table :=
          LeaseTable.update_refused (by simp [outcome])
        simpa [after] using versions
    · intro lease told
      have reply : (table.perform (.update (deed.propose base) base.counter)).1 =
          .ok (table.update (deed.propose base) base.counter).1 := rfl
      rw [reply] at told
      cases outcome : (table.update (deed.propose base) base.counter).1 with
      | updated written =>
        rw [outcome] at told
        exact .inr (congrArg UpdateOutcome.updated told.symm)
      | versionConflict | notFound =>
        rw [outcome] at told
        exact told.elim

/-- An honest update is applied to the stored version, which it was made from. -/
theorem perform_applied (versions : Versions table past) {may : Deed → Lease → Prop}
    {call : StoreCall} (honest : Honest may past (.store call)) {applied : AppliedUpdate}
    (isApplied : call.applied? (table.perform call).1 = some applied) :
    ∃ deed base, may deed base ∧ applied = ⟨deed.propose base, base.counter, deed.written base⟩ ∧
      table.get? base.leaseKey = some base ∧
        (table.perform call).2 = table.put (deed.written base) := by
  cases call with
  | list | isEmpty | delete leaseKey | create lease => simp [StoreCall.applied?] at isApplied
  | update proposal expected =>
    obtain ⟨deed, base, mem, allowed, rfl, rfl⟩ := honest
    have reply : (table.perform (.update (deed.propose base) base.counter)).1 =
        .ok (table.update (deed.propose base) base.counter).1 := rfl
    rw [reply] at isApplied
    cases outcome : (table.update (deed.propose base) base.counter).1 with
    | updated written =>
      obtain ⟨found, rfl⟩ := versions.update mem outcome
      rw [outcome] at isApplied
      exact ⟨deed, base, allowed, (Option.some.inj isApplied).symm, found,
        LeaseTable.update_table outcome⟩
    | versionConflict | notFound =>
      rw [outcome] at isApplied
      simp [StoreCall.applied?] at isApplied

end Versions

/-- Only applied updates, creations and deletions change the table. -/
theorem LeaseTable.perform_unchanged {table : LeaseTable} {call : StoreCall}
    (notApplied : call.applied? (table.perform call).1 = none)
    (notCreated : ¬call.Creates (table.perform call).1)
    (notDeleted : ¬call.Deletes (table.perform call).1) : (table.perform call).2 = table := by
  cases call with
  | list | isEmpty => rfl
  | delete leaseKey => exact absurd trivial notDeleted
  | create lease =>
    rcases table.create_cases lease with ⟨same, _⟩ | ⟨_, created⟩
    · exact same
    · exact absurd (by simp [LeaseTable.perform, created, StoreCall.Creates]) notCreated
  | update proposal expected =>
    refine LeaseTable.update_refused fun written updated => ?_
    have reply : (table.perform (.update proposal expected)).1 =
        .ok (table.update proposal expected).1 := rfl
    rw [reply, updated] at notApplied
    simp [StoreCall.applied?] at notApplied

end LeaseFleet
