import LeaseFleet.Proofs.Interleaving.StepEffects
import LeaseFleet.Proofs.Fleet.LeaseUpdates

/-!
# Counting in words

A fleet counts without end, and a store that keeps words begins again after the last one. That makes no
difference as long as fewer steps have been taken than there are words left. For a step raises the numbers
of a lease by one at most (`within_of_run`), and up to the last word such a store answers every call and
leaves every table as the fleet has it (`step_in_words`).
-/

namespace LeaseFleet

/-- The numbers of the lease are not beyond the given one. -/
structure Lease.Within (most : Nat) (lease : Lease) : Prop where
  counter : lease.counter ≤ most
  ownerSwitches : lease.ownerSwitches ≤ most

/-- The numbers of all leases in the table are not beyond the given one. -/
def LeaseTable.Within (most : Nat) (table : LeaseTable) : Prop :=
  ∀ leaseKey lease, table.get? leaseKey = some lease → lease.Within most

section

variable {most more : Nat} {lease base : Lease} {table : LeaseTable}

theorem Lease.Within.mono (within : lease.Within most) (le : most ≤ more) : lease.Within more :=
  ⟨Nat.le_trans within.counter le, Nat.le_trans within.ownerSwitches le⟩

theorem Lease.Within.fits (within : lease.Within most) (room : most < Decimal.wordLimit) : lease.Fits :=
  ⟨Nat.lt_of_le_of_lt within.counter room, Nat.lt_of_le_of_lt within.ownerSwitches room⟩

/-- A deed raises the numbers of a lease by one at most. -/
theorem Deed.written_within (within : base.Within most) (deed : Deed) : (deed.written base).Within (most + 1) where
  counter := Nat.succ_le_succ within.counter
  ownerSwitches := by
    have sofar := within.ownerSwitches
    rw [deed.written_ownerSwitches]
    cases deed with
    | acquire | move =>
      simp only [switches]
      split <;> omega
    | renew | release => exact Nat.le_succ_of_le sofar
    | checkpoint => exact Nat.zero_le _

theorem LeaseTable.Within.mono (within : table.Within most) (le : most ≤ more) : table.Within more :=
  fun leaseKey lease found => (within leaseKey lease found).mono le

theorem LeaseTable.Within.put (within : table.Within most) (new : lease.Within most) :
    (table.put lease).Within most :=
  fun _ _ found => SortedMap.forall_insert (P := fun _ lease => lease.Within most) new
    (fun _ found => within _ _ found) found

end

/-! ## Steps and runs of a fleet -/

section

variable {leases : List Lease} {setups : List WorkerSetup} {s after : FleetState} {event : Event Duty Outcome}
  {trace : List (Event Duty Outcome)} {most : Nat}

/-- Whether what the event has created, if anything, has numbers that are not beyond the given one. -/
def Event.CreatesWithin (most : Nat) (event : Event Duty Outcome) : Prop :=
  ∀ lease, event.Shows (.create lease) (.ok true) → lease.Within most

/-- A step that deletes nothing raises the numbers by one at most. -/
theorem Event.Effect.within (effect : event.Effect s.table after.table) (step : FleetStep s event after)
    (sofar : s.table.Within most) (created : event.CreatesWithin most) : after.table.Within (most + 1) := by
  have raised := sofar.mono (Nat.le_succ most)
  rcases step.performed with ⟨same, _⟩ | ⟨call, performed, shown⟩
  · exact same ▸ raised
  · cases call with
    | list | isEmpty => exact performed ▸ raised
    | delete leaseKey =>
      rw [performed]
      exact fun _ _ found => raised _ _ (SortedMap.get?_erase_eq_some_iff.1 found).2
    | create lease =>
      rcases s.table.create_cases lease with ⟨same, _⟩ | ⟨_, isNew⟩
      · exact (performed.trans same) ▸ raised
      · have now : after.table = s.table.put lease := performed.trans (congrArg Prod.snd isNew)
        have shows : event.Shows (.create lease) (.ok true) := by
          rwa [show (s.table.perform (.create lease)).1 = .ok true from congrArg Prod.fst isNew] at shown
        exact now ▸ raised.put ((created lease shows).mono (Nat.le_succ most))
    | update lease expected =>
      cases applies : event.applied? with
      | some applied =>
        obtain ⟨deed, base, _, found, _, same⟩ := effect.applied applies
        exact same ▸ raised.put (deed.written_within (sofar _ _ found))
      | none =>
        rw [shown.applied?] at applies
        rw [performed, LeaseTable.perform_unchanged applies id id]
        exact raised

/-- After a run without deletions no number is further than one step each from where the first leases and
those that were created have begun. -/
theorem within_of_run (run : FleetRun (fleetStart leases setups) trace s)
    (kept : ∀ event ∈ trace, ¬event.Deletes) (first : ∀ lease ∈ leases, lease.Within most)
    (created : ∀ event ∈ trace, event.CreatesWithin most) : s.table.Within (most + trace.length) := by
  induction run with
  | refl => exact fun _ _ found => first _ (LeaseTable.get?_ofLeases found).1
  | @snoc between later earlier event before step ih =>
    have sofar := ih (fun event mem => kept event (List.mem_append_left _ mem))
      fun event mem => created event (List.mem_append_left _ mem)
    have small : event.CreatesWithin (most + earlier.length) := fun lease shows =>
      (created event (by simp) lease shows).mono (Nat.le_add_right ..)
    rw [List.length_append, List.length_singleton, ← Nat.add_assoc]
    exact (effect_of_step before step kept).within step sofar small

/-- Up to the last word, a store that keeps words answers every call of a fleet, and leaves every table, as
the fleet has it. -/
theorem step_in_words (run : FleetRun (fleetStart leases setups) trace s) (step : FleetStep s event after)
    (kept : ∀ event' ∈ trace ++ [event], ¬event'.Deletes) (first : ∀ lease ∈ leases, lease.Within most)
    (created : ∀ event ∈ trace, event.CreatesWithin most) (room : most + trace.length + 1 < Decimal.wordLimit) :
    after.table = s.table ∧ event.Fruitless ∨
      ∃ call, after.table = (s.table.performIn .words call).2 ∧
        event.Shows call (s.table.performIn .words call).1 := by
  have sofar := within_of_run run (fun event mem => kept event (List.mem_append_left _ mem)) first created
  rcases step.performed with unchanged | ⟨call, performed, shown⟩
  · exact .inl unchanged
  · have same : s.table.performIn .words call = s.table.perform call := by
      refine LeaseTable.performIn_of_fits fun applied isApplied => ?_
      obtain ⟨deed, base, _, found, rfl, _⟩ :=
        (effect_of_step run step kept).applied (shown.applied?.trans isApplied)
      exact (deed.written_within (sofar _ _ found)).fits room
    exact .inr ⟨call, by rw [same, performed], by rwa [same]⟩

end

end LeaseFleet
