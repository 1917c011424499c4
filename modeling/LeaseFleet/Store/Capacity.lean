import LeaseFleet.Lease.Basic

/-!
# How far a store counts

The numbers of a lease are raised without end, or as far as words of 64 bits go: where leases are kept in
memory, zero comes after the last word.
-/

namespace LeaseFleet

namespace Lease

/-- The lease with its numbers as words. -/
def inWords (lease : Lease) : Lease :=
  { lease with
    counter := lease.counter % Decimal.wordLimit
    ownerSwitches := lease.ownerSwitches % Decimal.wordLimit }

/-- The numbers of the lease are words. -/
structure Fits (lease : Lease) : Prop where
  counter : lease.counter < Decimal.wordLimit
  ownerSwitches : lease.ownerSwitches < Decimal.wordLimit

theorem inWords_of_fits {lease : Lease} (fits : lease.Fits) : lease.inWords = lease := by
  unfold inWords
  rw [Nat.mod_eq_of_lt fits.counter, Nat.mod_eq_of_lt fits.ownerSwitches]

end Lease

/-- How far a store counts. -/
inductive Capacity where
  | unlimited
  /-- Up to the last word of 64 bits, and then from zero again. -/
  | words
  deriving DecidableEq, Repr

namespace Capacity

/-- What a store keeps of a lease. -/
def keep : Capacity → Lease → Lease
  | unlimited, lease => lease
  | words, lease => lease.inWords

variable {capacity : Capacity} {lease : Lease}

@[simp] theorem keep_leaseKey : (capacity.keep lease).leaseKey = lease.leaseKey := by
  cases capacity <;> rfl

theorem keep_of_fits (fits : lease.Fits) : capacity.keep lease = lease := by
  cases capacity with
  | unlimited => rfl
  | words => exact Lease.inWords_of_fits fits

end Capacity

end LeaseFleet
