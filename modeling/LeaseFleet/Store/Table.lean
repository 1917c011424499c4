import LeaseFleet.Store.Capacity
import LeaseFleet.Store.Error

/-!
# The lease table

The shared table of leases, the five calls that workers issue against it, and what each call
answers and changes. Every call is one indivisible step. A conditional update is applied exactly
when the stored counter is the expected one, and then stores that counter plus one, as far as the
store counts: what a store with words does is what any store does while the numbers fit
(`performIn_of_fits`).
-/

namespace LeaseFleet

/-- A call of the lease store. -/
inductive StoreCall where
  /-- All leases, by key. -/
  | list
  /-- Stores a lease unless its key is taken. -/
  | create (lease : Lease)
  /-- Replaces a lease if its stored counter is the expected one. -/
  | update (lease : Lease) (expected : Nat)
  | delete (leaseKey : String)
  | isEmpty
  deriving DecidableEq

namespace StoreCall

@[reducible] def Answer : StoreCall → Type
  | list => List Lease
  | create _ => Bool
  | update _ _ => UpdateOutcome
  | delete _ => Unit
  | isEmpty => Bool

@[reducible] def Reply (call : StoreCall) : Type := Except StoreError call.Answer

def key? : StoreCall → Option String
  | list => none
  | create lease => some lease.leaseKey
  | update lease _ => some lease.leaseKey
  | delete leaseKey => some leaseKey
  | isEmpty => none

def failed (call : StoreCall) (error : StoreError) : call.Reply := .error error

end StoreCall

abbrev LeaseTable := SortedMap String Lease

namespace LeaseTable

/-- The leases in key order. -/
def leases (table : LeaseTable) : List Lease := table.values

def put (table : LeaseTable) (lease : Lease) : LeaseTable := table.insert lease.leaseKey lease

/-- The table that holds the given leases; of several with one key the last counts. -/
def ofLeases (leases : List Lease) : LeaseTable := leases.foldl put .empty

/-- Stores a lease unless its key is empty or taken. -/
def create (table : LeaseTable) (lease : Lease) : Except StoreError Bool × LeaseTable :=
  if lease.leaseKey = "" then
    (.error (.invalidArguments "lease key must not be empty"), table)
  else if table.contains lease.leaseKey then (.ok false, table)
  else (.ok true, table.put lease)

/-- Writes a lease if the stored counter is the expected one; the stored lease then carries that
counter plus one, as far as the store counts, whatever the given lease carried. -/
def updateIn (table : LeaseTable) (capacity : Capacity) (lease : Lease) (expected : Nat) :
    UpdateOutcome × LeaseTable :=
  match table.get? lease.leaseKey with
  | none => (.notFound, table)
  | some stored =>
    if stored.counter = expected then
      let written := capacity.keep { lease with counter := expected + 1 }
      (.updated written, table.put written)
    else (.versionConflict, table)

/-- The update of a store that counts without end. -/
def update (table : LeaseTable) (lease : Lease) (expected : Nat) : UpdateOutcome × LeaseTable :=
  table.updateIn .unlimited lease expected

def perform (table : LeaseTable) : (call : StoreCall) → call.Reply × LeaseTable
  | .list => (.ok table.leases, table)
  | .create lease => table.create lease
  | .update lease expected =>
    let (outcome, after) := table.update lease expected
    (.ok outcome, after)
  | .delete leaseKey => (.ok (), table.erase leaseKey)
  | .isEmpty => (.ok table.isEmpty, table)

/-- Carries a call out in a store that counts so far. -/
def performIn (table : LeaseTable) (capacity : Capacity) : (call : StoreCall) → call.Reply × LeaseTable
  | .update lease expected =>
    let (outcome, after) := table.updateIn capacity lease expected
    (.ok outcome, after)
  | .list => table.perform .list
  | .create lease => table.perform (.create lease)
  | .delete leaseKey => table.perform (.delete leaseKey)
  | .isEmpty => table.perform .isEmpty

/-- Takes a lease over in the name of another owner, as that owner would: by a conditional update
of the stored lease. -/
def steal (table : LeaseTable) (leaseKey : String) (owner : Option String)
    (capacity : Capacity := .words) : Option UpdateOutcome × LeaseTable :=
  match table.get? leaseKey with
  | none => (none, table)
  | some stored =>
    let (outcome, after) := table.updateIn capacity (stored.transferredTo owner) stored.counter
    (some outcome, after)

/-! ### Laws of the calls -/

theorem mem_leases {table : LeaseTable} {lease : Lease} :
    lease ∈ table.leases ↔ ∃ leaseKey, table.get? leaseKey = some lease :=
  SortedMap.mem_values

/-- Every lease of a table built from a list is one of the list, under its own key. -/
theorem get?_ofLeases {leases : List Lease} {leaseKey : String} {lease : Lease}
    (found : (ofLeases leases).get? leaseKey = some lease) :
    lease ∈ leases ∧ lease.leaseKey = leaseKey := by
  have along (rest : List Lease) (table : LeaseTable)
      (known : ∀ {leaseKey lease}, table.get? leaseKey = some lease →
        lease ∈ leases ∧ lease.leaseKey = leaseKey) (part : ∀ lease ∈ rest, lease ∈ leases)
      (found : (rest.foldl put table).get? leaseKey = some lease) :
      lease ∈ leases ∧ lease.leaseKey = leaseKey := by
    induction rest generalizing table with
    | nil => exact known found
    | cons head rest ih =>
      refine ih (table.put head) ?_ (fun lease mem => part lease (List.mem_cons_of_mem _ mem)) found
      intro leaseKey lease found
      rcases SortedMap.get?_insert_eq_some_iff.1 found with ⟨rfl, rfl⟩ | ⟨_, found⟩
      · exact ⟨part _ List.mem_cons_self, rfl⟩
      · exact known found
  exact along leases .empty (by simp) (fun _ mem => mem) found

/-- A lease is created where there is none, and otherwise nothing changes. -/
theorem create_cases (table : LeaseTable) (lease : Lease) :
    ((table.create lease).2 = table ∧ (table.create lease).1 ≠ .ok true) ∨
      table.get? lease.leaseKey = none ∧ table.create lease = (.ok true, table.put lease) := by
  unfold create
  split
  · simp
  · split
    · simp
    · rename_i notTaken
      exact .inr ⟨by simpa [SortedMap.contains] using notTaken, rfl⟩

/-! ### Laws of the updates -/

section

variable {table : LeaseTable} {capacity : Capacity} {lease written : Lease} {expected : Nat}

/-- An update is applied exactly when the stored counter is the expected one. -/
theorem updateIn_updated : (table.updateIn capacity lease expected).1 = .updated written ↔
    (∃ stored, table.get? lease.leaseKey = some stored ∧ stored.counter = expected) ∧
      written = capacity.keep { lease with counter := expected + 1 } := by
  unfold updateIn
  cases found : table.get? lease.leaseKey with
  | none => simp
  | some stored =>
    by_cases same : stored.counter = expected
    · simp [same, eq_comm]
    · simp [same]

/-- An update that was not applied has changed nothing. -/
theorem updateIn_refused (refused : ∀ written, (table.updateIn capacity lease expected).1 ≠ .updated written) :
    (table.updateIn capacity lease expected).2 = table := by
  unfold updateIn at refused ⊢
  split
  · rfl
  · rename_i stored found
    by_cases same : stored.counter = expected
    · simp [found, same] at refused
    · simp [same]

/-- An applied update has stored what it answers. -/
theorem updateIn_table (updated : (table.updateIn capacity lease expected).1 = .updated written) :
    (table.updateIn capacity lease expected).2 = table.put written := by
  unfold updateIn at updated ⊢
  split at updated
  · cases updated
  · split at updated
    · simp_all
    · cases updated

/-- An update does not concern other leases. -/
theorem get?_updateIn_of_ne {leaseKey : String} (ne : leaseKey ≠ lease.leaseKey) :
    (table.updateIn capacity lease expected).2.get? leaseKey = table.get? leaseKey := by
  cases outcome : (table.updateIn capacity lease expected).1 with
  | updated written =>
    obtain ⟨_, rfl⟩ := updateIn_updated.1 outcome
    rw [updateIn_table outcome]
    exact SortedMap.get?_insert_of_ne _ (by rwa [Capacity.keep_leaseKey]) _
  | versionConflict | notFound => rw [updateIn_refused (by simp [outcome])]

theorem update_updated : (table.update lease expected).1 = .updated written ↔
    (∃ stored, table.get? lease.leaseKey = some stored ∧ stored.counter = expected) ∧
      written = { lease with counter := expected + 1 } :=
  updateIn_updated

theorem update_of_current {stored : Lease} (found : table.get? lease.leaseKey = some stored)
    (current : stored.counter = expected) :
    table.update lease expected = (.updated { lease with counter := expected + 1 },
      table.put { lease with counter := expected + 1 }) := by
  simp only [update, updateIn, found, current, if_true, Capacity.keep]

theorem update_of_stale {stored : Lease} (found : table.get? lease.leaseKey = some stored)
    (stale : stored.counter ≠ expected) : table.update lease expected = (.versionConflict, table) := by
  simp only [update, updateIn, found, stale, if_false]

theorem update_of_absent (absent : table.get? lease.leaseKey = none) :
    table.update lease expected = (.notFound, table) := by
  simp only [update, updateIn, absent]

theorem update_refused (refused : ∀ written, (table.update lease expected).1 ≠ .updated written) :
    (table.update lease expected).2 = table :=
  updateIn_refused refused

theorem update_table (updated : (table.update lease expected).1 = .updated written) :
    (table.update lease expected).2 = table.put written :=
  updateIn_table updated

theorem get?_update_of_ne {leaseKey : String} (ne : leaseKey ≠ lease.leaseKey) :
    (table.update lease expected).2.get? leaseKey = table.get? leaseKey :=
  get?_updateIn_of_ne ne

/-! ### How far the store counts -/

theorem performIn_unlimited (table : LeaseTable) (call : StoreCall) :
    table.performIn .unlimited call = table.perform call := by
  cases call <;> rfl

end

end LeaseTable

/-! ### What a call has done -/

/-- An update that was applied: what was to be written against which counter, and what is stored
since. -/
structure AppliedUpdate where
  proposal : Lease
  expected : Nat
  stored : Lease
  deriving DecidableEq

namespace StoreCall

/-- Whether a call with this reply has deleted a lease. -/
def Deletes : (call : StoreCall) → call.Reply → Prop
  | delete _, .ok _ => True
  | _, _ => False

/-- Whether a call with this reply has created a lease. -/
def Creates : (call : StoreCall) → call.Reply → Prop
  | create _, .ok isNew => isNew = true
  | _, _ => False

/-- The update that a call with this reply has applied, if it has. -/
def applied? : (call : StoreCall) → call.Reply → Option AppliedUpdate
  | update proposal expected, .ok (.updated stored) => some { proposal, expected, stored }
  | _, _ => none

instance (call : StoreCall) (reply : call.Reply) : Decidable (call.Deletes reply) :=
  match call, reply with
  | delete _, .ok _ => isTrue trivial
  | delete _, .error _ => isFalse id
  | list, _ | create _, _ | update _ _, _ | isEmpty, _ => isFalse id

theorem creates_create {lease : Lease} {reply : (create lease).Reply} :
    (create lease).Creates reply ↔ reply = .ok true := by
  cases reply <;> simp [Creates]

theorem applied?_failed (call : StoreCall) (error : StoreError) :
    call.applied? (call.failed error) = none := by
  cases call <;> rfl

theorem not_creates_failed (call : StoreCall) (error : StoreError) :
    ¬call.Creates (call.failed error) := by
  cases call <;> exact id

end StoreCall

/-- Whatever a store counts to, it does the same as one that counts without end, unless an update has to
raise a number beyond that. -/
theorem LeaseTable.performIn_of_fits {table : LeaseTable} {capacity : Capacity} {call : StoreCall}
    (fits : ∀ applied, call.applied? (table.perform call).1 = some applied → applied.stored.Fits) :
    table.performIn capacity call = table.perform call := by
  cases call with
  | list | create | delete | isEmpty => rfl
  | update lease expected =>
    have reply : (table.perform (.update lease expected)).1 = .ok (table.update lease expected).1 := rfl
    suffices same : table.updateIn capacity lease expected = table.update lease expected by
      simp only [performIn, perform, same]
    cases found : table.get? lease.leaseKey with
    | none => simp only [updateIn, found, update_of_absent found]
    | some stored =>
      by_cases current : stored.counter = expected
      · rw [reply, update_of_current found current] at fits
        have kept : capacity.keep _ = _ := Capacity.keep_of_fits (fits _ rfl)
        simp only [updateIn, found, current, if_true, update_of_current found current, kept]
      · simp only [updateIn, found, current, if_false, update_of_stale found current]

/-- A call that deletes nothing leaves no lease with a smaller counter. -/
theorem LeaseTable.perform_counter {table : LeaseTable} {call : StoreCall} {leaseKey : String}
    {stored : Lease} (found : table.get? leaseKey = some stored)
    (kept : ¬call.Deletes (table.perform call).1) :
    ∃ later, (table.perform call).2.get? leaseKey = some later ∧ stored.counter ≤ later.counter := by
  cases call with
  | list | isEmpty => exact ⟨stored, found, Nat.le_refl _⟩
  | delete key => exact absurd trivial kept
  | create lease =>
    rcases table.create_cases lease with ⟨same, _⟩ | ⟨absent, created⟩
    · exact ⟨stored, same.symm ▸ found, Nat.le_refl _⟩
    · have after : (table.perform (.create lease)).2 = table.put lease := by simp [perform, created]
      have differs : leaseKey ≠ lease.leaseKey := by
        rintro rfl
        simp [found] at absent
      rw [after]
      exact ⟨stored, SortedMap.get?_insert_eq_some_iff.2 (.inr ⟨differs, found⟩), Nat.le_refl _⟩
  | update lease expected =>
    cases outcome : (table.update lease expected).1 with
    | updated written =>
      obtain ⟨⟨before, here, same⟩, rfl⟩ := update_updated.1 outcome
      have after : (table.perform (.update lease expected)).2 = table.put _ := update_table outcome
      rw [after]
      by_cases sameKey : leaseKey = lease.leaseKey
      · subst sameKey
        refine ⟨_, SortedMap.get?_insert_self .., ?_⟩
        rw [Option.some.inj (found.symm.trans here), same]
        exact Nat.le_succ _
      · exact ⟨stored, SortedMap.get?_insert_eq_some_iff.2 (.inr ⟨sameKey, found⟩), Nat.le_refl _⟩
    | versionConflict | notFound =>
      have after : (table.perform (.update lease expected)).2 = table :=
        update_refused (by simp [outcome])
      exact ⟨stored, by rwa [after], Nat.le_refl _⟩

end LeaseFleet
