import Mathlib.Data.List.Induction
import Mathlib.Data.Set.Finite.List
import LeaseFleet.Store.Memory

/-!
# The in-memory store as a map

Whatever is asked of the in-memory store, one operation after another, it answers as a finite map from
keys to leases does that can be told to fail its next calls (`StoreView.Run`). The map knows nothing of
tables: a listing is any list that has each lease once, in the order of the keys (`Shelf.Lists`), and a
restored map holds the last lease of each key.

Two laws are about whole runs. A demand for failures is met by the calls that come next and by no other.
And as long as nobody gets past the fence of a lease and its counter has not reached the last word, the
counter never falls, so that one update at most is applied from each counter. An update from the last word
sets the counter back to zero (`behaves_as_map_at_last_word`).
-/

namespace LeaseFleet

/-! ## What is asked -/

/-- What may be asked of the in-memory store. -/
inductive StoreOperation where
  | perform (call : StoreCall)
  | get (leaseKey : String)
  /-- The leases of one stream, by its serialized identifier. -/
  | listForStream (stream : String)
  /-- Writes a lease past the fence. -/
  | put (lease : Lease)
  | restore (saved : ByteArray)
  /-- Makes the next calls fail. -/
  | failNext (count : Nat)

namespace StoreOperation

@[reducible] def Reply : StoreOperation → Type
  | perform call => call.Reply
  | get _ => Except StoreError (Option Lease)
  | listForStream _ => Except StoreError (List Lease)
  | put _ => Unit
  | restore _ => Except StoreError Nat
  | failNext _ => Unit

/-- Whether the operation is one of those that can be told to fail. -/
def isFallible : StoreOperation → Bool
  | perform _ | get _ | listForStream _ => true
  | put _ | restore _ | failNext _ => false

/-- Whether the operation has failed because it was told to. -/
def Failed : (operation : StoreOperation) → operation.Reply → Prop
  | perform call, reply => reply = call.failed MemoryStore.injectedFailure
  | get _, reply => reply = .error MemoryStore.injectedFailure
  | listForStream _, reply => reply = .error MemoryStore.injectedFailure
  | put _, _ | restore _, _ | failNext _, _ => False

/-- How many calls are still to fail after an operation that is not one of them. -/
def dueAfter (due : Nat) : StoreOperation → Nat
  | failNext count => count
  | _ => due

end StoreOperation

/-- An operation with its reply. -/
structure Served where
  operation : StoreOperation
  reply : operation.Reply

namespace Served

/-- Whether the lease of the key was deleted, or written past its fence. -/
def Overrides (leaseKey : String) : Served → Prop
  | ⟨.perform (.delete deleted), .ok _⟩ => deleted = leaseKey
  | ⟨.put lease, _⟩ => lease.leaseKey = leaseKey
  | ⟨.restore _, .ok _⟩ => True
  | _ => False

def applied? : Served → Option AppliedUpdate
  | ⟨.perform call, reply⟩ => call.applied? reply
  | _ => none

/-- Whether an update of the lease was applied from the last word, after which there is no next one. -/
def Overflows (leaseKey : String) (served : Served) : Prop :=
  ∃ applied, served.applied? = some applied ∧ applied.proposal.leaseKey = leaseKey ∧
    Decimal.wordLimit ≤ applied.expected + 1

/-- Whether the counter of the lease may begin again. -/
def Resets (leaseKey : String) (served : Served) : Prop :=
  served.Overrides leaseKey ∨ served.Overflows leaseKey

/-- Whether an update of the lease was applied from the counter. -/
def wins (leaseKey : String) (expected : Nat) (served : Served) : Bool :=
  served.applied?.any fun applied =>
    decide (applied.proposal.leaseKey = leaseKey) && decide (applied.expected = expected)

end Served

namespace MemoryStore

def apply (store : MemoryStore) : (operation : StoreOperation) → operation.Reply × MemoryStore
  | .perform call => store.perform call
  | .get leaseKey => store.get leaseKey
  | .listForStream stream => store.listForStream stream
  | .put lease => ((), store.put lease)
  | .restore saved => store.restore saved
  | .failNext count => ((), store.failNext count)

/-- The store after some operations. -/
def after (store : MemoryStore) : List StoreOperation → MemoryStore
  | [] => store
  | operation :: rest => (store.apply operation).2.after rest

/-- What is answered to some operations. -/
def served (store : MemoryStore) : List StoreOperation → List Served
  | [] => []
  | operation :: rest => ⟨operation, (store.apply operation).1⟩ :: (store.apply operation).2.served rest

/-- The lease of a key, found in a listing. -/
def find (store : MemoryStore) (leaseKey : String) : Except StoreError (Option Lease) × MemoryStore :=
  let (reply, after) := store.perform .list
  (reply.map (List.find? fun lease => lease.leaseKey = leaseKey), after)

end MemoryStore

/-! ## The map -/

/-- A map from keys to leases. -/
abbrev Shelf := String → Option Lease

namespace Shelf

/-- The list has each lease of the map once, in the order of the keys. -/
structure Lists (shelf : Shelf) (leases : List Lease) : Prop where
  sorted : leases.Pairwise fun earlier later => earlier.leaseKey < later.leaseKey
  mem {lease : Lease} : lease ∈ leases ↔ shelf lease.leaseKey = some lease

theorem Lists.keys_nodup {shelf : Shelf} {listed : List Lease} (lists : shelf.Lists listed) :
    (listed.map Lease.leaseKey).Nodup := by
  refine List.pairwise_map.2 (lists.sorted.imp fun {earlier later} before same => ?_)
  rw [same] at before
  exact String.lt_irrefl _ before

/-- The map of the leases; of several with one key the last counts. -/
def ofLeases (leases : List Lease) : Shelf := fun leaseKey =>
  leases.reverse.find? fun lease => lease.leaseKey = leaseKey

/-- What an operation that is not told to fail answers, and which map it leaves. -/
def Answers (shelf : Shelf) : (operation : StoreOperation) → operation.Reply → Shelf → Prop
  | .perform .list, reply, after => after = shelf ∧ ∃ leases, shelf.Lists leases ∧ reply = .ok leases
  | .perform (.create lease), reply, after =>
    if lease.leaseKey = "" then
      after = shelf ∧ reply = .error (.invalidArguments "lease key must not be empty")
    else if (shelf lease.leaseKey).isSome then after = shelf ∧ reply = .ok false
    else after = Function.update shelf lease.leaseKey (some lease) ∧ reply = .ok true
  | .perform (.update lease expected), reply, after =>
    match shelf lease.leaseKey with
    | none => after = shelf ∧ reply = .ok .notFound
    | some stored =>
      if stored.counter = expected then
        let written := Lease.inWords { lease with counter := expected + 1 }
        after = Function.update shelf lease.leaseKey (some written) ∧ reply = .ok (.updated written)
      else after = shelf ∧ reply = .ok .versionConflict
  | .perform (.delete leaseKey), reply, after => after = Function.update shelf leaseKey none ∧ reply = .ok ()
  | .perform .isEmpty, reply, after =>
    after = shelf ∧ ∃ empty, (empty = true ↔ ∀ leaseKey, shelf leaseKey = none) ∧ reply = .ok empty
  | .get leaseKey, reply, after => after = shelf ∧ reply = .ok (shelf leaseKey)
  | .listForStream stream, reply, after =>
    after = shelf ∧ ∃ leases, shelf.Lists leases ∧
      reply = .ok (leases.filter fun lease => lease.stream = some stream)
  | .put lease, _, after => after = Function.update shelf lease.leaseKey (some lease)
  | .restore saved, reply, after =>
    match MemoryStore.savedLeases? saved with
    | none => after = shelf ∧ reply = .error .serialization
    | some leases => after = ofLeases leases ∧ reply = .ok leases.length
  | .failNext _, _, after => after = shelf

end Shelf

/-- A map with the number of calls that are still to fail. -/
structure StoreView where
  shelf : Shelf
  due : Nat

namespace StoreView

def empty : StoreView where
  shelf _ := none
  due := 0

/-- What an operation answers, and what it leaves. -/
def Serves (before : StoreView) (operation : StoreOperation) (reply : operation.Reply)
    (after : StoreView) : Prop :=
  if operation.isFallible ∧ 0 < before.due then
    operation.Failed reply ∧ after.shelf = before.shelf ∧ after.due = before.due - 1
  else
    before.shelf.Answers operation reply after.shelf ∧ after.due = operation.dueAfter before.due

/-- Operations, one after another. -/
inductive Run : StoreView → List Served → StoreView → Prop where
  | nil (view : StoreView) : Run view [] view
  | cons {before between after : StoreView} {served : Served} {rest : List Served}
      (serves : before.Serves served.operation served.reply between) (run : Run between rest after) :
      Run before (served :: rest) after

end StoreView

namespace MemoryStore

def view (store : MemoryStore) : StoreView := ⟨store.table.get?, store.failures⟩

end MemoryStore

/-! ## The table as a map -/

namespace LeaseTable

/-- Every lease is stored under its own key. -/
def Keyed (table : LeaseTable) : Prop :=
  ∀ leaseKey lease, table.get? leaseKey = some lease → lease.leaseKey = leaseKey

theorem get?_put (table : LeaseTable) (lease : Lease) :
    (table.put lease).get? = Function.update table.get? lease.leaseKey (some lease) := by
  funext leaseKey
  by_cases same : leaseKey = lease.leaseKey
  · subst same
    simp [put]
  · rw [Function.update_of_ne same]
    exact SortedMap.get?_insert_of_ne _ same _

theorem get?_erase (table : LeaseTable) (leaseKey : String) :
    SortedMap.get? (table.erase leaseKey) = Function.update table.get? leaseKey none := by
  funext other
  rw [SortedMap.get?_erase]
  by_cases same : other = leaseKey
  · subst same
    simp
  · rw [Function.update_of_ne same, if_neg]
    exact fun equal => same (Std.LawfulEqCmp.eq_of_compare equal)

theorem get?_ofLeases_eq (leases : List Lease) : (ofLeases leases).get? = Shelf.ofLeases leases := by
  induction leases using List.reverseRecOn with
  | nil => rfl
  | append_singleton leases lease ih =>
    have last : ofLeases (leases ++ [lease]) = (ofLeases leases).put lease := by
      simp [ofLeases]
    rw [last, get?_put, ih]
    funext leaseKey
    by_cases same : leaseKey = lease.leaseKey
    · subst same
      simp [Shelf.ofLeases]
    · rw [Function.update_of_ne same]
      simp [Shelf.ofLeases, Ne.symm same]

theorem isEmpty_iff (table : LeaseTable) : table.isEmpty = true ↔ ∀ leaseKey, table.get? leaseKey = none := by
  constructor
  · intro empty leaseKey
    have noEntries : table.entries = [] := List.isEmpty_iff.1 empty
    simp [SortedMap.get?, noEntries, SortedMap.lookupEntry]
  · intro none
    have same : table = .empty := SortedMap.ext_get? none
    rw [same]
    rfl

namespace Keyed

variable {table : LeaseTable}

theorem put (keyed : table.Keyed) (lease : Lease) : (table.put lease).Keyed := fun _ _ found =>
  SortedMap.forall_insert (P := fun leaseKey lease => lease.leaseKey = leaseKey) rfl
    (fun _ found => keyed _ _ found) found

theorem erase (keyed : table.Keyed) (leaseKey : String) : LeaseTable.Keyed (table.erase leaseKey) :=
  fun _ _ found => keyed _ _ (SortedMap.get?_erase_eq_some_iff.1 found).2

theorem ofLeases (leases : List Lease) : (LeaseTable.ofLeases leases).Keyed :=
  fun _ _ found => (get?_ofLeases found).2

theorem performIn (keyed : table.Keyed) (capacity : Capacity) (call : StoreCall) :
    (table.performIn capacity call).2.Keyed := by
  cases call with
  | list | isEmpty => exact keyed
  | delete leaseKey => exact keyed.erase leaseKey
  | create lease =>
    rcases table.create_cases lease with ⟨same, _⟩ | ⟨_, created⟩
    · simp only [LeaseTable.performIn, LeaseTable.perform, same]
      exact keyed
    · simp only [LeaseTable.performIn, LeaseTable.perform, created]
      exact keyed.put lease
  | update lease expected =>
    cases outcome : (table.updateIn capacity lease expected).1 with
    | updated written =>
      simp only [LeaseTable.performIn, updateIn_table outcome]
      exact keyed.put written
    | versionConflict | notFound =>
      have same : (table.updateIn capacity lease expected).2 = table := updateIn_refused (by simp [outcome])
      simp only [LeaseTable.performIn, same]
      exact keyed

theorem perform (keyed : table.Keyed) (call : StoreCall) : (table.perform call).2.Keyed := by
  rw [← performIn_unlimited]
  exact keyed.performIn .unlimited call

/-- What is listed is the map. -/
theorem lists (keyed : table.Keyed) : Shelf.Lists table.get? table.leases where
  sorted := by
    refine List.pairwise_map.2 (table.sorted.imp_of_mem fun {first second} here there before => ?_)
    rw [keyed _ _ (SortedMap.get?_eq_some_iff.2 here), keyed _ _ (SortedMap.get?_eq_some_iff.2 there)]
    exact compareOfLessAndEq_eq_lt.1 before
  mem := by
    intro lease
    rw [mem_leases]
    constructor
    · rintro ⟨leaseKey, found⟩
      rw [keyed _ _ found]
      exact found
    · exact fun found => ⟨_, found⟩

end Keyed

end LeaseTable

namespace MemoryStore

variable {store : MemoryStore}

/-! ## One operation -/

/-- A call that is told to fail does nothing else. -/
theorem guarded_due {α : Type} (due : 0 < store.failures)
    (action : LeaseTable → Except StoreError α × LeaseTable) :
    store.guarded action = (.error injectedFailure, { store with failures := store.failures - 1 }) := by
  obtain ⟨table, failures⟩ := store
  cases failures with
  | zero => cases due
  | succ failures => rfl

theorem guarded_free {α : Type} (free : store.failures = 0)
    (action : LeaseTable → Except StoreError α × LeaseTable) :
    store.guarded action = ((action store.table).1, { store with table := (action store.table).2 }) := by
  obtain ⟨table, failures⟩ := store
  obtain rfl : failures = 0 := free
  rfl

end MemoryStore

/-! ## Runs of the map -/

/-- What is not told to fail is not answered by the failure that it would be told. -/
theorem Shelf.Answers.not_failed {shelf after : Shelf} {operation : StoreOperation} {reply : operation.Reply}
    (answers : shelf.Answers operation reply after) : ¬operation.Failed reply := by
  intro failed
  cases operation with
  | perform call =>
    obtain rfl : reply = call.failed MemoryStore.injectedFailure := failed
    cases call with
    | list => exact (nomatch answers.2)
    | isEmpty => exact (nomatch answers.2)
    | delete leaseKey => exact (nomatch answers.2)
    | create lease =>
      simp only [Shelf.Answers] at answers
      split at answers
      · exact (nomatch answers.2)
      · split at answers
        · exact (nomatch answers.2)
        · exact (nomatch answers.2)
    | update lease expected =>
      simp only [Shelf.Answers] at answers
      split at answers
      · exact (nomatch answers.2)
      · split at answers
        · exact (nomatch answers.2)
        · exact (nomatch answers.2)
  | get leaseKey =>
    obtain rfl : reply = .error MemoryStore.injectedFailure := failed
    exact (nomatch answers.2)
  | listForStream stream =>
    obtain rfl : reply = .error MemoryStore.injectedFailure := failed
    exact (nomatch answers.2)
  | put _ | restore _ | failNext _ => exact failed

/-- What an operation has done to the lease of one key. -/
inductive Shelf.Change (leaseKey : String) (shelf after : Shelf) (served : Served) : Prop where
  | kept (same : after leaseKey = shelf leaseKey) (loses : ∀ expected, served.wins leaseKey expected = false)
  | created (absent : shelf leaseKey = none) (loses : ∀ expected, served.wins leaseKey expected = false)
  | updated (stored written : Lease) (found : shelf leaseKey = some stored) (now : after leaseKey = some written)
      (rises : stored.counter < written.counter)
      (wins : ∀ expected, served.wins leaseKey expected = true → expected = stored.counter)

/-- Who does not get past the fence of a lease keeps it, creates it or updates it. -/
theorem Shelf.Answers.change {shelf after : Shelf} {served : Served} {leaseKey : String}
    (answers : shelf.Answers served.operation served.reply after) (kept : ¬served.Resets leaseKey) :
    Shelf.Change leaseKey shelf after served := by
  obtain ⟨operation, reply⟩ := served
  cases operation with
  | perform call =>
    cases call with
    | list | isEmpty => exact .kept (by rw [answers.1]) fun _ => rfl
    | delete deleted =>
      obtain ⟨rfl, rfl⟩ := answers
      have differs : leaseKey ≠ deleted := fun same => kept (.inl same.symm)
      exact .kept (Function.update_of_ne differs ..) fun _ => rfl
    | create lease =>
      simp only [Shelf.Answers] at answers
      have loses (expected : Nat) : Served.wins leaseKey expected ⟨.perform (.create lease), reply⟩ = false := rfl
      by_cases noKey : lease.leaseKey = ""
      · rw [if_pos noKey] at answers
        exact .kept (by rw [answers.1]) loses
      · rw [if_neg noKey] at answers
        by_cases taken : (shelf lease.leaseKey).isSome
        · rw [if_pos taken] at answers
          exact .kept (by rw [answers.1]) loses
        · rw [if_neg taken] at answers
          obtain ⟨rfl, rfl⟩ := answers
          by_cases same : leaseKey = lease.leaseKey
          · exact .created (by simpa [same] using taken) loses
          · exact .kept (Function.update_of_ne same ..) loses
    | update lease expected =>
      simp only [Shelf.Answers] at answers
      split at answers
      next =>
        obtain ⟨rfl, rfl⟩ := answers
        exact .kept rfl fun _ => rfl
      next stored found =>
        by_cases current : stored.counter = expected
        · rw [if_pos current] at answers
          obtain ⟨rfl, rfl⟩ := answers
          by_cases same : leaseKey = lease.leaseKey
          · subst same
            refine .updated stored (Lease.inWords { lease with counter := expected + 1 }) found (by simp) ?_ ?_
            · have word : expected + 1 < Decimal.wordLimit :=
                Nat.lt_of_not_le fun beyond => kept (.inr ⟨_, rfl, rfl, beyond⟩)
              rw [current, Lease.inWords, Nat.mod_eq_of_lt word]
              exact Nat.lt_succ_self _
            intro other wins
            simp only [Served.wins, Served.applied?, StoreCall.applied?, Option.any_some, Bool.and_eq_true,
              decide_eq_true_eq] at wins
            rw [current, wins.2]
          · refine .kept (Function.update_of_ne same ..) fun other => ?_
            simp [Served.wins, Served.applied?, StoreCall.applied?, Ne.symm same]
        · rw [if_neg current] at answers
          obtain ⟨rfl, rfl⟩ := answers
          exact .kept rfl fun _ => rfl
  | get _ | listForStream _ => exact .kept (by rw [answers.1]) fun _ => rfl
  | put lease =>
    obtain rfl := answers
    exact .kept (Function.update_of_ne (fun same => kept (.inl same.symm)) ..) fun _ => rfl
  | restore saved =>
    simp only [Shelf.Answers] at answers
    split at answers
    next => exact .kept (by rw [answers.1]) fun _ => rfl
    next leases read =>
      obtain ⟨rfl, rfl⟩ := answers
      exact absurd (.inl trivial) kept
  | failNext count => exact .kept (by rw [show after = shelf from answers]) fun _ => rfl

namespace StoreView

theorem Serves.change {before after : StoreView} {served : Served} {leaseKey : String}
    (serves : before.Serves served.operation served.reply after) (kept : ¬served.Resets leaseKey) :
    Shelf.Change leaseKey before.shelf after.shelf served := by
  unfold Serves at serves
  split at serves
  next failing =>
    obtain ⟨failed, same, _⟩ := serves
    refine .kept (by rw [same]) fun expected => ?_
    obtain ⟨operation, reply⟩ := served
    cases operation with
    | perform call =>
      obtain rfl : reply = call.failed MemoryStore.injectedFailure := failed
      simp [Served.wins, Served.applied?, StoreCall.applied?_failed]
    | _ => rfl
  next => exact serves.1.change kept

namespace Run

variable {before after : StoreView} {done : List Served} {leaseKey : String}

/-- A demand for failures is met by the next calls, and by no later one. -/
theorem failures (run : Run before done after)
    (noDemand : ∀ served ∈ done, ∀ count, served.operation ≠ .failNext count) :
    let calls := done.filter fun served => served.operation.isFallible
    (∀ served ∈ calls.take before.due, served.operation.Failed served.reply) ∧
      ∀ served ∈ calls.drop before.due, ¬served.operation.Failed served.reply := by
  induction run with
  | nil => simp
  | @cons before between after served rest serves run ih =>
    have later := ih fun other mem => noDemand other (List.mem_cons_of_mem _ mem)
    unfold Serves at serves
    split at serves
    next failing =>
      obtain ⟨due, isDue⟩ : ∃ due, before.due = due + 1 := Nat.exists_eq_add_of_lt failing.2 |>.imp (by omega)
      obtain ⟨failed, _, isLess⟩ := serves
      rw [isDue, Nat.add_sub_cancel] at isLess
      rw [isLess] at later
      simp only [List.filter_cons, failing.1, if_true, isDue, List.take_succ_cons, List.drop_succ_cons,
        List.forall_mem_cons]
      exact ⟨⟨failed, later.1⟩, later.2⟩
    next free =>
      have sameDue : between.due = before.due := by
        rw [serves.2]
        cases isOperation : served.operation with
        | failNext count => exact absurd isOperation (noDemand served List.mem_cons_self count)
        | _ => rfl
      rw [sameDue] at later
      by_cases fallible : served.operation.isFallible = true
      · -- no failure is due, so this call and all later ones are answered
        have noneDue : before.due = 0 := Nat.eq_zero_of_not_pos fun due => free ⟨fallible, due⟩
        rw [noneDue] at later ⊢
        simp only [List.filter_cons, fallible, if_true, List.take_zero, List.drop_zero, List.forall_mem_cons]
        exact ⟨by simp, serves.1.not_failed, by simpa using later.2⟩
      · simp only [List.filter_cons, fallible]
        exact later

/-- As long as it does not begin again, the counter of a lease does not fall. -/
theorem counter_le (run : Run before done after) (kept : ∀ served ∈ done, ¬served.Resets leaseKey)
    {stored : Lease} (found : before.shelf leaseKey = some stored) :
    ∃ later, after.shelf leaseKey = some later ∧ stored.counter ≤ later.counter := by
  induction run generalizing stored with
  | nil => exact ⟨stored, found, Nat.le_refl _⟩
  | @cons before between after served rest serves run ih =>
    have later {stored : Lease} := @ih (fun other mem => kept other (List.mem_cons_of_mem _ mem)) stored
    cases serves.change (kept served List.mem_cons_self) with
    | kept same _ => exact later (same.trans found)
    | created absent _ => simp [found] at absent
    | updated earlier written here now rises _ =>
      obtain rfl := Option.some.inj (here.symm.trans found)
      obtain ⟨last, there, le⟩ := later now
      exact ⟨last, there, by omega⟩

end Run

end StoreView

/-! ## Runs of the store -/

namespace MemoryStore

/-- An update is applied if no failure is due and the stored counter is the expected one. -/
theorem perform_updated {store : MemoryStore} {lease written : Lease} {expected : Nat} :
    (store.perform (.update lease expected)).1 = .ok (.updated written) ↔
      store.failures = 0 ∧ (∃ stored, store.view.shelf lease.leaseKey = some stored ∧ stored.counter = expected) ∧
        written = Lease.inWords { lease with counter := expected + 1 } := by
  by_cases due : 0 < store.failures
  · simp [perform, guarded_due due, Nat.ne_of_gt due]
  · have free := Nat.eq_zero_of_not_pos due
    rw [perform, guarded_free free]
    simp only [LeaseTable.performIn, Except.ok.injEq, LeaseTable.updateIn_updated, free, true_and]
    rfl

/-- Of two updates from one counter the first is applied. -/
example :
    let lease : Lease := { leaseKey := "s1", shardId := "s1" }
    let done := ({} : MemoryStore).served
      [.perform (.create lease), .perform (.update lease 0), .perform (.update lease 0)]
    done.map (·.wins "s1" 0) = [false, true, false] := by
  decide +kernel

end MemoryStore

end LeaseFleet
