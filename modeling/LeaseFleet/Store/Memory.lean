import LeaseFleet.Json.Reader
import LeaseFleet.Json.Writer
import LeaseFleet.Lease.Json
import LeaseFleet.Store.Table

/-!
# The in-memory store

A lease table that keeps the numbers of its leases as words, that can be told to fail its next calls, and
that can be saved to bytes and restored from them.
-/

namespace LeaseFleet

/-- A lease table together with the number of calls that are still to fail. -/
structure MemoryStore where
  table : LeaseTable := .empty
  failures : Nat := 0

namespace MemoryStore

/-- The error of a call that was told to fail. -/
def injectedFailure : StoreError := .transient "injected store failure"

def failNext (store : MemoryStore) (count : Nat) : MemoryStore := { store with failures := count }

/-- Runs an action on the table, unless a failure is due. -/
def guarded {α : Type} (store : MemoryStore)
    (action : LeaseTable → Except StoreError α × LeaseTable) : Except StoreError α × MemoryStore :=
  match store.failures with
  | failures + 1 => (.error injectedFailure, { store with failures })
  | 0 =>
    let (reply, table) := action store.table
    (reply, { store with table })

def perform (store : MemoryStore) (call : StoreCall) : call.Reply × MemoryStore :=
  store.guarded fun table => table.performIn .words call

def get (store : MemoryStore) (leaseKey : String) :
    Except StoreError (Option Lease) × MemoryStore :=
  store.guarded fun table => (.ok (table.get? leaseKey), table)

/-- The leases of one stream, by its serialized identifier, taken from a listing. -/
def listForStream (store : MemoryStore) (stream : String) :
    Except StoreError (List Lease) × MemoryStore :=
  let (reply, after) := store.perform .list
  (reply.map (List.filter fun lease => lease.stream = some stream), after)

def put (store : MemoryStore) (lease : Lease) : MemoryStore :=
  { store with table := store.table.put lease }

def toJson (store : MemoryStore) : Json := .array (store.table.leases.map Lease.toJson)

/-- The bytes of a saved table. -/
def snapshot (store : MemoryStore) : ByteArray := store.toJson.write.toUTF8

def leasesOfJson? (json : Json) : Option (List Lease) := json.asList? Lease.ofJson?

/-- The leases of a saved table. -/
def savedLeases? (saved : ByteArray) : Option (List Lease) := do
  leasesOfJson? (← Json.read (← String.fromUTF8? saved))

/-- Replaces the table by a saved one and counts its leases; bytes that are no saved table change
nothing. -/
def restore (store : MemoryStore) (saved : ByteArray) : Except StoreError Nat × MemoryStore :=
  match savedLeases? saved with
  | none => (.error .serialization, store)
  | some leases => (.ok leases.length, { store with table := .ofLeases leases })

end MemoryStore

end LeaseFleet
