import LeaseFleet.Script.Basic

/-!
# Looking leases up

The lease store lists all leases at once; whoever wants some of them picks them from a listing.
-/

namespace LeaseFleet.Script

variable {σ Job : Type}

def findLease (leaseKey : String) : Script σ Job (Except StoreError (Option Lease)) := do
  match ← call .list with
  | .ok leases => return .ok (leases.find? (·.leaseKey = leaseKey))
  | .error error => return .error error

/-- The leases of one stream, by its serialized identifier. -/
def leasesOfStream (stream : String) : Script σ Job (Except StoreError (List Lease)) := do
  match ← call .list with
  | .ok leases => return .ok (leases.filter (·.stream = some stream))
  | .error error => return .error error

end LeaseFleet.Script
