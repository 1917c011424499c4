/-!
# What a store call may fail with

The causes of a failed store call and their wording. Only a transient failure may succeed when
the same call is issued again.
-/

namespace LeaseFleet

/-- Why a store call failed. -/
inductive StoreError where
  | transient (reason : String)
  | invalidArguments (reason : String)
  | invalidStream (reason : String)
  /-- The stored text is not a table. -/
  | serialization
  | unknown (reason : String)
  deriving DecidableEq, Repr

namespace StoreError

def message : StoreError → String
  | transient reason => "Transient store failure: " ++ reason
  | invalidArguments reason => "Invalid arguments: " ++ reason
  | invalidStream reason => "Invalid stream identifier: " ++ reason
  | serialization => "Serialization error"
  | unknown reason => "Unknown error occurred: " ++ reason

/-- Whether the failed call may succeed if it is simply issued again. -/
def isRetryable : StoreError → Bool
  | transient _ => true
  | _ => false

end StoreError

end LeaseFleet
