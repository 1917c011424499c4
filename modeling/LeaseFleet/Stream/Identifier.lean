import LeaseFleet.Decimal.Text
import LeaseFleet.Store.Error

/-!
# Stream identifiers

A stream is named in one of three forms: its plain name, `account:name:epoch`, or its ARN
`arn:<partition>:kinesis:<region>:<account>:stream/<name>`. The two readers accept exactly these
forms, and `serialize` chooses the form under which the leases of a stream are stored.
-/

namespace LeaseFleet

/-- The identity of a stream. A single-stream worker knows only the name; a multi-stream worker
also knows the account and the creation epoch or the region. -/
structure StreamIdentifier where
  accountId : Option String
  streamName : String
  creationEpoch : Option Nat
  region : Option String
  deriving DecidableEq, Repr

namespace StreamIdentifier

/-- Streams are ordered by account, name, epoch and region, a missing part coming first. -/
instance : Ord StreamIdentifier where
  compare := compareLex (compareOn accountId) (compareLex (compareOn streamName)
    (compareLex (compareOn creationEpoch) (compareOn region)))

instance : Std.TransOrd StreamIdentifier :=
  inferInstanceAs (Std.TransCmp (compareLex (compareOn accountId) (compareLex
    (compareOn streamName) (compareLex (compareOn creationEpoch) (compareOn region)))))

instance : Std.LawfulEqOrd StreamIdentifier where
  eq_of_compare {left right} h := by
    simp only [compare, compareLex_eq_eq] at h
    obtain ⟨account, name, epoch, region⟩ := h
    cases left
    cases right
    simp only [mk.injEq]
    exact ⟨Std.LawfulEqCmp.eq_of_compare account, Std.LawfulEqCmp.eq_of_compare name,
      Std.LawfulEqCmp.eq_of_compare epoch, Std.LawfulEqCmp.eq_of_compare region⟩

/-! ## The written forms -/

def arnText (region account name : String) : String :=
  "arn:aws:kinesis:" ++ region ++ ":" ++ account ++ ":stream/" ++ name

/-- The text under which the leases of a stream are stored: the name alone when no account is
known, else the epoch form, else the ARN. -/
def serialize (stream : StreamIdentifier) : String :=
  match stream.accountId, stream.creationEpoch with
  | none, _ => stream.streamName
  | some account, some epoch => account ++ ":" ++ stream.streamName ++ ":" ++ toString epoch
  | some account, none => arnText (stream.region.getD "") account stream.streamName

/-- The ARN, when both account and region are known. -/
def arn? (stream : StreamIdentifier) : Option String :=
  match stream.accountId, stream.region with
  | some account, some region => some (arnText region account stream.streamName)
  | _, _ => none

/-- Whether the identifier names an account. -/
def isMultiStream (stream : StreamIdentifier) : Bool := stream.accountId.isSome

/-! ## Reading -/

/-- Splits a text at every occurrence of a separator. -/
def splitAtEvery (separator : Char) : List Char → List (List Char)
  | [] => [[]]
  | c :: rest =>
    if c = separator then [] :: splitAtEvery separator rest
    else match splitAtEvery separator rest with
      | [] => [[c]]
      | part :: parts => (c :: part) :: parts

/-- Takes the part before the first separator; `none` when there is no separator. -/
def splitFirst (separator : Char) : List Char → Option (List Char × List Char)
  | [] => none
  | c :: rest =>
    if c = separator then some ([], rest)
    else (splitFirst separator rest).map fun (part, rest) => (c :: part, rest)

def dropBeginning (beginning text : List Char) : Option (List Char) :=
  match beginning, text with
  | [], rest => some rest
  | _ :: _, [] => none
  | b :: beginning, c :: rest => if b = c then dropBeginning beginning rest else none

/-- The creation epoch that digits spell, if it fits one 64-bit word. -/
def epochOfDigits (digits : List Char) : Option Nat :=
  let value := Decimal.ofDigits digits
  if value < Decimal.wordLimit then some value else none

/-- Reads `account:name:epoch`. -/
def ofSerialized? (text : List Char) : Option StreamIdentifier :=
  match splitAtEvery ':' text with
  | [account, name, epoch] =>
    if Decimal.isDigits account && !name.isEmpty && Decimal.isDigits epoch then
      some
        { accountId := some (String.ofList account)
          streamName := String.ofList name
          creationEpoch := epochOfDigits epoch
          region := none }
    else none
  | _ => none

def isRegionChar (c : Char) : Bool := c.isLower || c.isDigit || c = '-'

/-- Whether the text is an account of twelve digits. -/
def isAccount (text : List Char) : Bool := text.length = 12 && text.all Char.isDigit

/-- Reads a stream ARN. The name is all that follows `stream/`, further colons included. -/
def ofArn? (text : List Char) : Option StreamIdentifier := do
  let rest ← dropBeginning "arn:".toList text
  let (partition, rest) ← splitFirst ':' rest
  let (service, rest) ← splitFirst ':' rest
  let (region, rest) ← splitFirst ':' rest
  let (account, resource) ← splitFirst ':' rest
  let name ← dropBeginning "stream/".toList resource
  let _ ← dropBeginning "aws".toList partition
  if service = "kinesis".toList && !region.isEmpty && region.all isRegionChar &&
      isAccount account && !name.isEmpty then
    some
      { accountId := some (String.ofList account)
        streamName := String.ofList name
        creationEpoch := none
        region := some (String.ofList region) }
  else none

/-- Reads a multi-stream identifier: the epoch form or an ARN. -/
def ofMulti (text : String) : Except StoreError StreamIdentifier :=
  match (ofSerialized? text.toList).or (ofArn? text.toList) with
  | some stream => .ok stream
  | none =>
    .error (.invalidStream ("unable to deserialize stream identifier from " ++ text))

/-- Reads a single-stream identifier: an ARN, or else any text as the plain name. -/
def ofSingle (text : String) : Except StoreError StreamIdentifier :=
  if text.isEmpty then .error (.invalidStream "stream name should not be empty")
  else match ofArn? text.toList with
    | some stream => .ok stream
    | none =>
      .ok { accountId := none, streamName := text, creationEpoch := none, region := none }

/-- Builds a multi-stream identifier from its parts, by way of their epoch form. -/
def ofParts (account name : String) (epoch : Nat) : Except StoreError StreamIdentifier :=
  ofMulti (account ++ ":" ++ name ++ ":" ++ toString epoch)

end StreamIdentifier

end LeaseFleet
