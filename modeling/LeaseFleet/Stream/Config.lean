import LeaseFleet.SortedMap
import LeaseFleet.Stream.Identifier
import LeaseFleet.Stream.Position

/-!
# Streams to consume

A stream together with where to start on it, and the book of stream ARNs that have been looked
up so far.
-/

namespace LeaseFleet

/-- A stream to consume and where to start on it. -/
structure StreamConfig where
  stream : StreamIdentifier
  position : InitialPosition
  arn : Option String
  deriving DecidableEq, Repr

namespace StreamConfig

/-- The configuration of a stream, with the ARN that its identifier determines. -/
def ofStream (stream : StreamIdentifier) (position : InitialPosition) : StreamConfig :=
  { stream, position, arn := stream.arn? }

/-- The same configuration under another ARN. -/
def withArn (config : StreamConfig) (arn : String) : StreamConfig := { config with arn := some arn }

end StreamConfig

/-- Remembers stream ARNs. A stream that knows no region or account of its own takes those of
the book. -/
structure ArnBook where
  region : String
  defaultAccount : String
  arns : SortedMap StreamIdentifier String := .empty
  deriving DecidableEq

namespace ArnBook

/-- The ARN of a stream that has not been looked up yet. -/
def resolve (book : ArnBook) (stream : StreamIdentifier) : String :=
  stream.arn?.getD
    (StreamIdentifier.arnText book.region (stream.accountId.getD book.defaultAccount)
      stream.streamName)

/-- The ARN of a stream, remembered from then on. -/
def arnFor (book : ArnBook) (stream : StreamIdentifier) : String × ArnBook :=
  match book.arns.get? stream with
  | some arn => (arn, book)
  | none =>
    let arn := book.resolve stream
    (arn, { book with arns := book.arns.insert stream arn })

def invalidate (book : ArnBook) (stream : StreamIdentifier) : ArnBook :=
  { book with arns := book.arns.erase stream }

def clear (book : ArnBook) : ArnBook := { book with arns := .empty }

end ArnBook

end LeaseFleet
