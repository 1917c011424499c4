import LeaseFleet.Decimal.Text

/-!
# Network addresses

The written form of an internet address with a port: four decimal numbers, or eight groups of
hexadecimal digits in brackets, of which one run of zeros may be left out. Reading accepts all of
these forms, and writing chooses the canonical one.
-/

namespace LeaseFleet

/-- An internet address with a port. -/
inductive SocketAddress where
  | v4 (octets : List Nat) (port : Nat)
  | v6 (groups : List Nat) (scope : Nat) (port : Nat)
  deriving DecidableEq, Repr

namespace SocketAddress

/-! ## Reading -/

/-- A reader takes a value off the front of a text. -/
abbrev Reader (α : Type) := List Char → Option (α × List Char)

/-- The value of a digit in a radix up to sixteen. -/
def digitIn (radix : Nat) (c : Char) : Option Nat :=
  let value :=
    if c.isDigit then c.toNat - '0'.toNat
    else if 'a' ≤ c && c ≤ 'f' then c.toNat - 'a'.toNat + 10
    else if 'A' ≤ c && c ≤ 'F' then c.toNat - 'A'.toNat + 10
    else 16
  if value < radix then some value else none

/-- Reads a number below a limit, of at most so many digits; zeros in front are allowed or not. -/
def number (radix limit : Nat) (mostDigits : Option Nat) (zerosInFront : Bool) : Reader Nat :=
  fun text =>
    let digits := text.takeWhile fun c => (digitIn radix c).isSome
    let value := digits.foldl (fun n c => n * radix + (digitIn radix c).getD 0) 0
    if digits.isEmpty || mostDigits.any (· < digits.length) || limit ≤ value then none
    else if !zerosInFront && digits.head? = some '0' && 1 < digits.length then none
    else some (value, text.drop digits.length)

def char (expected : Char) : Reader Unit
  | [] => none
  | c :: rest => if c = expected then some ((), rest) else none

/-- Reads a separator in front of every item but the first. -/
def separated {α : Type} (separator : Char) (first : Bool) (item : Reader α) : Reader α :=
  fun text => do
    if first then item text
    else
      let (_, text) ← char separator text
      item text

/-- Reads so many of the four numbers of a short address. -/
def octets : (left : Nat) → Reader (List Nat)
  | 0, text => some ([], text)
  | left + 1, text => do
    let (octet, text) ← separated '.' (left = 3) (number 10 256 (some 3) false) text
    let (rest, text) ← octets left text
    return (octet :: rest, text)

def port : Reader Nat := fun text => do
  let (_, text) ← char ':' text
  number 10 65536 none true text

def readV4 : Reader SocketAddress := fun text => do
  let (octets, text) ← octets 4 text
  let (port, text) ← port text
  return (.v4 octets port, text)

/-- The two groups that the four numbers of a short address make. -/
def embeddedGroups : List Nat → List Nat
  | [a, b, c, d] => [a * 256 + b, c * 256 + d]
  | _ => []

/-- Reads up to so many groups; the last two may be written as a short address. Tells whether they
were. -/
def groups : (left : Nat) → (first : Bool) → List Char → (List Nat × Bool) × List Char
  | 0, _, text => (([], false), text)
  | left + 1, first, text =>
    match if 0 < left then separated ':' first (octets 4) text else none with
    | some (short, text) => ((embeddedGroups short, true), text)
    | none =>
      match separated ':' first (number 16 65536 (some 4) true) text with
      | none => (([], false), text)
      | some (group, text) =>
        let ((rest, embedded), text) := groups left false text
        ((group :: rest, embedded), text)

/-- Reads the eight groups of a long address. -/
def longAddress : Reader (List Nat) := fun text =>
  let ((head, embedded), text) := groups 8 true text
  if head.length = 8 then some (head, text)
  else if embedded then none
  else do
    let (_, text) ← char ':' text
    let (_, text) ← char ':' text
    let ((tail, _), text) := groups (7 - head.length) true text
    return (head ++ List.replicate (8 - head.length - tail.length) 0 ++ tail, text)

def scopeLimit : Nat := 0x100000000

def scope : Reader Nat := fun text => do
  let (_, text) ← char '%' text
  number 10 scopeLimit none true text

def readV6 : Reader SocketAddress := fun text => do
  let (_, text) ← char '[' text
  let (groups, text) ← longAddress text
  let (scope, text) := (scope text).getD (0, text)
  let (_, text) ← char ']' text
  let (port, text) ← port text
  return (.v6 groups scope port, text)

def ofText? (text : String) : Option SocketAddress :=
  match (readV4 text.toList).or (readV6 text.toList) with
  | some (address, []) => some address
  | _ => none

/-- What is said of a text that is no address. -/
def syntaxProblem : String := "invalid socket address syntax"

/-! ## Writing -/

def shortText (octets : List Nat) : String := ".".intercalate (octets.map toString)

def groupsText (groups : List Nat) : String :=
  ":".intercalate (groups.map fun group => String.ofList (Nat.toDigits 16 group))

/-- Start and length of the longest run of zeros, the first of several. -/
def longestZeros (groups : List Nat) : Nat × Nat :=
  let runs := (List.range groups.length).map fun start =>
    (start, ((groups.drop start).takeWhile (· = 0)).length)
  runs.foldl (fun longest run => if longest.2 < run.2 then run else longest) (0, 0)

def longText (groups : List Nat) : String :=
  match groups with
  | [0, 0, 0, 0, 0, 0xffff, high, low] =>
    "::ffff:" ++ shortText [high / 256, high % 256, low / 256, low % 256]
  | _ =>
    let (start, length) := longestZeros groups
    if 1 < length then
      groupsText (groups.take start) ++ "::" ++ groupsText (groups.drop (start + length))
    else groupsText groups

def text : SocketAddress → String
  | v4 octets port => shortText octets ++ ":" ++ toString port
  | v6 groups scope port =>
    let scopeText := if scope = 0 then "" else "%" ++ toString scope
    "[" ++ longText groups ++ scopeText ++ "]:" ++ toString port

end SocketAddress

end LeaseFleet
