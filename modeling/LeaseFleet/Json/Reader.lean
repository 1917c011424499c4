import LeaseFleet.Decimal.Text
import LeaseFleet.Json.Value

/-!
# Reading JSON

A reader takes a value off the front of the characters and returns the rest. A number is read
as far as its digits fit one 64-bit word; a number with a fraction or an exponent is that word
scaled by one power of ten. Nesting deeper than the limit is refused.
-/

namespace LeaseFleet.Json

open LeaseFleet.Decimal (digitValue wordLimit)

/-- Arrays and objects may be nested less deep than this. -/
def depthLimit : Nat := 128

/-- Drops the blanks that JSON allows between its tokens. -/
def skipBlanks : List Char → List Char
  | [] => []
  | c :: rest =>
    if c = ' ' || c = '\n' || c = '\t' || c = '\r' then skipBlanks rest else c :: rest

def dropWord (word : List Char) (text : List Char) : Option (List Char) :=
  match word, text with
  | [], rest => some rest
  | _ :: _, [] => none
  | w :: word, c :: rest => if w = c then dropWord word rest else none

/-! ## Numbers -/

/-- Takes digits as long as the value fits one word; returns the value, how many digits were
taken, and the rest. -/
def takeWord (value taken : Nat) : List Char → Nat × Nat × List Char
  | [] => (value, taken, [])
  | c :: rest =>
    if c.isDigit && 10 * value + digitValue c < wordLimit then
      takeWord (10 * value + digitValue c) (taken + 1) rest
    else (value, taken, c :: rest)

def powerOfTen (n : Nat) : Float := Float.ofScientific 1 false n

/-- Divides by a large power of ten, in steps of the largest one that a double holds. -/
def scaleDown (x : Float) (exponent : Nat) : Nat → Float
  | 0 => x
  | steps + 1 =>
    if exponent ≤ 308 then x / powerOfTen exponent
    else if x == 0 then x
    else scaleDown (x / powerOfTen 308) (exponent - 308) steps

/-- A word scaled by a power of ten, unless that is beyond the doubles. -/
def scale (significand : Nat) (exponent : Int) : Option Float :=
  let x := significand.toUInt64.toFloat
  if exponent < 0 then some (scaleDown x exponent.natAbs 4)
  else if significand = 0 then some x
  else if 308 < exponent then none
  else
    let y := x * powerOfTen exponent.toNat
    if y.isInf then none else some y

/-- Reads the part of a number after its exponent mark. -/
def readExponent (significand : Nat) (exponent : Int) (text : List Char) :
    Option (Float × List Char) :=
  let (down, digits) := match text with
    | '-' :: rest => (true, rest)
    | '+' :: rest => (false, rest)
    | rest => (false, rest)
  let shown := digits.takeWhile Char.isDigit
  if shown.isEmpty then none
  else
    let rest := digits.drop shown.length
    let value : Int := Decimal.ofDigits shown
    let total := if down then exponent - value else exponent + value
    (scale significand total).map fun x => (x, rest)

/-- Reads what may follow the digits of a number: a fraction, an exponent, both or none. -/
def readTail (significand : Nat) (exponent : Int) (text : List Char) :
    Option (Option Float × List Char) :=
  match text with
  | '.' :: rest =>
    if (rest.head?.any Char.isDigit) then
      let (value, taken, rest) := takeWord significand 0 rest
      let rest := rest.dropWhile Char.isDigit
      let exponent := exponent - taken
      match rest with
      | 'e' :: more | 'E' :: more =>
        (readExponent value exponent more).map fun (x, rest) => (some x, rest)
      | _ => (scale value exponent).map fun x => (some x, rest)
    else none
  | 'e' :: rest | 'E' :: rest =>
    (readExponent significand exponent rest).map fun (x, rest) => (some x, rest)
  | rest =>
    if exponent = 0 then some (none, rest)
    else (scale significand exponent).map fun x => (some x, rest)

/-- The value of a whole number that was written without a fraction. -/
def wholeNumber (minus : Bool) (n : Nat) : Json :=
  if !minus then .natural n
  else if n = 0 || wordLimit / 2 < n then .real (-n.toUInt64.toFloat)
  else .negative n

/-- Reads a number whose sign has been taken off. -/
def readNumber (minus : Bool) (text : List Char) : Option (Json × List Char) :=
  let shown := text.takeWhile Char.isDigit
  if shown.isEmpty || (shown.head? = some '0' && 1 < shown.length) then none
  else
    let (value, taken, _) := takeWord 0 0 shown
    let extra : Int := (shown.length - taken : Nat)
    match readTail value extra (text.drop shown.length) with
    | none => none
    | some (none, rest) => some (wholeNumber minus value, rest)
    | some (some x, rest) => some (.real (if minus then -x else x), rest)

/-! ## Texts -/

def hexValue? (c : Char) : Option Nat :=
  if c.isDigit then some (digitValue c)
  else if 'a' ≤ c && c ≤ 'f' then some (c.toNat - 'a'.toNat + 10)
  else if 'A' ≤ c && c ≤ 'F' then some (c.toNat - 'A'.toNat + 10)
  else none

def readHex : List Char → Option (Nat × List Char)
  | a :: b :: c :: d :: rest => do
    let a ← hexValue? a
    let b ← hexValue? b
    let c ← hexValue? c
    let d ← hexValue? d
    some (((a * 16 + b) * 16 + c) * 16 + d, rest)
  | _ => none

/-- Reads what follows the `u` of an escape: one code unit, or a pair that makes one
character. -/
def readUnicode (text : List Char) : Option (Char × List Char) := do
  let (unit, rest) ← readHex text
  if 0xdc00 ≤ unit && unit < 0xe000 then none
  else if 0xd800 ≤ unit && unit < 0xdc00 then
    match rest with
    | '\\' :: 'u' :: more => do
      let (second, rest) ← readHex more
      if 0xdc00 ≤ second && second < 0xe000 then
        some (Char.ofNat (0x10000 + (unit - 0xd800) * 0x400 + (second - 0xdc00)), rest)
      else none
    | _ => none
  else some (Char.ofNat unit, rest)

def readEscape : List Char → Option (Char × List Char)
  | 'u' :: rest => readUnicode rest
  | '"' :: rest => some ('"', rest)
  | '\\' :: rest => some ('\\', rest)
  | '/' :: rest => some ('/', rest)
  | 'b' :: rest => some (Char.ofNat 8, rest)
  | 'f' :: rest => some (Char.ofNat 12, rest)
  | 'n' :: rest => some ('\n', rest)
  | 'r' :: rest => some ('\r', rest)
  | 't' :: rest => some ('\t', rest)
  | _ => none

/-- Reads the characters of a quoted text up to its closing quote; `fuel` is at least the number
of characters left, and `seen` holds those read so far, the last one first. -/
def readQuoted (seen : List Char) : (fuel : Nat) → List Char → Option (String × List Char)
  | 0, _ => none
  | fuel + 1, text =>
    match text with
    | [] => none
    | '"' :: rest => some (String.ofList seen.reverse, rest)
    | '\\' :: rest =>
      match readEscape rest with
      | none => none
      | some (c, rest) => readQuoted (c :: seen) fuel rest
    | c :: rest => if c.toNat < 32 then none else readQuoted (c :: seen) fuel rest

/-! ## Values -/

mutual

/-- Reads a value, `depth` more levels of nesting being allowed. -/
def readValue (depth : Nat) : (fuel : Nat) → List Char → Option (Json × List Char)
  | 0, _ => none
  | fuel + 1, text =>
    match skipBlanks text with
    | 'n' :: rest => (dropWord ['u', 'l', 'l'] rest).map (Json.null, ·)
    | 't' :: rest => (dropWord ['r', 'u', 'e'] rest).map (Json.bool true, ·)
    | 'f' :: rest => (dropWord ['a', 'l', 's', 'e'] rest).map (Json.bool false, ·)
    | '"' :: rest => (readQuoted [] (rest.length + 1) rest).map fun (s, rest) => (.string s, rest)
    | '-' :: rest => readNumber true rest
    | '[' :: rest =>
      if depth ≤ 1 then none
      else match skipBlanks rest with
        | ']' :: rest => some (.array [], rest)
        | rest => (readItems (depth - 1) [] fuel rest).map fun (items, rest) => (.array items, rest)
    | '\x7b' :: rest =>
      if depth ≤ 1 then none
      else match skipBlanks rest with
        | '\x7d' :: rest => some (.object [], rest)
        | rest =>
          (readFields (depth - 1) [] fuel rest).map fun (fields, rest) => (.object fields, rest)
    | rest => readNumber false rest

/-- Reads the items of an array and its closing bracket. -/
def readItems (depth : Nat) (seen : List Json) :
    (fuel : Nat) → List Char → Option (List Json × List Char)
  | 0, _ => none
  | fuel + 1, text =>
    match readValue depth fuel text with
    | none => none
    | some (item, rest) =>
      match skipBlanks rest with
      | ',' :: rest => readItems depth (item :: seen) fuel rest
      | ']' :: rest => some ((item :: seen).reverse, rest)
      | _ => none

/-- Reads the fields of an object and its closing brace. -/
def readFields (depth : Nat) (seen : List (String × Json)) :
    (fuel : Nat) → List Char → Option (List (String × Json) × List Char)
  | 0, _ => none
  | fuel + 1, text =>
    match skipBlanks text with
    | '"' :: rest =>
      match readQuoted [] (rest.length + 1) rest with
      | none => none
      | some (name, rest) =>
        match skipBlanks rest with
        | ':' :: rest =>
          match readValue depth fuel rest with
          | none => none
          | some (value, rest) =>
            match skipBlanks rest with
            | ',' :: rest => readFields depth ((name, value) :: seen) fuel rest
            | '\x7d' :: rest => some (((name, value) :: seen).reverse, rest)
            | _ => none
        | _ => none
    | _ => none

end

def read (text : String) : Option Json :=
  let chars := text.toList
  match readValue depthLimit (2 * chars.length + 2) chars with
  | some (value, rest) => if (skipBlanks rest).isEmpty then some value else none
  | none => none

end LeaseFleet.Json
