import LeaseFleet.Decimal.Shortest

/-!
# The written form of numbers

How a decimal is laid out: where the positional form gives way to an exponent, and whether a
whole number shows its fraction. Also the reading and writing of plain natural numbers.
-/

namespace LeaseFleet.Decimal

/-- The layout of a written number. -/
structure Layout where
  /-- Whether a number whose point stands after that many leading digits is written
  positionally. -/
  positional : Int → Bool
  wholeSuffix : String
  notANumber : String
  infinity : String

/-- The digits without the zeros at their end, and how many zeros those were. -/
def trimZeros (digits : List Char) : List Char × Nat :=
  let zeros := (digits.reverse.takeWhile (· = '0')).length
  (digits.take (digits.length - zeros), zeros)

/-- Writes digits whose point stands after the first `point` of them. -/
def Layout.positionalText (layout : Layout) (digits : List Char) (point : Int) : String :=
  if point ≤ 0 then
    "0." ++ String.ofList (List.replicate (-point).toNat '0' ++ digits)
  else if digits.length ≤ point.toNat then
    String.ofList (digits ++ List.replicate (point.toNat - digits.length) '0') ++
      layout.wholeSuffix
  else
    String.ofList (digits.take point.toNat ++ '.' :: digits.drop point.toNat)

/-- Writes digits with one of them before the point, and an exponent. -/
def exponentText (digits : List Char) (point : Int) : String :=
  let mantissa := match digits with
    | [] => ""
    | [d] => String.ofList [d]
    | d :: rest => String.ofList (d :: '.' :: rest)
  mantissa ++ "e" ++ toString (point - 1)

def Layout.magnitudeText (layout : Layout) (x : Scaled) : String :=
  let (digits, zeros) := trimZeros (Nat.toDigits 10 x.significand)
  let point := x.exponent + zeros + digits.length
  if layout.positional point then layout.positionalText digits point
  else exponentText digits point

def Layout.text (layout : Layout) (x : Float) : String :=
  let bits := x.toBits
  let sign := if bits >>> 63 = 0 then "" else "-"
  if x.isNaN then layout.notANumber
  else if x.isInf then sign ++ layout.infinity
  else match Binary.ofBits bits with
    | none => sign ++ "0" ++ layout.wholeSuffix
    | some magnitude => sign ++ layout.magnitudeText magnitude.shortest

/-- Numbers in messages: always positional, a whole number as it is. -/
def plain : Layout where
  positional _ := true
  wholeSuffix := ""
  notANumber := "NaN"
  infinity := "inf"

/-! ## Natural numbers -/

def digitValue (c : Char) : Nat := c.toNat - '0'.toNat

/-- The number that a run of decimal digits spells. -/
def ofDigits (digits : List Char) : Nat :=
  digits.foldl (fun n c => 10 * n + digitValue c) 0

/-- Whether the text is a non-empty run of the digits `0` to `9`. -/
def isDigits (text : List Char) : Bool := !text.isEmpty && text.all Char.isDigit

/-- One more than the largest number that a 64-bit word holds. -/
def wordLimit : Nat := 0x10000000000000000

/-- What is wrong with the text of an integer. -/
inductive IntegerError where
  | empty
  | invalidDigit
  | tooLarge
  | tooSmall
  deriving DecidableEq, Repr

def IntegerError.message : IntegerError → String
  | .empty => "cannot parse integer from empty string"
  | .invalidDigit => "invalid digit found in string"
  | .tooLarge => "number too large to fit in target type"
  | .tooSmall => "number too small to fit in target type"

/-- Reads digits from the left onto the value read so far. The first character that is no digit
or that takes the value to the limit decides the error. -/
def readDigits (limit : Nat) (overflow : IntegerError) (value : Nat) :
    List Char → Except IntegerError Nat
  | [] => .ok value
  | c :: rest =>
    if !c.isDigit then .error .invalidDigit
    else if limit ≤ 10 * value + digitValue c then .error overflow
    else readDigits limit overflow (10 * value + digitValue c) rest

def readMagnitude (limit : Nat) (overflow : IntegerError) (digits : List Char) :
    Except IntegerError Nat :=
  if digits.isEmpty then .error .invalidDigit else readDigits limit overflow 0 digits

/-- Reads a 64-bit natural number; a leading plus sign is allowed. -/
def readWord (text : List Char) : Except IntegerError Nat :=
  match text with
  | [] => .error .empty
  | first :: rest =>
    readMagnitude wordLimit .tooLarge (if first = '+' then rest else first :: rest)

/-- Reads a signed 64-bit integer; a leading sign is allowed. -/
def readSigned (text : List Char) : Except IntegerError Int :=
  match text with
  | [] => .error .empty
  | first :: rest =>
    if first = '-' then
      (readMagnitude (wordLimit / 2 + 1) .tooSmall rest).map fun n => -(n : Int)
    else
      (readMagnitude (wordLimit / 2) .tooLarge (if first = '+' then rest else first :: rest)).map
        fun n => (n : Int)

end LeaseFleet.Decimal
