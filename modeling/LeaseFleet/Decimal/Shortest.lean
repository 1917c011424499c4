/-!
# The shortest decimal of a binary number

A finite positive double stands for every real that rounds to it. Its shortest decimal is the
one with the fewest digits among those reals, and of several with that many digits the one
nearest to the double itself, a tie going to the even last digit. All of it is exact integer
arithmetic on the significand and the exponent.
-/

namespace LeaseFleet.Decimal

/-- A positive binary number: `significand` times two to the `exponent`. -/
structure Binary where
  significand : Nat
  exponent : Int
  deriving DecidableEq, Repr

/-- A decimal number: the digits of `significand`, the point standing `exponent` digits to the
right of the last. -/
structure Scaled where
  significand : Nat
  exponent : Int
  deriving DecidableEq, Repr

/-- The leading bit of a significand of full length, which doubles do not store. -/
def leadingBit : Nat := 0x10000000000000

/-- The magnitude of a finite double, and `none` for zero, infinity and NaN. -/
def Binary.ofBits (bits : UInt64) : Option Binary :=
  let field := ((bits >>> 52) &&& 0x7ff).toNat
  let fraction := (bits &&& 0xfffffffffffff).toNat
  if field = 0x7ff then none
  else if field = 0 then if fraction = 0 then none else some ⟨fraction, -1074⟩
  else some ⟨fraction + leadingBit, (field : Int) - 1075⟩

/-- The reals that round to a double, as a fraction: the double is `middle / unit`, and the
interval reaches from `low / unit` to `high / unit`. -/
structure Interval where
  low : Nat
  middle : Nat
  high : Nat
  unit : Nat
  /-- Whether the two ends round to the double themselves. -/
  closed : Bool

/-- The rounding interval of a double. The gap below a power of two is half of the gap above. -/
def Binary.interval (x : Binary) : Interval :=
  let up := Nat.pow 2 (x.exponent - 2).toNat
  let narrow := x.significand = leadingBit ∧ -1074 < x.exponent
  { low := (4 * x.significand - if narrow then 1 else 2) * up
    middle := 4 * x.significand * up
    high := (4 * x.significand + 2) * up
    unit := Nat.pow 2 (2 - x.exponent).toNat
    closed := x.significand % 2 = 0 }

/-- The number of decimal digits of a natural number, none for zero. -/
def digitCount (n : Nat) : Nat := if n = 0 then 0 else (Nat.toDigits 10 n).length

/-- The exponent of the leading digit of a fraction. -/
def leadingExponent (numerator denominator : Nat) : Int :=
  if denominator ≤ numerator then (digitCount (numerator / denominator) : Int) - 1
  else -(digitCount ((denominator + numerator - 1) / numerator - 1) : Int)

/-- Whether a point of the interval's scale lies in the interval. -/
def Interval.contains (i : Interval) (scale point : Nat) : Bool :=
  if i.closed then i.low * scale ≤ point && point ≤ i.high * scale
  else i.low * scale < point && point < i.high * scale

/-- The nearest decimal of the grid `10 ^ e` that lies in the interval. -/
def Interval.onGrid? (i : Interval) (e : Int) : Option Scaled :=
  let scale := Nat.pow 10 (-e).toNat
  let cell := i.unit * Nat.pow 10 e.toNat
  let value := i.middle * scale
  let below := value / cell
  let belowIn := i.contains scale (below * cell)
  let aboveIn := i.contains scale ((below + 1) * cell)
  let downward := value - below * cell
  let upward := (below + 1) * cell - value
  if belowIn && aboveIn then
    if downward < upward ∨ (downward = upward ∧ below % 2 = 0) then some ⟨below, e⟩
    else some ⟨below + 1, e⟩
  else if belowIn then some ⟨below, e⟩
  else if aboveIn then some ⟨below + 1, e⟩
  else none

/-- Tries ever finer grids, `remaining` of them at most. -/
def Interval.search (i : Interval) (lead : Int) (digits : Nat) : Nat → Scaled
  | 0 => ⟨i.middle / i.unit, 0⟩
  | remaining + 1 =>
    match i.onGrid? (lead - digits) with
    | some found => found
    | none => i.search lead (digits + 1) remaining

/-- The shortest decimal that reads back as the double. Seventeen digits always suffice. -/
def Binary.shortest (x : Binary) : Scaled :=
  let i := x.interval
  i.search (leadingExponent i.middle i.unit) 0 18

end LeaseFleet.Decimal
