import LeaseFleet.Decimal.Shortest

/-!
# Numbers to balance with

The arithmetic that planning needs, so that one plan can be read both in double precision and
exactly.
-/

namespace LeaseFleet

/-- Numbers in which utilization is measured and compared. -/
class Scalar (S : Type) extends Sub S, Mul S, Div S where
  ofNat : Nat → S
  ofFloat : Float → S
  /-- Whether the first number is smaller. -/
  below : S → S → Bool
  /-- Whether the first number is smaller or the same. -/
  atMost : S → S → Bool
  /-- The natural number below, and zero for a negative number. -/
  floorNat : S → Nat

namespace Scalar

variable {S : Type} [Scalar S]

/-- How two numbers compare; numbers that cannot be compared count as equal. -/
def order (left right : S) : Ordering :=
  if below left right then .lt else if below right left then .gt else .eq

instance : Scalar Float where
  ofNat n := n.toUInt64.toFloat
  ofFloat x := x
  below left right := left < right
  atMost left right := left ≤ right
  floorNat x := x.floor.toUInt64.toNat

/-- The exact value of a finite double; infinity and NaN count as zero. -/
def exactValue (x : Float) : Rat :=
  match Decimal.Binary.ofBits x.toBits with
  | none => 0
  | some magnitude =>
    let value := (magnitude.significand : Rat) * (2 : Rat) ^ magnitude.exponent
    if x < 0.0 then -value else value

instance : Scalar Rat where
  ofNat n := n
  ofFloat := exactValue
  below left right := left < right
  atMost left right := left ≤ right
  floorNat x := x.floor.toNat

end Scalar

end LeaseFleet
