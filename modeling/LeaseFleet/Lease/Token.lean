/-!
# Acquisition tokens

Every acquisition of a lease gets a token of its own, so that whoever works under an earlier
acquisition of the same lease can be told apart.
-/

namespace LeaseFleet

/-- Names one acquisition of a lease. -/
structure Token where
  serial : Nat
  deriving DecidableEq, Repr

namespace Token

instance : Ord Token := ⟨compareOn serial⟩

instance : Std.TransOrd Token := inferInstanceAs (Std.TransCmp (compareOn serial))

instance : Std.LawfulEqOrd Token where
  eq_of_compare {left right} h := by
    have serials : compare left.serial right.serial = .eq := h
    have same : left.serial = right.serial := Std.LawfulEqCmp.eq_of_compare serials
    cases left
    exact congrArg mk same

end Token

end LeaseFleet
