/-!
# Powers of the two bases

* `pow2`, `pow10`: the units of binary and of decimal grids.
-/

namespace MixedMonotone

/-- The `k`-th power of two. -/
def pow2 (k : Nat) : Nat := Nat.pow 2 k

/-- The `k`-th power of ten. -/
def pow10 (k : Nat) : Nat := Nat.pow 10 k

end MixedMonotone
