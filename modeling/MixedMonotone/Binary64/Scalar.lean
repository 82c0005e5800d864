import MixedMonotone.Scalar
import MixedMonotone.Binary64.Logarithm
import MixedMonotone.Decimal.Shortest
import MixedMonotone.Decimal.Fixed

/-!
# Doubles as scalars

The instances with which expressions are evaluated in double precision.
-/

namespace MixedMonotone

/-- Double precision arithmetic with correctly rounded logarithms. -/
instance : Scalar Float where
  zero := 0
  one := 1
  lt a b := a < b
  le a b := a ≤ b
  beq a b := a == b
  log2 := Binary64.log2
  ln := Binary64.ln

/-- Doubles are written with the fewest digits that determine them, or with three places. -/
instance : ScalarText Float where
  shortest := Decimal.shortest
  threePlaces := Decimal.fixed 3

end MixedMonotone
