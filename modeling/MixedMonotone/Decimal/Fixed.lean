import MixedMonotone.Binary64
import MixedMonotone.Decimal.Positional

/-!
# Decimal text with a fixed number of places

* `fixed`: the exact value rounded to the given places, **a tie going to the even digit**; the sign
  of a negative number stays, also when it rounds to zero.
-/

namespace MixedMonotone.Decimal

open Binary64 (Parts parts inUnits)

/-- The text of a double with exactly `places` digits after the point. -/
def fixed (places : Nat) (x : Float) : String :=
  match parts x with
  | .nan => "NaN"
  | .infinite negative => signed negative "inf"
  | .finite negative significand exponent =>
    let (num, den) := inUnits (significand * pow10 places) 1 (-exponent)
    signed negative (positional (roundHalfEven num den) places)

end MixedMonotone.Decimal
