import MixedMonotone.Power

/-!
# Positional decimal text

* `positional`: a whole number of units of `10 ^ -places`, written without an exponent.
-/

namespace MixedMonotone.Decimal

/-- The decimal digits of `n`, filled up with zeros on the left to at least `width` digits. -/
def padded (width n : Nat) : String :=
  let digits := Nat.toDigits 10 n
  String.ofList (List.replicate (width - digits.length) '0' ++ digits)

/-- The text of `n · 10 ^ -places`, with exactly `places` digits after the point, and no point if
there are none. -/
def positional (n places : Nat) : String :=
  if places = 0 then padded 1 n
  else padded 1 (n / pow10 places) ++ "." ++ padded places (n % pow10 places)

/-- A sign in front of a text. -/
def signed (negative : Bool) (text : String) : String := if negative then "-" ++ text else text

end MixedMonotone.Decimal
