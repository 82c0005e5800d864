import MixedMonotone.Power
import MixedMonotone.Rounding

/-!
# Double precision numbers as exact values

* `Binary64.Parts`: a double is not a number, infinite, or `± significand · 2 ^ exponent`.
* `Binary64.parts`: the parts of a double, read off its bits.
* `Binary64.nearest`: the double **nearest** to a quotient of natural numbers, a tie going to the
  even significand, too large quotients to infinity.
-/

namespace MixedMonotone.Binary64

/-- What a double stands for. -/
inductive Parts where
  /-- Not a number. -/
  | nan
  /-- Plus or minus infinity. -/
  | infinite (negative : Bool)
  /-- The number `± significand · 2 ^ exponent`. -/
  | finite (negative : Bool) (significand : Nat) (exponent : Int)
  deriving DecidableEq, Repr

/-- The exponent of the finest grid, on which the numbers nearest to zero lie. -/
def minExponent : Int := -1074

/-- The parts of the double with the given bits: one sign bit, eleven exponent bits, fifty-two
significand bits. -/
def partsOfBits (bits : Nat) : Parts :=
  let negative := bits / pow2 63 % 2 == 1
  let biased := bits / pow2 52 % pow2 11
  let fraction := bits % pow2 52
  if biased == 2047 then
    if fraction == 0 then .infinite negative else .nan
  else if biased == 0 then .finite negative fraction minExponent
  else .finite negative (pow2 52 + fraction) (minExponent + (biased - 1 : Nat))

/-- The parts of a double. -/
def parts (x : Float) : Parts := partsOfBits x.toBits.toNat

/-- Numerator and denominator of `num / den` measured in units of `2 ^ exponent`. -/
def inUnits (num den : Nat) (exponent : Int) : Nat × Nat :=
  if 0 ≤ exponent then (num, den * pow2 exponent.toNat) else (num * pow2 (-exponent).toNat, den)

/-- The exponent of the grid on which `num / den` has fifty-three significant bits, or the finest
grid if that is coarser. -/
def gridExponent (num den : Nat) : Int :=
  let guess : Int := (num.log2 : Int) - den.log2 - 53
  let (n, d) := inUnits num den guess
  max minExponent (if pow2 53 ≤ n / d then guess + 1 else guess)

/-- The bits, without the sign, of the double nearest to `num / den`. A significand rounded up to
`2 ^ 53` carries into the exponent, and past the last exponent into infinity. -/
def nearestBits (num den : Nat) : Nat :=
  if num = 0 then 0
  else
    let exponent := gridExponent num den
    let (n, d) := inUnits num den exponent
    min (2047 * pow2 52) ((exponent - minExponent).toNat * pow2 52 + roundHalfEven n d)

/-- The double **nearest** to `± num / den`. -/
def nearest (negative : Bool) (num den : Nat) : Float :=
  Float.ofBits (UInt64.ofNat (nearestBits num den + if negative then pow2 63 else 0))

end MixedMonotone.Binary64
