import MixedMonotone.Binary64

/-!
# Correctly rounded logarithms

The logarithm of a positive double is enclosed between two multiples of `2 ^ -precision`, computed
in exact integer arithmetic. When both ends round to the same double, that double is the nearest one
to the logarithm; otherwise the precision is doubled.

* `atanh`: the series `z + z ^ 3 / 3 + z ^ 5 / 5 + …`, rounded down, with its error bound.
* `Reduced`: a positive double as `fraction · 2 ^ exponent` with a fraction near one.
* `lnEnclosure`, `log2Enclosure`: the enclosures.
* `ln`, `log2`: minus infinity at either zero, not a number below zero.
-/

namespace MixedMonotone.Binary64

/-- An interval whose ends are multiples of `2 ^ -precision`, given by the multiples. -/
structure Enclosure where
  lower : Int
  upper : Int
  deriving DecidableEq, Repr

namespace Enclosure

/-- The interval that holds a single number. -/
def exactly (n : Int) : Enclosure := ⟨n, n⟩

/-- All sums of a number of `a` and a number of `b`. -/
def add (a b : Enclosure) : Enclosure := ⟨a.lower + b.lower, a.upper + b.upper⟩

/-- All multiples by `k` of the numbers of `a`. -/
def scale (k : Int) (a : Enclosure) : Enclosure :=
  if 0 ≤ k then ⟨k * a.lower, k * a.upper⟩ else ⟨k * a.upper, k * a.lower⟩

/-- All quotients of a number of `a` by a number of `b`, which must be positive, rounded outward to
multiples of `2 ^ -precision`. -/
def div (precision : Nat) (a b : Enclosure) : Enclosure :=
  let unit : Int := pow2 precision
  ⟨Int.fdiv (a.lower * unit) (if 0 ≤ a.lower then b.upper else b.lower),
    -Int.fdiv (-(a.upper * unit)) (if 0 ≤ a.upper then b.lower else b.upper)⟩

/-- The double nearest to `n · 2 ^ -precision`. -/
def endpoint (precision : Nat) (n : Int) : Float :=
  nearest (n < 0) n.natAbs (pow2 precision)

end Enclosure

/-- Partial sums of `z + z ^ 3 / 3 + …` for `z = num / den`, in units of `2 ^ -precision`: `power`
is the current odd power, `odd` its exponent. Every quotient is rounded down. -/
def atanhSum (num den : Nat) : Nat → Nat → Nat → Nat
  | 0, _, _ => 0
  | steps + 1, power, odd =>
    if power = 0 then 0
    else power / odd + atanhSum num den steps (power * num * num / (den * den)) (odd + 2)

/-- The inverse hyperbolic tangent of `num / den`, at most one half. A power is at most two
units too small and a term at most three, and `precision` terms leave less than three
units; exact at zero. -/
def atanh (precision num den : Nat) : Enclosure :=
  let sum := atanhSum num den precision (num * pow2 precision / den) 1
  ⟨sum, if num = 0 then sum else sum + 4 * (precision + 1)⟩

/-- A positive number as `num / 2 ^ scale · 2 ^ exponent`. -/
structure Reduced where
  num : Nat
  scale : Nat
  exponent : Int
  deriving DecidableEq, Repr

/-- The number `significand · 2 ^ exponent` with its fraction brought between `√2 / 2` and `√2`. -/
def reduce (significand : Nat) (exponent : Int) : Reduced :=
  let scale := significand.log2
  if significand * significand ≤ pow2 (2 * scale + 1) then ⟨significand, scale, exponent + scale⟩
  else ⟨significand, scale + 1, exponent + scale + 1⟩

/-- The natural logarithm of two: twice the inverse hyperbolic tangent of one third. -/
def lnTwo (precision : Nat) : Enclosure := (atanh precision 1 3).scale 2

/-- The natural logarithm of the fraction: with `f = num / 2 ^ scale`, twice the inverse hyperbolic
tangent of `(f - 1) / (f + 1)`. -/
def Reduced.lnFraction (r : Reduced) (precision : Nat) : Enclosure :=
  let one := pow2 r.scale
  if one ≤ r.num then (atanh precision (r.num - one) (r.num + one)).scale 2
  else (atanh precision (one - r.num) (r.num + one)).scale (-2)

/-- The natural logarithm. -/
def lnEnclosure (r : Reduced) (precision : Nat) : Enclosure :=
  ((lnTwo precision).scale r.exponent).add (r.lnFraction precision)

/-- The logarithm to base two. -/
def log2Enclosure (r : Reduced) (precision : Nat) : Enclosure :=
  (Enclosure.exactly (r.exponent * pow2 precision)).add
    ((r.lnFraction precision).div precision (lnTwo precision))

/-- The double to which both ends of the enclosure round, doubling the precision at most `rounds`
times. A logarithm of a double is exact or irrational, so it is never half way between two doubles
and some precision settles it. -/
def settle (enclosure : Nat → Enclosure) : Nat → Nat → Float
  | 0, precision => Enclosure.endpoint precision (enclosure precision).lower
  | rounds + 1, precision =>
    let e := enclosure precision
    let below := Enclosure.endpoint precision e.lower
    if below = Enclosure.endpoint precision e.upper then below
    else settle enclosure rounds (2 * precision)

/-- A logarithm on all doubles, given its enclosures on the positive ones. -/
def logarithm (enclosure : Reduced → Nat → Enclosure) (x : Float) : Float :=
  match parts x with
  | .nan => x
  | .infinite negative => if negative then 0 / 0 else x
  | .finite negative significand exponent =>
    if significand = 0 then -1 / 0
    else if negative then 0 / 0
    else settle (enclosure (reduce significand exponent)) 5 192

/-- The double nearest to the natural logarithm. -/
def ln (x : Float) : Float := logarithm lnEnclosure x

/-- The double nearest to the logarithm to base two. -/
def log2 (x : Float) : Float := logarithm log2Enclosure x

end MixedMonotone.Binary64
