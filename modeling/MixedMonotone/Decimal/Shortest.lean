import MixedMonotone.Binary64
import MixedMonotone.Decimal.Positional

/-!
# Shortest decimal text

The numbers that round to a given double form an interval around it. The shortest text is taken
from the **coarsest decimal grid with a point in that interval**.

* `Span`: a double and the interval that rounds to it, over one denominator.
* `Span.pick?`: the point of one grid in the interval, the nearer one of two.
* `Span.coarsest`: the search from coarse to fine grids.
* `shortest`: the text, positional at every magnitude.
-/

namespace MixedMonotone.Decimal

open Binary64 (Parts parts minExponent)

/-- The number `value / den` with the interval from `lower / den` to `upper / den` of numbers that
round to it; the ends belong to it iff `closed`. -/
structure Span where
  lower : Nat
  value : Nat
  upper : Nat
  den : Nat
  closed : Bool
  deriving DecidableEq, Repr

/-- The span of `significand · 2 ^ exponent`, in units of a quarter of the last place. Below a power
of two the doubles lie twice as dense, and an even significand attracts its ties. -/
def Span.ofParts (significand : Nat) (exponent : Int) : Span :=
  let dense := significand == pow2 52 && minExponent < exponent
  let unit := if 2 ≤ exponent then pow2 (exponent - 2).toNat else 1
  { lower := (4 * significand - if dense then 1 else 2) * unit
    value := 4 * significand * unit
    upper := (4 * significand + 2) * unit
    den := if 2 ≤ exponent then 1 else pow2 (2 - exponent).toNat
    closed := significand % 2 == 0 }

/-- The span measured on the grid of the multiples of `10 ^ grid`: its four numbers with the
denominator of that unit. -/
def Span.onGrid (s : Span) (grid : Int) : Span :=
  if 0 ≤ grid then { s with den := s.den * pow10 grid.toNat }
  else
    let factor := pow10 (-grid).toNat
    { s with lower := s.lower * factor, value := s.value * factor, upper := s.upper * factor }

/-- Whether the whole number `n` lies in the span. -/
def Span.contains (s : Span) (n : Nat) : Bool :=
  if s.closed then s.lower ≤ n * s.den && n * s.den ≤ s.upper
  else s.lower < n * s.den && n * s.den < s.upper

/-- The whole number in the span nearest to its value, **the larger one of two equally near**. If
any whole number lies in the span, one of the two neighbours of the value does. -/
def Span.pick? (s : Span) : Option Nat :=
  let below := s.value / s.den
  match s.contains below, s.contains (below + 1) with
  | true, true => some (if 2 * (s.value % s.den) < s.den then below else below + 1)
  | true, false => some below
  | false, true => some (below + 1)
  | false, false => none

/-- The first hit on the grids `10 ^ (base + n)`, …, `10 ^ (base + 1)`, `10 ^ base`, on the last of
which the value itself lies. -/
def Span.coarsest (s : Span) (base : Int) : Nat → Nat × Int
  | 0 => ((s.onGrid base).value / (s.onGrid base).den, base)
  | n + 1 =>
    match (s.onGrid (base + (n + 1 : Nat))).pick? with
    | some c => (c, base + (n + 1 : Nat))
    | none => s.coarsest base n

/-- Digits `c` and grid `p` of the shortest decimal `c · 10 ^ p` that rounds to
`significand · 2 ^ exponent`. -/
def shortestDigits (significand : Nat) (exponent : Int) : Nat × Int :=
  let s := Span.ofParts significand exponent
  let base := min exponent 0
  let top : Int := (Nat.toDigits 10 (s.upper / s.den)).length
  s.coarsest base (top - base).toNat

/-- The fewest digits that read back as the double, the nearest of those, **never with an exponent**
and without a point on whole numbers. -/
def shortest (x : Float) : String :=
  match parts x with
  | .nan => "NaN"
  | .infinite negative => signed negative "inf"
  | .finite negative significand exponent =>
    signed negative <|
      if significand = 0 then "0"
      else
        let (digits, grid) := shortestDigits significand exponent
        if 0 ≤ grid then positional (digits * pow10 grid.toNat) 0
        else positional digits (-grid).toNat

end MixedMonotone.Decimal
