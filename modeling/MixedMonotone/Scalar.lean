/-!
# Scalars

The numbers that expressions compute with.

* `Scalar`: arithmetic, numeric comparisons and the two logarithms. The class states **no law**, so
  every definition over it can be read in binary floating point, in exact arithmetic, or with all
  operations left uninterpreted.
* `Scalar.max`, `Scalar.min`: the larger and the smaller of two numbers; an operand that does not
  equal itself (a "not a number") is ignored.
* `Scalar.sum`, `Scalar.product`: left-to-right folds in the order the operations are carried out.
* `ScalarText`: the two written forms of a number.
-/

namespace MixedMonotone

/-- Numbers with **numeric** comparisons: `beq` may identify numbers that differ as data (the two
signed zeros) and may fail to identify a number with itself. -/
class Scalar (α : Type) extends Zero α, One α, Add α, Mul α, Div α, Neg α where
  /-- Numeric "less than". -/
  lt : α → α → Bool
  /-- Numeric "at most". -/
  le : α → α → Bool
  /-- Numeric equality. -/
  beq : α → α → Bool
  /-- The logarithm to base two. -/
  log2 : α → α
  /-- The natural logarithm. -/
  ln : α → α

namespace Scalar

variable {α : Type} [Scalar α]

/-- The larger of two numbers; the other one if `a` does not equal itself. -/
def max (a b : α) : α := if lt a b || !beq a a then b else a

/-- The smaller of two numbers; the other one if `a` does not equal itself. -/
def min (a b : α) : α := if lt b a || !beq a a then b else a

/-- `1 / a`. -/
def reciprocal (a : α) : α := 1 / a

/-- The part of `a` above zero. -/
def positivePart (a : α) : α := max a 0

/-- The part of `a` below zero. -/
def negativePart (a : α) : α := min a 0

/-- The sum from left to right, starting from **minus zero**, the neutral element of addition also
where the two zeros differ. -/
def sum (values : List α) : α := values.foldl (· + ·) (-0)

/-- The product from left to right, starting from one. -/
def product (values : List α) : α := values.foldl (· * ·) 1

end Scalar

/-- The written forms of a number. -/
class ScalarText (α : Type) where
  /-- The fewest digits that determine the number, without an exponent. -/
  shortest : α → String
  /-- Exactly three decimal places. -/
  threePlaces : α → String

end MixedMonotone
