import MixedMonotone.Scalar
import MixedMonotone.Settings

/-!
# Tags

A tag says what is known about the sign of a node, and with it along which argument the node's
parent reads it.

* `Tag.ofValues`, `Tag.ofBounds`: the tags of constants and of variables confined to a box.
* `Tag.add`, `Tag.mul`, `Tag.list`, `Tag.prod`: the tag of a result from the tags of its operands.
-/

namespace MixedMonotone

/-- What is known about the sign of all values of a node. -/
inductive Tag where
  /-- Nondecreasing and nonnegative. -/
  | nonneg
  /-- Nonincreasing and nonpositive. -/
  | nonpos
  /-- Nothing is known. -/
  | unknown
  deriving DecidableEq, Repr

namespace Tag

variable {α : Type} [Scalar α]

/-- The tag's abbreviation in listings. -/
def abbreviation : Tag → String
  | nonneg => "NN"
  | nonpos => "NP"
  | unknown => "U"

/-- Whether the sign is known. -/
def isKnown : Tag → Bool
  | unknown => false
  | _ => true

/-- The tag of the negated node. -/
def negate : Tag → Tag
  | nonneg => nonpos
  | nonpos => nonneg
  | unknown => unknown

/-- The tag of a single number; one that compares with nothing is unknown. -/
def ofValue (v : α) : Tag :=
  if Scalar.le 0 v then nonneg else if Scalar.le v 0 then nonpos else unknown

/-- The tag of a variable confined to the box from `lower` to `upper`: the lower corner decides for
nonnegative, then the upper one for nonpositive. -/
def ofBounds (lower upper : List α) : Tag :=
  if lower.all (Scalar.le 0 ·) then nonneg
  else if upper.all (Scalar.le · 0) then nonpos
  else unknown

/-- The tag of a constant vector. -/
def ofValues (values : List α) : ParameterSign → Tag
  | .reduced => ofBounds values values
  | .lastComponent => (values.getLast?.map ofValue).getD unknown

/-- The tag of a sum of two. -/
def add : Tag → Tag → Tag
  | nonneg, nonneg => nonneg
  | nonpos, nonpos => nonpos
  | _, _ => unknown

/-- The tag of a product or a quotient of two. -/
def mul : Tag → Tag → Tag
  | nonneg, nonneg | nonpos, nonpos => nonneg
  | nonneg, nonpos | nonpos, nonneg => nonpos
  | _, _ => unknown

/-- The tag of several nodes packed into one vector. -/
def list (tags : List Tag) : Tag :=
  if tags.all (· == nonneg) then nonneg
  else if tags.all (· == nonpos) then nonpos
  else unknown

/-- The tag of the product of all `n` components of a node: a nonpositive one has the sign of the
parity of `n`. -/
def prod : Tag → Nat → Tag
  | nonneg, _ => nonneg
  | nonpos, n => if n % 2 = 0 then nonneg else nonpos
  | unknown, _ => unknown

end Tag

end MixedMonotone
