import MixedMonotone.Route

/-!
# Bounding kernels of binary arithmetic

A binary node bounds `a + b`, `a * b` or `a / b` componentwise from its operands' values along both
routes. Which routes are needed follows from the operands' tags, once, when the node is built.

* `Strategy`: how the two operands are routed and combined.
* `Arith.strategy`: the strategy for two tags.
* `Arith.combine`: the bound of one pair of components under a strategy.
* `intervalProduct`: the upper bound of a product of many components of unknown sign.
-/

namespace MixedMonotone

/-- The elementwise binary operators. -/
inductive Arith where
  | add
  | mul
  | div
  deriving DecidableEq, Repr

/-- How the operands of a binary node are routed and combined. -/
inductive Strategy where
  /-- Both signs known: each operand along one route. -/
  | direct (left right : Route)
  /-- Left sign unknown: the left value is split at zero, and each part meets the right operand
  along the route that part asks for. -/
  | splitLeft (left : Route)
  /-- Right sign unknown: the left route follows, per component, from the sign of the right
  value. -/
  | selectLeft (right : Route)
  /-- Both signs unknown. -/
  | splitBoth
  deriving DecidableEq, Repr

namespace Strategy

/-- The routes along which the left operand is evaluated. -/
def leftRoutes : Strategy → List Route
  | direct left _ | splitLeft left => [left]
  | selectLeft _ | splitBoth => Route.both

/-- The routes along which the right operand is evaluated. -/
def rightRoutes : Strategy → List Route
  | direct _ right | selectLeft right => [right]
  | splitLeft _ | splitBoth => Route.both

end Strategy

namespace Arith

variable {α : Type} [Scalar α]

/-- The operator's name in listings. -/
def name : Arith → String
  | add => "add"
  | mul => "mult"
  | div => "div"

/-- The operator on two numbers. -/
def apply (op : Arith) (a b : α) : α :=
  match op with
  | add => a + b
  | mul => a * b
  | div => a / b

/-- The tag of the result. -/
def tag : Arith → Tag → Tag → Tag
  | add => Tag.add
  | mul | div => Tag.mul

/-- The route of the left operand when the right one has the sign `right`. -/
def leftRoute (op : Arith) (right : Tag) : Route :=
  match op with
  | add => .own
  | mul | div => right.route

/-- The route of the right operand when the left one has the sign `left`: a quotient falls where its
divisor rises. -/
def rightRoute (op : Arith) (left : Tag) : Route :=
  match op with
  | add => .own
  | mul => left.route
  | div => left.negate.route

/-- The strategy for operands with the given tags. -/
def strategy (op : Arith) (left right : Tag) : Strategy :=
  match op with
  | add => .direct .own .own
  | mul | div =>
    match left.isKnown, right.isKnown with
    | true, true => .direct (op.leftRoute right) (op.rightRoute left)
    | false, true => .splitLeft (op.leftRoute right)
    | true, false => .selectLeft (op.rightRoute left)
    | false, false => .splitBoth

/-- The operator on one part of a split operand: a part that is zero contributes nothing, also
against an infinite or zero right value. -/
def part (op : Arith) (a b : α) : α := if Scalar.beq a 0 then 0 else op.apply a b

/-- The **bound of one pair of components**, from both operands' values along both routes. Only the
routes that the strategy names are read. -/
def combine (op : Arith) (s : Strategy) (l r : Dual α) : α :=
  let forPositive := r.get (op.rightRoute .nonneg)
  let forNegative := r.get (op.rightRoute .nonpos)
  match s with
  | .direct left right => op.apply (l.get left) (r.get right)
  | .splitLeft left =>
    let v := l.get left
    op.part (Scalar.positivePart v) forPositive + op.part (Scalar.negativePart v) forNegative
  | .selectLeft right =>
    let v := r.get right
    op.apply (l.get (.forValue v)) v
  | .splitBoth =>
    op.part (Scalar.positivePart (l.get (.forValue forPositive))) forPositive +
      op.part (Scalar.negativePart (l.get (.forValue forNegative))) forNegative

end Arith

/-- One factor of the product fold: `bounds.own` bounds the product so far from above and
`bounds.swapped` from below. The lower bound is the upper one with every route exchanged. -/
def intervalStep {α : Type} [Scalar α] (bounds factor : Dual α) : Dual α :=
  ⟨Arith.mul.combine .splitBoth bounds factor, Arith.mul.combine .splitBoth bounds.flip factor.flip⟩

/-- The **upper bound of the product** of components whose values along the two routes are given;
the shorter list counts. -/
def intervalProduct {α : Type} [Scalar α] (own swapped : List α) : α :=
  ((own.zip swapped).foldl (fun bounds f => intervalStep bounds ⟨f.1, f.2⟩) ⟨1, 1⟩).own

end MixedMonotone
