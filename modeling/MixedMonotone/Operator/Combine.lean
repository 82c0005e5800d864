import MixedMonotone.Operator
import MixedMonotone.Matrix.Product

/-!
# Combining operand values

* `Op.combine`: the value of a function node from the values of its operands along both routes.

Every access is checked: there is no value if an index or a length does not fit.
-/

namespace MixedMonotone

variable {α : Type} [Scalar α]

/-- The values of one operand along the two routes. -/
abbrev OperandValues (α : Type) := Dual (List α)

namespace OperandValues

/-- Component `i` along both routes; a single component **stands for all**. -/
def component? (v : OperandValues α) (i : Nat) : Option (Dual α) :=
  let i := if v.own.length = 1 then 0 else i
  match v.own[i]?, v.swapped[i]? with
  | some a, some b => some ⟨a, b⟩
  | _, _ => none

end OperandValues

namespace Op

/-- The first `n` components of two operands, combined pair by pair. -/
def zipComponents (op : Arith) (s : Strategy) (l r : OperandValues α) (n : Nat) : Option (List α) :=
  (List.range n).mapM fun i => do return op.combine s (← l.component? i) (← r.component? i)

/-- **The value of a function node** with `dimension` components, from the values of its
operands. -/
def combine (op : Op α) (plan : Plan) (operands : List (OperandValues α)) (dimension : Nat) :
    Option (List α) :=
  match op, operands with
  | arith a, [l, r] => zipComponents a plan.strategy l r dimension
  | dot, [l, r] => do
    return [Scalar.sum (← zipComponents .mul plan.strategy l r l.own.length)]
  | matvec (.signed m route), [_, v] => m.mulVec (v.get route)
  | matvec (.split above below), [_, v] => above.mulSplit below v
  | log2, [v] => some ((v.get plan.route).map Scalar.log2)
  | ln, [v] => some ((v.get plan.route).map Scalar.ln)
  | neg, [v] => some ((v.get plan.route).map (- ·))
  | reciprocal, [v] => some ((v.get plan.route).map Scalar.reciprocal)
  | sum, [v] => some [Scalar.sum (v.get plan.route)]
  | prod, [v] =>
    some [if plan = .interval then intervalProduct v.own v.swapped
      else Scalar.product (v.get plan.route)]
  | list, vs => vs.mapM fun v => (v.get plan.route).head?
  | slice start, [v] =>
    if start + dimension ≤ (v.get plan.route).length then
      some (((v.get plan.route).drop start).take dimension)
    else none
  | _, _ => none

end Op

end MixedMonotone
