import MixedMonotone.Arena

/-!
# Evaluation on the arena

Evaluating a node overwrites the values of the nodes below it. Each operand is evaluated once per
planned route, from left to right, and its value is **copied out right after**, since the next pass
may overwrite it.

* `Dual.along`: the two points in the order that a route asks for.
* `Pass`: one evaluation of one operand.
* `evaluateBelow`: the recursion, on the position of the node.
* `Arena.evaluate`: the value of a node.

Every access is checked: there is no result if an index or a length does not fit.
-/

namespace MixedMonotone

variable {α : Type}

/-- The pair as seen along a route. -/
def Dual.along {β : Type} (d : Dual β) : Route → Dual β
  | .own => d
  | .swapped => d.flip

/-- The points `(x, y)` of an evaluation. -/
abbrev Points (α : Type) := Dual (List α)

/-- An evaluation of one operand along one route. -/
structure Pass where
  /-- The number of the operand. -/
  operand : Nat
  /-- Its position in the arena. -/
  position : Nat
  route : Route
  deriving DecidableEq, Repr

/-- The passes of an application, in order: operand after operand, own before swapped. -/
def Application.passes (f : Application α) : List Pass :=
  f.operands.zipIdx.flatMap fun (position, operand) =>
    (f.plan.routes operand).map fun route => ⟨operand, position, route⟩

/-- The scratch with the values of one operand along one route replaced by values of equal
length. -/
def store (scratch : List (OperandValues α)) (operand : Nat) (route : Route) (value : List α) :
    Option (List (OperandValues α)) := do
  let slots ← scratch[operand]?
  if (slots.get route).length = value.length then
    some (scratch.set operand (slots.set route value))
  else none

/-- An evaluation: the nodes it leaves. -/
abbrev Evaluation (α : Type) := Points α → List (Node α) → Option (List (Node α))

/-- One pass, given how the nodes further down are evaluated. A constant matrix needs none. -/
def runPass (below : Nat → Evaluation α) (points : Points α)
    (state : List (Node α) × List (OperandValues α)) (pass : Pass) :
    Option (List (Node α) × List (OperandValues α)) := do
  let (nodes, scratch) := state
  let operand ← nodes[pass.position]?
  if operand.isMatrix then some state
  else
    let nodes ← below pass.position (points.along pass.route) nodes
    let operand ← nodes[pass.position]?
    return (nodes, ← store scratch pass.operand pass.route operand.value)

variable [Scalar α]

/-- The evaluation of the node at position `i`, given how the nodes further down are evaluated. A
variable takes the first point. -/
def evaluateNode (below : Nat → Evaluation α) (i : Nat) : Evaluation α := fun points nodes => do
  let n ← nodes[i]?
  match n.kind with
  | .parameter | .matrixParameter _ => some nodes
  | .variable _ =>
    if n.value.length = points.own.length then some (nodes.set i { n with value := points.own })
    else none
  | .function f =>
    let (nodes, scratch) ← f.passes.foldlM (runPass below points) (nodes, f.scratch)
    let value ← f.op.combine f.plan scratch n.dimension
    return nodes.set i { n with kind := .function { f with scratch }, value }

/-- The evaluation of the nodes at positions below `n`. Operands stand before their parent, so none
is ever asked for that does not. -/
def evaluateBelow : Nat → Nat → Evaluation α
  | 0, _ => fun _ _ => none
  | n + 1, i => if i = n then evaluateNode (evaluateBelow n) i else evaluateBelow n i

/-- The evaluation of the node at position `i`. -/
def evaluateAt (i : Nat) : Evaluation α := evaluateBelow (i + 1) i

/-- A larger bound makes no difference. -/
theorem evaluateBelow_of_lt {i n : Nat} (h : i < n) :
    evaluateBelow (α := α) n i = evaluateAt i := by
  induction n with
  | zero => omega
  | succ n ih =>
    rcases Nat.lt_succ_iff_lt_or_eq.1 h with h | rfl
    · rw [evaluateBelow, if_neg (by omega), ih h]
    · rfl

/-- Evaluation at one node refers to the nodes at smaller positions. -/
theorem evaluateAt_eq (i : Nat) :
    evaluateAt (α := α) i = evaluateNode (evaluateBelow i) i := by
  simp [evaluateAt, evaluateBelow]

/-- **The value of the node at position `i`**, which the arena keeps. -/
def Arena.evaluate (i : Nat) (points : Points α) : Action α (Arena α) (List α) := fun a =>
  match evaluateAt i points a.nodes with
  | none => .error .outOfRange a
  | some nodes =>
    match nodes[i]? with
    | none => .error .outOfRange a
    | some n => .ok n.value { a with nodes }

end MixedMonotone
