import MixedMonotone.Graph.Function
import MixedMonotone.Graph.Leaf

/-!
# Constraints

A constraint is a node with a relation that **every component** of its value must satisfy.

* `Relation.holds`: the relations on values.
* `Build.atLeast`, `Build.atMost`: the constraints between two nodes, through their difference.
* `Graph.fulfilled`: checking a constraint at two points.
-/

namespace MixedMonotone

/-- A relation of a value to zero. -/
inductive Relation where
  /-- As the settings' zero rule says. -/
  | zero
  /-- No component is positive. -/
  | nonPositive
  /-- No component is negative. -/
  | nonNegative
  deriving DecidableEq, Repr

namespace Relation

/-- The relation's name in listings. -/
def name : Relation → String
  | zero => "Zero"
  | nonPositive => "NonPositive"
  | nonNegative => "NonNegative"

/-- Whether a value satisfies the relation. A component that compares with nothing is neither
positive nor negative nor zero. -/
def holds {α : Type} [Scalar α] (r : Relation) (values : List α) (rule : ZeroRule) : Bool :=
  match r, rule with
  | zero, .rejectZero => !values.any (Scalar.beq · 0)
  | zero, .requireZero => values.all (Scalar.beq · 0)
  | nonPositive, _ => !values.any (Scalar.lt 0 ·)
  | nonNegative, _ => !values.any (Scalar.lt · 0)

end Relation

/-- A node, named by a `ρ`, with the relation its value must satisfy. -/
structure ConstraintOn (ρ : Type) where
  node : ρ
  relation : Relation
  deriving DecidableEq, Repr

/-- A constraint on the node with a handle. -/
abbrev Constraint := ConstraintOn NodeId

variable {α : Type} [Scalar α]

/-- Two nodes of one size; a constant matrix has size zero. -/
def Graph.checkSameSize (lhs rhs : NodeId) (g : Graph α) : Except (Error α) Unit := do
  let l ← g.arena.node lhs
  let r ← g.arena.node rhs
  if l.dimension = r.dimension then .ok ()
  else .error (.dimensionMismatch .constraint (.size l.dimension) (.size r.dimension))

namespace Build

/-- Add `rhs - lhs`, for nodes of one size. -/
def slack (lhs rhs : NodeId) : Build α NodeId := do
  Action.inquire fun s => s.graph.checkSameSize lhs rhs
  sub rhs lhs

/-- The constraint `lhs ≥ rhs`: `rhs - lhs` is nowhere positive. -/
def atLeast (lhs rhs : NodeId) : Build α Constraint := do
  return ⟨← slack lhs rhs, .nonPositive⟩

/-- The constraint `lhs ≤ rhs`: `rhs - lhs` is nowhere negative. -/
def atMost (lhs rhs : NodeId) : Build α Constraint := do
  return ⟨← slack lhs rhs, .nonNegative⟩

end Build

/-- Whether a constraint holds at the points `(x, y)`. -/
def Graph.fulfilled (c : Constraint) (x y : List α) : Action α (Graph α) Bool := do
  let g ← get
  return c.relation.holds (← evaluate c.node x y) g.settings.zeroRule

end MixedMonotone
