import MixedMonotone.Constraint

/-!
# Programs

A program is an objective with constraints over one arena of its own.

* `Program`: the type.
* `Program.objective`, `Program.constraintsHold`: what a branch-and-bound solver asks for.
* `Program.evaluate`, `Program.fulfilled`: any node, any single constraint.
* `Program.declaredBounds`: the intersection of the boxes of its variables.
* `Program.dump`: the listing of the objective and of every constraint.
-/

namespace MixedMonotone

/-- A constraint of a program: the position of its node, and the relation. -/
structure Check where
  position : Nat
  relation : Relation
  deriving DecidableEq, Repr

/-- An objective with constraints. -/
structure Program (α : Type) where
  arena : Arena α
  /-- The position of the objective. -/
  root : Nat
  constraints : List Check
  /-- The common dimension of the variables, if there are any. -/
  inputDimension : Option Nat
  zeroRule : ZeroRule
  deriving DecidableEq

/-- The box of the points that two boxes share. -/
def Box.intersect {α : Type} [Scalar α] (a b : Box α) : Box α where
  lower := List.zipWith Scalar.max a.lower b.lower
  upper := List.zipWith Scalar.min a.upper b.upper

namespace Program

variable {α : Type}

/-- The nodes in the order of their creation. -/
def nodes (p : Program α) : List (Node α) := p.arena.nodes

/-- The handle of the objective. -/
def rootId? (p : Program α) : Option NodeId := p.nodes[p.root]?.map Node.id

/-- A call on the arena of a program. -/
def onArena {β : Type} (act : Action α (Arena α) β) : Action α (Program α) β :=
  Action.focus Program.arena (fun p a => { p with arena := a }) act

/-- The two points are as long as the variables, or as each other if there are none. -/
def checkInput (p : Program α) (x y : List α) : Except (Error α) Unit :=
  let expected := p.inputDimension.getD x.length
  if x.length = expected ∧ y.length = expected then .ok ()
  else .error (.inputDimension expected x.length y.length)

/-- The position of a node that can be evaluated at the two points. -/
def evaluable (p : Program α) (id : NodeId) (x y : List α) : Except (Error α) Nat := do
  let position ← p.arena.position id
  p.checkInput x y
  return position

/-- The constraint with an index, if it can be evaluated at the two points. -/
def checkable (p : Program α) (index : Nat) (x y : List α) : Except (Error α) Check :=
  match p.constraints[index]? with
  | none => .error (.unknownConstraint index p.constraints.length)
  | some c => do
    p.checkInput x y
    return c

/-- The lower corner of a box, from which a search can start. -/
def feasiblePoint (_ : Program α) (lower _upper : List α) : List α := lower

/-- The heading of a constraint in the listing. -/
def heading (index : Nat) (r : Relation) : String := s!"constraint {index} ({r.name}):\n"

/-- The listing of the objective and everything below it, then of each constraint. -/
def dump [ScalarText α] (p : Program α) : String :=
  listing p.nodes p.root ++ String.join (p.constraints.zipIdx.map fun (c, index) =>
    heading index c.relation ++ listing p.nodes c.position)

variable [Scalar α]

/-- The points in the declared boxes of all variables, as a box; none if no variable has one. -/
def declaredBounds (p : Program α) : Option (Box α) :=
  match p.nodes.filterMap Node.bounds? with
  | [] => none
  | box :: rest => some (rest.foldl Box.intersect box)

/-- **The objective** at the points `(x, y)`. -/
def objective (x y : List α) : Action α (Program α) α := do
  Action.inquire (·.checkInput x y)
  let p ← get
  match (← onArena (Arena.evaluate p.root ⟨x, y⟩)).head? with
  | some v => return v
  | none => throw .outOfRange

/-- The value of any node at the points `(x, y)`. -/
def evaluate (id : NodeId) (x y : List α) : Action α (Program α) (List α) := do
  let position ← Action.inquire (·.evaluable id x y)
  onArena (Arena.evaluate position ⟨x, y⟩)

/-- Whether the constraint with an index holds at the points `(x, y)`. -/
def fulfilled (index : Nat) (x y : List α) : Action α (Program α) Bool := do
  let c ← Action.inquire (·.checkable index x y)
  let p ← get
  return c.relation.holds (← onArena (Arena.evaluate c.position ⟨x, y⟩)) p.zeroRule

/-- Whether the constraints with the given indices hold, asked in order **up to the first that does
not**. -/
def fulfilledInOrder (x y : List α) : List Nat → Action α (Program α) Bool
  | [] => return true
  | index :: rest => do
    if ← fulfilled index x y then fulfilledInOrder x y rest else return false

/-- **Whether every constraint holds** at the points `(x, y)`. -/
def constraintsHold (x y : List α) : Action α (Program α) Bool := do
  fulfilledInOrder x y (List.range (← get).constraints.length)

end Program

end MixedMonotone
