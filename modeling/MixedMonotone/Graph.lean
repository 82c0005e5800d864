import MixedMonotone.Arena.Evaluate
import MixedMonotone.Arena.Listing
import MixedMonotone.Arena.Reachable

/-!
# Graphs

A graph is an arena to which nodes can be added, with its settings and its table of shared
constants.

* `Graph`: the type.
* `Graph.evaluate`, `Graph.evaluateScalar`: the value of a node at two points.
* `Graph.dump`: the listing below a node.
-/

namespace MixedMonotone

/-- An arena under construction. -/
structure Graph (α : Type) where
  settings : Settings := {}
  arena : Arena α := {}
  /-- The constant vectors that are shared, with their nodes. -/
  interned : List (List α × NodeId) := []
  deriving DecidableEq

namespace Graph

variable {α : Type}

/-- The nodes in the order of their creation. -/
def nodes (g : Graph α) : List (Node α) := g.arena.nodes

/-- A call on the arena of a graph. -/
def onArena {β : Type} (act : Action α (Arena α) β) : Action α (Graph α) β :=
  Action.focus Graph.arena (fun g a => { g with arena := a }) act

/-- The first variable, in the order of creation, that is marked and has not `length` components. -/
def misfit? (nodes : List (Node α)) (marks : List Bool) (length : Nat) : Option (Node α) :=
  ((nodes.zip marks).find? fun p => p.2 && p.1.isVariable && p.1.dimension != length).map Prod.fst

/-- The two points fit the node at a position: they are equally long, and as long as every variable
below it. The variables are reported first, by the length of `x`. -/
def checkInput (g : Graph α) (position : Nat) (x y : List α) : Except (Error α) Unit :=
  match misfit? g.nodes (reachable g.nodes [position]) x.length with
  | some n => .error (.inputDimension n.dimension x.length y.length)
  | none =>
    if x.length = y.length then .ok () else .error (.inputDimension x.length x.length y.length)

/-- The position of a node that can be evaluated at the two points. -/
def evaluable (g : Graph α) (id : NodeId) (x y : List α) : Except (Error α) Nat := do
  let position ← g.arena.position id
  g.checkInput position x y
  return position

/-- A handle names a node with one component. -/
def checkScalar (g : Graph α) (id : NodeId) : Except (Error α) Unit := do
  let n ← g.arena.node id
  if n.dimension = 1 then .ok () else .error (.notScalar id n.dimension)

/-- The listing of a node and of everything below it. -/
def dump [ScalarText α] (g : Graph α) (id : NodeId) : Except (Error α) String := do
  return listing g.nodes (← g.arena.position id)

variable [Scalar α]

/-- **The value of a node** at the points `(x, y)`. -/
def evaluate (id : NodeId) (x y : List α) : Action α (Graph α) (List α) := do
  let position ← Action.inquire (·.evaluable id x y)
  onArena (Arena.evaluate position ⟨x, y⟩)

/-- The value of a node with one component, which is checked before the points are. -/
def evaluateScalar (id : NodeId) (x y : List α) : Action α (Graph α) α := do
  Action.inquire (·.checkScalar id)
  match (← evaluate id x y).head? with
  | some v => return v
  | none => throw .outOfRange

end Graph

end MixedMonotone
