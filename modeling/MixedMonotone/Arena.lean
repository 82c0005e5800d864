import MixedMonotone.Action
import MixedMonotone.Node

/-!
# Arenas

An arena holds nodes in the order of their creation, so every operand stands **before** the nodes
that read it.

* `Arena`: the nodes, and the table of the positions of their handles.
* `Arena.position`, `Arena.operand`: finding a node by its handle.
* `Arena.push`: appending a node.
* `operandsAt`: the edges of the graph that the operands form.
-/

namespace MixedMonotone

/-- Nodes in the order of their creation, with the positions of their handles. -/
structure Arena (α : Type) where
  nodes : List (Node α) := []
  positions : List (NodeId × Nat) := []
  deriving DecidableEq

/-- A node that is to be an operand, with its position. -/
structure Operand (α : Type) where
  position : Nat
  node : Node α

/-- The operand positions of the node at position `i`. -/
def operandsAt {α : Type} (nodes : List (Node α)) (i : Nat) : List Nat :=
  (nodes[i]?.map Node.operands).getD []

namespace Arena

variable {α : Type}

/-- The number of nodes. -/
def size (a : Arena α) : Nat := a.nodes.length

/-- The position that the table gives for a handle. -/
def position? (a : Arena α) (id : NodeId) : Option Nat := a.positions.lookup id

/-- The position of a handle. -/
def position (a : Arena α) (id : NodeId) : Except (Error α) Nat :=
  match a.position? id with
  | some i => .ok i
  | none => .error (.unknownNode id)

/-- The node that a handle names, with its position. -/
def find (a : Arena α) (id : NodeId) : Except (Error α) (Operand α) := do
  let i ← a.position id
  match a.nodes[i]? with
  | some n => .ok ⟨i, n⟩
  | none => .error .outOfRange

/-- The node that a handle names. -/
def node (a : Arena α) (id : NodeId) : Except (Error α) (Node α) := do return (← a.find id).node

/-- The last value of the node that a handle names. -/
def value (a : Arena α) (id : NodeId) : Except (Error α) (List α) := do return (← a.node id).value

/-- The node that a handle names, which must not be a constant matrix. -/
def operand (a : Arena α) (id : NodeId) : Except (Error α) (Operand α) := do
  let o ← a.find id
  if o.node.isMatrix then .error (.matrixOperand id) else .ok o

/-- The arena with a node appended. -/
def push (a : Arena α) (n : Node α) : Arena α where
  nodes := a.nodes ++ [n]
  positions := (n.id, a.nodes.length) :: a.positions

end Arena

end MixedMonotone
