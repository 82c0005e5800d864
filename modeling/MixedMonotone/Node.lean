import MixedMonotone.Operator.Combine

/-!
# Nodes

A node is an entry of an arena. The operands of a function node are **positions** in the same arena.

* `Application`: an operator with its operands and room for their values.
* `Kind`, `Node`: what a node is, and the node with its handle, tag and last value.
* `Node.line`: its listing.
-/

namespace MixedMonotone

/-- A box, by its lower and upper corner. -/
structure Box (α : Type) where
  lower : List α
  upper : List α
  deriving DecidableEq

/-- An operator applied to earlier nodes. -/
structure Application (α : Type) where
  op : Op α
  plan : Plan
  /-- The positions of the operands. -/
  operands : List Nat
  /-- Per operand, its values as read last along each route. -/
  scratch : List (OperandValues α)
  deriving DecidableEq

/-- What a node is. -/
inductive Kind (α : Type) where
  /-- A constant vector. -/
  | parameter
  /-- A constant matrix, which only a matrix-vector product reads. -/
  | matrixParameter (matrix : Matrix α)
  /-- An input, which takes the first of the two points; declared on a box or not. -/
  | variable (bounds : Option (Box α))
  /-- An operator applied to earlier nodes. -/
  | function (f : Application α)
  deriving DecidableEq

/-- An entry of an arena. -/
structure Node (α : Type) where
  id : NodeId
  tag : Tag
  kind : Kind α
  /-- The constant, or what the last evaluation left. -/
  value : List α
  deriving DecidableEq

namespace Kind

variable {α : Type}

/-- The operator's or the leaf's name in listings. -/
def name : Kind α → String
  | parameter => "parameter"
  | matrixParameter _ => "matrix_parameter"
  | .variable _ => "variable"
  | function f => f.op.name

/-- The matrix of a constant matrix. -/
def matrix? : Kind α → Option (Matrix α)
  | matrixParameter m => some m
  | _ => none

/-- The positions of the operands; leaves have none. -/
def operands : Kind α → List Nat
  | function f => f.operands
  | _ => []

end Kind

namespace Node

variable {α : Type}

/-- The number of components; a constant matrix has none. -/
def dimension (n : Node α) : Nat := n.value.length

/-- The operator's or the leaf's name in listings. -/
def name (n : Node α) : String := n.kind.name

/-- The matrix of a constant matrix. -/
def matrix? (n : Node α) : Option (Matrix α) := n.kind.matrix?

/-- Whether the node is a constant matrix. -/
def isMatrix (n : Node α) : Bool := n.matrix?.isSome

/-- Whether the node is a variable. -/
def isVariable (n : Node α) : Bool :=
  match n.kind with
  | .variable _ => true
  | _ => false

/-- The box a variable was declared on. -/
def bounds? (n : Node α) : Option (Box α) :=
  match n.kind with
  | .variable bounds => bounds
  | _ => none

/-- The positions of the operands; leaves have none. -/
def operands (n : Node α) : List Nat := n.kind.operands

/-- Rows and columns of a constant matrix; any other node is one column. -/
def shape (n : Node α) : Nat × Nat := (n.matrix?.map Matrix.shape).getD (n.dimension, 1)

/-- The listing of the node in one line, numbers with three decimal places. -/
def line [ScalarText α] (n : Node α) : String :=
  let content := match n.matrix? with
    | some m => m.text
    | none => "[" ++ ", ".intercalate (n.value.map ScalarText.threePlaces) ++ "]"
  s!"ID {n.id.text}: {n.name} (dim={n.dimension}, tag={n.tag.abbreviation}): " ++ content

end Node

end MixedMonotone
