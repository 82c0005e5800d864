import MixedMonotone.Kernel
import MixedMonotone.NodeId
import MixedMonotone.Word

/-!
# Errors

* `Error`: why a call is refused, one constructor per cause.
* `Error.message`: its wording.
-/

namespace MixedMonotone

/-- The operation whose operands do not fit together. -/
inductive Site where
  | arith (op : Arith)
  | difference
  | dot
  | matvec
  | list
  | slice
  | matrix
  | variableBounds
  | constraint
  | inputs
  deriving DecidableEq, Repr

/-- A size that an operation was given or expects. -/
inductive Extent where
  /-- So many components. -/
  | size (n : Nat)
  /-- A vector with so many components. -/
  | vectorOfLength (n : Nat)
  /-- All values of a matrix. -/
  | valuesFor (rows cols : Nat)
  /-- Rows with so many entries. -/
  | rowsOfLength (n : Nat)
  /-- Some of the first components. -/
  | rangeWithin (n : Nat)
  /-- The components from `start` on. -/
  | range (start length : Nat)
  deriving DecidableEq, Repr

/-- Why a file could not be read as text. -/
inductive FileFault where
  | notFound
  | isDirectory
  | notUnicode
  deriving DecidableEq, Repr

/-- Why a call is refused. -/
inductive Error (α : Type) where
  /-- Operand sizes do not fit the operation. -/
  | dimensionMismatch (site : Site) (expected got : Extent)
  /-- A matrix stands where a vector is needed. -/
  | matrixOperand (id : NodeId)
  /-- The left operand of a matrix-vector product is no matrix. -/
  | notAMatrix (id : NodeId)
  /-- The handle names no node here. -/
  | unknownNode (id : NodeId)
  /-- A matrix without rows or columns. -/
  | emptyMatrix (rows cols : Nat)
  /-- A list of no nodes. -/
  | emptyList
  /-- A constant without components. -/
  | emptyParameter
  /-- A variable without components. -/
  | emptyVariable
  /-- A box whose lower bound is not at most its upper bound. -/
  | reversedBounds (lower upper : α) (component : Nat)
  /-- A single number is asked of a node with another number of components. -/
  | notScalar (id : NodeId) (dimension : Nat)
  /-- The two points have the wrong lengths. -/
  | inputDimension (expected x y : Nat)
  /-- No constraint has this index. -/
  | unknownConstraint (index count : Nat)
  /-- An operand of a compiled node was left out. -/
  | operandLeftOut (node operand : NodeId)
  /-- The configuration file cannot be read. -/
  | unreadable (fault : FileFault)
  /-- The configuration text is malformed. -/
  | malformedSettings
  /-- An index or a length does not fit, against the rules of the data. -/
  | outOfRange
  /-- A computed size is too large for a machine word. -/
  | overflow
  deriving DecidableEq, Repr

namespace Site

/-- The operation's name in messages. -/
def name : Site → String
  | arith op => op.name
  | difference => "sub"
  | dot => "dot"
  | matvec => "matvec"
  | list => "list"
  | slice => "slice"
  | matrix => "matrix"
  | variableBounds => "variable bounds"
  | constraint => "constraint"
  | inputs => "variables"

end Site

/-- The wording of a size. Those that are computed are worded as a machine word holds them. -/
def Extent.text : Extent → String
  | size n => s!"{n}"
  | vectorOfLength n => s!"vector of length {n}"
  | valuesFor rows cols => s!"{wrapped (rows * cols)} values for {rows}x{cols}"
  | rowsOfLength n => s!"rows of length {n}"
  | rangeWithin n => s!"a non-empty range within 0..{n}"
  | range start length => s!"{start}..{wrapped (start + length)}"

/-- The wording of a file fault, with the number the operating system gives it. -/
def FileFault.text : FileFault → String
  | notFound => "No such file or directory (os error 2)"
  | isDirectory => "Is a directory (os error 21)"
  | notUnicode => "stream did not contain valid UTF-8"

/-- The wording of an error. -/
def Error.message {α : Type} [ScalarText α] : Error α → String
  | dimensionMismatch site expected got =>
    s!"Dimension mismatch in {site.name}: expected {expected.text}, got {got.text}"
  | matrixOperand id =>
    s!"Matrix parameter {id.text} can only be the left operand of a matrix-vector product"
  | notAMatrix id => s!"Node {id.text} is not a matrix parameter"
  | unknownNode id => s!"Unknown node {id.text}"
  | emptyMatrix rows cols => s!"Invalid graph: matrix must not be empty (got {rows}x{cols})"
  | emptyList => "Invalid graph: list must not be empty"
  | emptyParameter => "Invalid graph: parameter must not be empty"
  | emptyVariable => "Invalid graph: variable dimension must be positive"
  | reversedBounds lower upper component =>
    "Invalid graph: lower bound " ++ ScalarText.shortest lower ++ " exceeds upper bound " ++
      ScalarText.shortest upper ++ s!" at component {component}"
  | notScalar id dimension =>
    s!"Domain error: node {id.text} has dimension {dimension}, expected a scalar"
  | inputDimension expected x y =>
    s!"Domain error: expected input vectors of length {expected}, got x: {x}, y: {y}"
  | unknownConstraint index count => s!"No constraint at index {index} (program has {count})"
  | operandLeftOut node operand =>
    s!"Compaction failed: operand {operand.text} of node {node.text} is not in the compacted graph"
  | unreadable fault => s!"IO error: {fault.text}"
  | malformedSettings => "TOML parse error"
  | outOfRange => "Index out of range"
  | overflow => "Size too large"

end MixedMonotone
