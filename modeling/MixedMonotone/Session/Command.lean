import MixedMonotone.Program.Compile

/-!
# Commands

Everything that can be asked of a session, as data. Nodes are named by a `ρ`: by handles, where the
command is carried out, or by any other kind of reference.

* `Call`: the builder calls that answer a node; `Call.run` carries one out, `Call.runWith` in either
  arithmetic.
* `GraphCommand`, `ProgramCommand`, `Command`: all commands.
* `Command.resolve`: the same command with its references looked up.
* `Reply`: the answers.
-/

namespace MixedMonotone

/-- A builder call that answers a node. -/
inductive Call (α ρ : Type) where
  | taggedVariable (dimension : Nat) (tag : Tag)
  | boundedVariable (lower upper : List α)
  | declare (v : VariableSpec α)
  | parameter (values : List α)
  | scalar (v : α)
  | ones (dimension : Nat)
  | matrixParameter (m : Matrix α)
  | add (a b : ρ)
  | sub (a b : ρ)
  | mul (a b : ρ)
  | div (a b : ρ)
  | dot (a b : ρ)
  | matvec (a b : ρ)
  | neg (a : ρ)
  | reciprocal (a : ρ)
  | log2 (a : ρ)
  | ln (a : ρ)
  | sum (a : ρ)
  | prod (a : ρ)
  | list (items : List ρ)
  | slice (a : ρ) (start length : Nat)
  | component (a : ρ) (i : Nat)
  deriving DecidableEq

/-- What can be asked of a graph. -/
inductive GraphCommand (α ρ : Type) where
  | build (call : Call α ρ)
  | atLeast (lhs rhs : ρ)
  | atMost (lhs rhs : ρ)
  | evaluate (node : ρ) (x y : List α)
  | evaluateScalar (node : ρ) (x y : List α)
  | fulfilled (c : ConstraintOn ρ) (x y : List α)
  | compile (extraction : Extraction) (root : ρ) (constraints : List (ConstraintOn ρ))
  /-- Copy the graph. -/
  | duplicate
  deriving DecidableEq

/-- What can be asked of a program. -/
inductive ProgramCommand (α ρ : Type) where
  | objective (x y : List α)
  | evaluate (node : ρ) (x y : List α)
  | fulfilled (index : Nat) (x y : List α)
  | constraintsHold (x y : List α)
  /-- Copy the program. -/
  | duplicate
  deriving DecidableEq

/-- What can be asked of a session. Graphs are numbered in the order they appear, and so are the
programs of each graph. -/
inductive Command (α ρ : Type) where
  /-- Issue a handle that no graph knows. -/
  | freshId
  /-- Begin an empty graph. -/
  | newGraph (settings : Settings)
  | graph (graph : Nat) (c : GraphCommand α ρ)
  | program (graph program : Nat) (c : ProgramCommand α ρ)
  deriving DecidableEq

/-- An answer of a session. -/
inductive Reply (α : Type) where
  | node (id : NodeId)
  | constraint (c : Constraint)
  | graph (index : Nat)
  | program (index : Nat)
  | vector (values : List α)
  | number (v : α)
  | verdict (b : Bool)
  deriving DecidableEq

/-- The handle in an answer. -/
def Reply.id? {α : Type} : Reply α → Option NodeId
  | node id => some id
  | constraint c => some c.node
  | _ => none

section Resolve

variable {α ρ σ : Type}

/-- The call with its references looked up; none if one of them is unknown. -/
def Call.resolve (env : ρ → Option σ) : Call α ρ → Option (Call α σ)
  | taggedVariable dimension tag => some (.taggedVariable dimension tag)
  | boundedVariable lower upper => some (.boundedVariable lower upper)
  | declare v => some (.declare v)
  | parameter values => some (.parameter values)
  | scalar v => some (.scalar v)
  | ones dimension => some (.ones dimension)
  | matrixParameter m => some (.matrixParameter m)
  | add a b => return .add (← env a) (← env b)
  | sub a b => return .sub (← env a) (← env b)
  | mul a b => return .mul (← env a) (← env b)
  | div a b => return .div (← env a) (← env b)
  | dot a b => return .dot (← env a) (← env b)
  | matvec a b => return .matvec (← env a) (← env b)
  | neg a => return .neg (← env a)
  | reciprocal a => return .reciprocal (← env a)
  | log2 a => return .log2 (← env a)
  | ln a => return .ln (← env a)
  | sum a => return .sum (← env a)
  | prod a => return .prod (← env a)
  | list items => return .list (← items.mapM env)
  | slice a start length => return .slice (← env a) start length
  | component a i => return .component (← env a) i

/-- The constraint with its reference looked up. -/
def ConstraintOn.resolve (env : ρ → Option σ) (c : ConstraintOn ρ) : Option (ConstraintOn σ) :=
  return ⟨← env c.node, c.relation⟩

/-- The command with its references looked up; none if one of them is unknown. -/
def GraphCommand.resolve (env : ρ → Option σ) : GraphCommand α ρ → Option (GraphCommand α σ)
  | build call => return .build (← call.resolve env)
  | atLeast lhs rhs => return .atLeast (← env lhs) (← env rhs)
  | atMost lhs rhs => return .atMost (← env lhs) (← env rhs)
  | evaluate node x y => return .evaluate (← env node) x y
  | evaluateScalar node x y => return .evaluateScalar (← env node) x y
  | fulfilled c x y => return .fulfilled (← c.resolve env) x y
  | compile extraction root constraints =>
    return .compile extraction (← env root) (← constraints.mapM (·.resolve env))
  | duplicate => some .duplicate

/-- The command with its reference looked up. -/
def ProgramCommand.resolve (env : ρ → Option σ) : ProgramCommand α ρ → Option (ProgramCommand α σ)
  | objective x y => some (.objective x y)
  | evaluate node x y => return .evaluate (← env node) x y
  | fulfilled index x y => some (.fulfilled index x y)
  | constraintsHold x y => some (.constraintsHold x y)
  | duplicate => some .duplicate

/-- **The command with its references looked up**; none if one of them is unknown. -/
def Command.resolve (env : ρ → Option σ) : Command α ρ → Option (Command α σ)
  | freshId => some .freshId
  | newGraph settings => some (.newGraph settings)
  | graph g c => return .graph g (← c.resolve env)
  | program g p c => return .program g p (← c.resolve env)

end Resolve

/-- Carry out a builder call, in checked arithmetic. -/
def Call.run {α : Type} [Scalar α] [DecidableEq α] : Call α NodeId → Build α NodeId
  | taggedVariable dimension tag => Build.taggedVariable dimension tag
  | boundedVariable lower upper => Build.boundedVariable lower upper
  | declare v => Build.declare v
  | parameter values => Build.parameter values
  | scalar v => Build.scalar v
  | ones dimension => Build.ones dimension
  | matrixParameter m => Build.matrixParameter m
  | add a b => Build.add a b
  | sub a b => Build.sub a b
  | mul a b => Build.mul a b
  | div a b => Build.div a b
  | dot a b => Build.dot a b
  | matvec a b => Build.matvec a b
  | neg a => Build.neg a
  | reciprocal a => Build.reciprocal a
  | log2 a => Build.log2 a
  | ln a => Build.ln a
  | sum a => Build.sum a
  | prod a => Build.prod a
  | list items => Build.list items
  | slice a start length => Build.slice a start length .checked
  | component a i => Build.component a i .checked

/-- Carry out a builder call in the given arithmetic, which only the ranges of slices need. -/
def Call.runWith {α : Type} [Scalar α] [DecidableEq α] (arithmetic : Arithmetic) :
    Call α NodeId → Build α NodeId
  | slice a start length => Build.slice a start length arithmetic
  | component a i => Build.component a i arithmetic
  | call => call.run

end MixedMonotone
