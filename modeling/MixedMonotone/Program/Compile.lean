import MixedMonotone.Program

/-!
# Compiling a graph into a program

The nodes that a program needs are copied into an arena of their own, in the order of
their creation, and every operand is rebound to its new position. A node read by several
others is copied once.

* `Arena.compact`: the copy of the marked nodes.
* `commonDimension`: the variables' dimension.
* `Graph.compile`: the program of everything reachable, or of all nodes.
* `Build.compile`: the same as a call, which reports the program.
-/

namespace MixedMonotone

variable {α : Type}

/-- Which nodes a program keeps. -/
inductive Extraction where
  /-- Those below the objective or a constraint. -/
  | reachable
  /-- All of the graph. -/
  | everything
  deriving DecidableEq, Repr

/-- The position in `copied` of the node that stands at position `i` of `nodes`, an operand of
`n`. -/
def rebindOperand (nodes : List (Node α)) (copied : Arena α) (n : Node α) (i : Nat) :
    Except (Error α) Nat :=
  match nodes[i]? with
  | none => .error .outOfRange
  | some operand =>
    match copied.position? operand.id with
    | some k => .ok k
    | none => .error (.operandLeftOut n.id operand.id)

/-- The node with its operands rebound to the copies; all else stays, the handle included. -/
def rebind (nodes : List (Node α)) (copied : Arena α) (n : Node α) : Except (Error α) (Node α) :=
  match n.kind with
  | .function f => do
    let operands ← f.operands.mapM (rebindOperand nodes copied n)
    return { n with kind := .function { f with operands } }
  | _ => .ok n

/-- **The copy of the marked nodes**, in order. -/
def Arena.compact (a : Arena α) (marks : List Bool) : Except (Error α) (Arena α) :=
  ((a.nodes.zip marks).filter (·.2)).foldlM
    (fun copied n => do return copied.push (← rebind a.nodes copied n.1)) {}

/-- The dimension that all variables among the nodes share; the first other one is reported. -/
def commonDimension (nodes : List (Node α)) : Except (Error α) (Option Nat) :=
  match (nodes.filter Node.isVariable).map Node.dimension with
  | [] => .ok none
  | d :: rest =>
    match rest.find? (· != d) with
    | some other => .error (.dimensionMismatch .inputs (.size d) (.size other))
    | none => .ok (some d)

/-- The position of a kept node. -/
def Arena.locate (copied : Arena α) (root id : NodeId) : Except (Error α) Nat :=
  match copied.position? id with
  | some k => .ok k
  | none => .error (.operandLeftOut root id)

namespace Graph

/-- The positions of the objective, which has one component, and of the constraints' nodes. -/
def roots (g : Graph α) (root : NodeId) (constraints : List Constraint) :
    Except (Error α) (List Nat) := do
  let objective ← g.arena.operand root
  if objective.node.dimension ≠ 1 then
    .error (.notScalar root objective.node.dimension)
  else
    let operands ← constraints.mapM fun c => g.arena.operand c.node
    return objective.position :: operands.map (·.position)

/-- The nodes that a program keeps. -/
def marks (g : Graph α) (extraction : Extraction) (roots : List Nat) : List Bool :=
  match extraction with
  | .reachable => MixedMonotone.reachable g.nodes roots
  | .everything => List.replicate g.nodes.length true

/-- **The program** of an objective and constraints. It starts with the values that the
graph's nodes hold. -/
def compile (g : Graph α) (extraction : Extraction) (root : NodeId)
    (constraints : List Constraint) : Except (Error α) (Program α) := do
  let roots ← g.roots root constraints
  let arena ← g.arena.compact (g.marks extraction roots)
  let inputDimension ← commonDimension arena.nodes
  let position ← arena.locate root root
  let checks ← constraints.mapM fun c => do
    return ⟨← arena.locate root c.node, c.relation⟩
  return ⟨arena, position, checks, inputDimension, g.settings.zeroRule⟩

end Graph

/-- Compile, and report the program. -/
def Build.compile (extraction : Extraction) (root : NodeId) (constraints : List Constraint) :
    Build α (Program α) := fun b =>
  match b.graph.compile extraction root constraints with
  | .error e => .error e b
  | .ok p =>
    .ok p (b.report (.programCompiled p.nodes.length b.graph.nodes.length p.constraints.length
      p.inputDimension))

end MixedMonotone
