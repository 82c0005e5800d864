import MixedMonotone.Event
import MixedMonotone.Graph

/-!
# Building graphs

A builder call first works out, from the graph alone, the node it would add; only then is the node
added. So a call that is refused **changes nothing**.

* `Draft`: a checked and tagged node that has no handle yet.
* `Builder`: a graph with the next handle and the reports so far.
* `Builder.append`: the one way a node is added.
* `Build`: builder calls; `Build.place` adds a draft.
-/

namespace MixedMonotone

/-- A node to be added, with the reports due before that. -/
structure Draft (α : Type) where
  kind : Kind α
  tag : Tag
  value : List α
  notices : List Event := []
  deriving DecidableEq

/-- The draft of a function node: its value and the room for its operands' values are zero. -/
def Draft.function {α : Type} [Zero α] (op : Op α) (plan : Plan) (operands : List (Operand α))
    (dimension : Nat) (tag : Tag) : Draft α where
  kind := .function
    { op, plan
      operands := operands.map (·.position)
      scratch := operands.map fun o =>
        ⟨List.replicate o.node.dimension 0, List.replicate o.node.dimension 0⟩ }
  tag := tag
  value := List.replicate dimension 0

/-- A graph being built. -/
structure Builder (α : Type) where
  graph : Graph α
  /-- The number of the next handle. -/
  nextId : Nat
  /-- The reports so far, the oldest first. -/
  log : List Event
  deriving DecidableEq

namespace Builder

variable {α : Type}

/-- The builder with one more report. -/
def report (b : Builder α) (e : Event) : Builder α := { b with log := b.log ++ [e] }

/-- The handle of the next node. -/
def next (b : Builder α) : NodeId := ⟨b.nextId⟩

/-- The node that a draft becomes. -/
def nodeOf (b : Builder α) (d : Draft α) : Node α := ⟨b.next, d.tag, d.kind, d.value⟩

/-- **The builder with a draft added** under the next handle: first its notices are reported,
then its creation. -/
def append (b : Builder α) (d : Draft α) : Builder α :=
  let n := b.nodeOf d
  { graph := { b.graph with arena := b.graph.arena.push n }
    nextId := b.nextId + 1
    log := b.log ++ d.notices ++ [.nodeCreated n.id n.name n.dimension n.tag] }

/-- The builder with a constant vector recorded as shared. -/
def record (b : Builder α) (values : List α) (id : NodeId) : Builder α :=
  { b with graph := { b.graph with interned := (values, id) :: b.graph.interned } }

end Builder

/-- Builder calls. -/
abbrev Build (α : Type) := Action α (Builder α)

/-- Add the node that a draft describes, and answer its handle. -/
def Build.place {α : Type} (draft : Graph α → Except (Error α) (Draft α)) : Build α NodeId :=
  fun b =>
  match draft b.graph with
  | .ok d => .ok b.next (b.append d)
  | .error e => .error e b

end MixedMonotone
