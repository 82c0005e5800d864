import MixedMonotone.Session.Command

/-!
# Sessions

A session holds any number of graphs, each with the programs compiled from it, over **one counter of
handles**, so a handle means the same node wherever it is known.

* `Model`: a graph with its programs.
* `Session.run`: carrying out a command, in checked arithmetic.
* `Session.runAll`: the session after a sequence of commands, refused ones among them.
* `Session.runWith`, `Session.runAllWith`: the same in either arithmetic.
-/

namespace MixedMonotone

/-- A graph with the programs compiled from it. -/
structure Model (α : Type) where
  graph : Graph α
  programs : List (Program α) := []
  deriving DecidableEq

/-- Models with the number of the next handle and all reports, the oldest first. -/
structure Session (α : Type) where
  nextId : Nat := 1
  models : List (Model α) := []
  log : List Event := []
  deriving DecidableEq

namespace Session

variable {α β : Type}

/-- A session with one empty graph. -/
def start (settings : Settings) : Session α := { models := [{ graph := { settings } }] }

/-- The graph with a number. -/
def graph? (s : Session α) (g : Nat) : Option (Graph α) := s.models[g]?.map Model.graph

/-- The program of a graph with a number. -/
def program? (s : Session α) (g p : Nat) : Option (Program α) := do (← s.models[g]?).programs[p]?

/-- Whether a handle has been issued. -/
def hasIssued (s : Session α) (id : NodeId) : Bool := 1 ≤ id.number && id.number < s.nextId

/-- Begin a model with the given graph, and answer its number. -/
def addGraph (graph : Graph α) : Action α (Session α) Nat := fun s =>
  .ok s.models.length { s with models := s.models ++ [{ graph }] }

/-- A call on one model; it is out of range if there is none with that number. -/
def onModel (g : Nat) (act : Model α → Action α (Session α) β) : Action α (Session α) β := fun s =>
  match s.models[g]? with
  | none => .error .outOfRange s
  | some m => act m s

/-- The session with a model replaced. -/
def putModel (s : Session α) (g : Nat) (m : Model α) : Session α :=
  { s with models := s.models.set g m }

/-- A builder call on one graph, which may also issue handles and report. -/
def onBuilder (g : Nat) (act : Build α β) : Action α (Session α) β :=
  onModel g fun m =>
    Action.focus (fun s => ⟨m.graph, s.nextId, s.log⟩)
      (fun s b =>
        { s.putModel g { m with graph := b.graph } with nextId := b.nextId, log := b.log })
      act

/-- A call on one graph that adds no node. -/
def onGraph (g : Nat) (act : Action α (Graph α) β) : Action α (Session α) β :=
  onBuilder g (Action.focus Builder.graph (fun b graph => { b with graph }) act)

/-- A call on one program; it is out of range if there is none with that number. -/
def onProgram (g p : Nat) (act : Action α (Program α) β) : Action α (Session α) β :=
  onModel g fun m =>
    match m.programs[p]? with
    | none => throw .outOfRange
    | some program =>
      Action.focus (fun _ => program)
        (fun s program => s.putModel g { m with programs := m.programs.set p program }) act

/-- Add a program to a model, and answer its number. -/
def addProgram (g : Nat) (program : Program α) : Action α (Session α) Nat :=
  onModel g fun m s =>
    .ok m.programs.length (s.putModel g { m with programs := m.programs ++ [program] })

/-- Issue the next handle without a node. -/
def freshId : Action α (Session α) NodeId := fun s =>
  .ok ⟨s.nextId⟩ { s with nextId := s.nextId + 1 }

variable [Scalar α] [DecidableEq α]

/-- Carry out a command on a graph. -/
def runGraph (g : Nat) : GraphCommand α NodeId → Action α (Session α) (Reply α)
  | .build call => return .node (← onBuilder g call.run)
  | .atLeast lhs rhs => return .constraint (← onBuilder g (Build.atLeast lhs rhs))
  | .atMost lhs rhs => return .constraint (← onBuilder g (Build.atMost lhs rhs))
  | .evaluate node x y => return .vector (← onGraph g (Graph.evaluate node x y))
  | .evaluateScalar node x y => return .number (← onGraph g (Graph.evaluateScalar node x y))
  | .fulfilled c x y => return .verdict (← onGraph g (Graph.fulfilled c x y))
  | .compile extraction root constraints => do
    let program ← onBuilder g (Build.compile extraction root constraints)
    return .program (← addProgram g program)
  | .duplicate => do
    let graph ← onGraph g get
    return .graph (← addGraph graph)

/-- Carry out a command on a program. -/
def runProgram (g p : Nat) : ProgramCommand α NodeId → Action α (Session α) (Reply α)
  | .objective x y => return .number (← onProgram g p (Program.objective x y))
  | .evaluate node x y => return .vector (← onProgram g p (Program.evaluate node x y))
  | .fulfilled index x y => return .verdict (← onProgram g p (Program.fulfilled index x y))
  | .constraintsHold x y => return .verdict (← onProgram g p (Program.constraintsHold x y))
  | .duplicate => do
    let program ← onProgram g p get
    return .program (← addProgram g program)

/-- **Carry out a command.** -/
def run : Command α NodeId → Action α (Session α) (Reply α)
  | .freshId => return .node (← freshId)
  | .newGraph settings => return .graph (← addGraph { settings })
  | .graph g c => runGraph g c
  | .program g p c => runProgram g p c

/-- **The session after a sequence of commands**; a refused one leaves what it leaves, and the
next is carried out. -/
def runAll (commands : List (Command α NodeId)) (s : Session α) : Session α :=
  commands.foldl (fun s c => (run c).after s) s

/-- Carry out a command in the given arithmetic. -/
def runWith (arithmetic : Arithmetic) : Command α NodeId → Action α (Session α) (Reply α)
  | .graph g (.build call) => return .node (← onBuilder g (call.runWith arithmetic))
  | c => run c

/-- The session after a sequence of commands, in the given arithmetic. -/
def runAllWith (arithmetic : Arithmetic) (commands : List (Command α NodeId)) (s : Session α) :
    Session α :=
  commands.foldl (fun s c => (runWith arithmetic c).after s) s

end Session

end MixedMonotone
