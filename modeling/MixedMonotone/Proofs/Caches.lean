import Mathlib
import MixedMonotone.Program

/-!
# What evaluations leave, and what they cannot change

An evaluation overwrites the values of variables and of function nodes, and the scratch of function
nodes. Everything else about a node is fixed when the node is added.

* `Node.blank`: the node with all that is overwritten set to zero, **as it was when it was added**.
* `Alike`: nodes that differ in what evaluations have left in them only.
* `Graph.blank`, `Program.blank`: the same for graphs and programs.
-/

namespace MixedMonotone

variable {α : Type} [Zero α]

/-- As many zeros as a list has entries. -/
def zeros (l : List α) : List α := List.replicate l.length 0

@[simp] theorem length_zeros (l : List α) : (zeros l).length = l.length := by simp [zeros]

@[simp] theorem zeros_zeros (l : List α) : zeros (zeros l) = zeros l := by simp [zeros]

theorem zeros_eq_zeros {l l' : List α} (h : l.length = l'.length) : zeros l = zeros l' := by
  rw [zeros, zeros, h]

/-- The values of an operand, forgotten. -/
def OperandValues.blank (v : OperandValues α) : OperandValues α := ⟨zeros v.own, zeros v.swapped⟩

/-- The application without the operand values read last. -/
def Application.blank (f : Application α) : Application α :=
  { f with scratch := f.scratch.map OperandValues.blank }

/-- What a node is, without the operand values read last. -/
def Kind.blank : Kind α → Kind α
  | function f => function f.blank
  | k => k

/-- The node **as it was when it was added**: a constant keeps its value, any other node is zero. -/
def Node.blank (n : Node α) : Node α where
  id := n.id
  tag := n.tag
  kind := n.kind.blank
  value :=
    match n.kind with
    | .parameter | .matrixParameter _ => n.value
    | .variable _ | .function _ => zeros n.value

namespace Node

@[simp] theorem blank_id (n : Node α) : n.blank.id = n.id := rfl

@[simp] theorem blank_tag (n : Node α) : n.blank.tag = n.tag := rfl

@[simp] theorem blank_dimension (n : Node α) : n.blank.dimension = n.dimension := by
  unfold dimension blank
  cases n.kind <;> simp

@[simp] theorem blank_operands (n : Node α) : n.blank.operands = n.operands := by
  unfold operands blank
  cases n.kind <;> rfl

@[simp] theorem blank_name (n : Node α) : n.blank.name = n.name := by
  unfold name blank
  cases n.kind <;> rfl

@[simp] theorem blank_matrix? (n : Node α) : n.blank.matrix? = n.matrix? := by
  unfold matrix? blank
  cases n.kind <;> rfl

@[simp] theorem blank_isVariable (n : Node α) : n.blank.isVariable = n.isVariable := by
  unfold isVariable blank
  cases n.kind <;> rfl

@[simp] theorem blank_bounds? (n : Node α) : n.blank.bounds? = n.bounds? := by
  unfold bounds? blank
  cases n.kind <;> rfl

/-- What is computed from the blank node does not depend on the cache. -/
theorem eq_of_blank {β : Type} {f : Node α → β} (hf : ∀ n : Node α, f n.blank = f n) {n n' : Node α}
    (h : n.blank = n'.blank) : f n = f n' := by
  rw [← hf n, h, hf n']

end Node

/-! ## Nodes that differ in their caches only -/

/-- The nodes **differ in what evaluations have left** in them only. -/
def Alike (nodes nodes' : List (Node α)) : Prop := nodes.map Node.blank = nodes'.map Node.blank

namespace Alike

variable {nodes nodes' nodes'' : List (Node α)}

theorem refl (nodes : List (Node α)) : Alike nodes nodes := rfl

theorem symm (h : Alike nodes nodes') : Alike nodes' nodes := Eq.symm h

theorem trans (h : Alike nodes nodes') (h' : Alike nodes' nodes'') : Alike nodes nodes'' :=
  Eq.trans h h'

theorem length_eq (h : Alike nodes nodes') : nodes.length = nodes'.length := by
  simpa using congrArg List.length h

theorem map_getElem? (h : Alike nodes nodes') (i : Nat) :
    nodes[i]?.map Node.blank = nodes'[i]?.map Node.blank := by
  have := congrArg (·[i]?) h
  simpa using this

theorem getElem? (h : Alike nodes nodes') {i : Nat} {n : Node α} (hn : nodes[i]? = some n) :
    ∃ n', nodes'[i]? = some n' ∧ n'.blank = n.blank := by
  have hi := h.map_getElem? i
  rw [hn, Option.map_some, eq_comm, Option.map_eq_some_iff] at hi
  exact hi

/-- The node that stood at a position **before**, under the same handle. -/
theorem before (h : Alike nodes nodes') {i : Nat} {n' : Node α} (hn' : nodes'[i]? = some n') :
    ∃ n, nodes[i]? = some n ∧ n.id = n'.id ∧ n.blank = n'.blank := by
  obtain ⟨n, hn, hblank⟩ := h.symm.getElem? hn'
  exact ⟨n, hn, Node.eq_of_blank Node.blank_id hblank, hblank⟩

theorem mem (h : Alike nodes nodes') {n : Node α} (hn : n ∈ nodes) :
    ∃ n' ∈ nodes', n'.blank = n.blank := by
  obtain ⟨i, hi⟩ := List.mem_iff_getElem?.1 hn
  obtain ⟨n', hn', hblank⟩ := h.getElem? hi
  exact ⟨n', List.mem_of_getElem? hn', hblank⟩

/-- What is computed from the blank node is the same in both. -/
theorem lookup_eq {β : Type} {f : Node α → β} (hf : ∀ n : Node α, f n.blank = f n)
    (h : Alike nodes nodes') (i : Nat) : nodes[i]?.map f = nodes'[i]?.map f := by
  have hi := congrArg (Option.map f) (h.map_getElem? i)
  simpa [Option.map_map, Function.comp_def, hf] using hi

theorem operandsAt_eq (h : Alike nodes nodes') (i : Nat) :
    operandsAt nodes i = operandsAt nodes' i := by
  unfold operandsAt
  rw [h.lookup_eq Node.blank_operands]

end Alike

theorem alike_map_blank (nodes : List (Node α)) : Alike nodes (nodes.map Node.blank) := by
  unfold Alike
  rw [List.map_map]
  apply List.map_congr_left
  intro n _
  unfold Function.comp Node.blank
  cases n.kind <;>
    simp [Kind.blank, Application.blank, OperandValues.blank, Function.comp_def, List.map_map]

/-- Replacing a node by one that differs in its cache only. -/
theorem alike_set {nodes : List (Node α)} {i : Nat} {n n' : Node α} (hn : nodes[i]? = some n)
    (h : n'.blank = n.blank) : Alike nodes (nodes.set i n') := by
  unfold Alike
  obtain ⟨hi, hn⟩ := List.getElem?_eq_some_iff.1 hn
  rw [List.map_set, h, ← hn, ← List.getElem_map Node.blank (h := by simpa using hi),
    List.set_getElem_self]

/-! ## Graphs and programs -/

/-- The arena with all caches forgotten. -/
def Arena.blank (a : Arena α) : Arena α := { a with nodes := a.nodes.map Node.blank }

/-- The graph with all caches forgotten. -/
def Graph.blank (g : Graph α) : Graph α := { g with arena := g.arena.blank }

/-- The program with all caches forgotten. -/
def Program.blank (p : Program α) : Program α := { p with arena := p.arena.blank }

theorem Arena.blank_eq_iff {a b : Arena α} :
    a.blank = b.blank ↔ Alike a.nodes b.nodes ∧ a.positions = b.positions := by
  simp [Arena.blank, Alike]

theorem Graph.blank_eq_iff {g h : Graph α} :
    g.blank = h.blank ↔
      g.arena.blank = h.arena.blank ∧ g.settings = h.settings ∧ g.interned = h.interned := by
  simp [Graph.blank]
  tauto

theorem Program.blank_eq_iff {p q : Program α} :
    p.blank = q.blank ↔ p.arena.blank = q.arena.blank ∧ p.root = q.root ∧
      p.constraints = q.constraints ∧ p.inputDimension = q.inputDimension ∧
      p.zeroRule = q.zeroRule := by
  simp [Program.blank]

end MixedMonotone
