import Mathlib
import MixedMonotone.Proofs.Caches

/-!
# The value that a node denotes

What a node means is a function of the two points alone, by recursion on its operands. No cache
enters.

* `byOperands`: recursion on operands, which stand before their parent.
* `denote`: **the pure value** of a node. A variable is the first point, a constant is itself, and a
  function node combines what its operands denote at `(x, y)` and at `(y, x)` as its plan asks.
* `denote_eq`: the recursion equation, where operands stand before their parent.
* `denote_alike`: caches do not matter.
-/

namespace MixedMonotone

variable {α β : Type}

/-! ## Recursion on operands -/

/-- What `visit` makes of the node at position `i`, given what it makes of the operands, for
positions below a bound. -/
def byOperandsBelow (visit : Node α → List β → β) (missing : β) (nodes : List (Node α)) :
    Nat → Nat → β
  | 0, _ => missing
  | bound + 1, i =>
    if i = bound then
      match nodes[i]? with
      | some n => visit n (n.operands.map (byOperandsBelow visit missing nodes bound))
      | none => missing
    else byOperandsBelow visit missing nodes bound i

/-- What `visit` makes of the node at position `i`, given what it makes of the operands. -/
def byOperands (visit : Node α → List β → β) (missing : β) (nodes : List (Node α)) (i : Nat) : β :=
  byOperandsBelow visit missing nodes (i + 1) i

theorem byOperandsBelow_of_lt (visit : Node α → List β → β) (missing : β) (nodes : List (Node α))
    {i bound : Nat} (h : i < bound) :
    byOperandsBelow visit missing nodes bound i = byOperands visit missing nodes i := by
  induction bound with
  | zero => omega
  | succ bound ih =>
    -- the bound falls until it meets the position
    rcases Nat.lt_succ_iff_lt_or_eq.1 h with h | rfl
    · rw [byOperandsBelow, if_neg (by omega), ih h]
    · rfl

/-- **The recursion equation**, for a node whose operands stand before it. -/
theorem byOperands_eq (visit : Node α → List β → β) (missing : β) {nodes : List (Node α)} {i : Nat}
    {n : Node α} (hn : nodes[i]? = some n) (hlt : ∀ k ∈ n.operands, k < i) :
    byOperands visit missing nodes i =
      visit n (n.operands.map (byOperands visit missing nodes)) := by
  have hops : n.operands.map (byOperandsBelow visit missing nodes i) =
      n.operands.map (byOperands visit missing nodes) :=
    List.map_congr_left fun k hk => byOperandsBelow_of_lt visit missing nodes (hlt k hk)
  rw [byOperands, byOperandsBelow, if_pos rfl, hn]
  exact congrArg (visit n) hops

/-- Nodes that `visit` cannot tell apart give the same. -/
theorem byOperands_map (visit : Node α → List β → β) (missing : β) {f : Node α → Node α}
    (hvisit : ∀ n vs, visit (f n) vs = visit n vs) (hops : ∀ n, (f n).operands = n.operands)
    (nodes : List (Node α)) (i : Nat) :
    byOperands visit missing (nodes.map f) i = byOperands visit missing nodes i := by
  -- one bound at a time: what is below it is already the same
  have below : ∀ bound i, byOperandsBelow visit missing (nodes.map f) bound i =
      byOperandsBelow visit missing nodes bound i := by
    intro bound
    induction bound with
    | zero => intro i; rfl
    | succ bound ih =>
      intro i
      have hrec := funext ih
      rw [byOperandsBelow, byOperandsBelow, hrec, List.getElem?_map]
      cases nodes[i]? with
      | none => rfl
      | some n => simp only [Option.map_some, hvisit, hops]
  exact below (i + 1) i

/-! ## The pure value -/

variable [Scalar α]

/-- What a node denotes, given what its operands denote. -/
def Node.denotes (n : Node α) (operands : List (Points α → List α)) (points : Points α) : List α :=
  match n.kind with
  | .parameter | .matrixParameter _ => n.value
  | .variable _ => points.own
  | .function f =>
    (f.op.combine f.plan (operands.map fun v => ⟨v points, v points.flip⟩) n.dimension).getD []

/-- **The pure value** of the node at position `i` at the two points; empty if the data does not
fit. -/
def denote (nodes : List (Node α)) : Nat → Points α → List α :=
  byOperands Node.denotes (fun _ => []) nodes

/-- `V` is **given by recursion on the operands**: at every node it is what the node denotes, given
`V` at the operands. -/
def FollowsOperands (nodes : List (Node α)) (V : Nat → Points α → List α) : Prop :=
  ∀ i n, nodes[i]? = some n → ∀ points, V i points = n.denotes (n.operands.map V) points

/-- What a node denotes along both routes. -/
def denoteBoth (nodes : List (Node α)) (points : Points α) (i : Nat) : OperandValues α :=
  ⟨denote nodes i points, denote nodes i points.flip⟩

@[simp] theorem denoteBoth_own (nodes : List (Node α)) (points : Points α) (i : Nat) :
    (denoteBoth nodes points i).own = denote nodes i points := rfl

@[simp] theorem denoteBoth_swapped (nodes : List (Node α)) (points : Points α) (i : Nat) :
    (denoteBoth nodes points i).swapped = denote nodes i points.flip := rfl

theorem denoteBoth_get (nodes : List (Node α)) (points : Points α) (i : Nat) (r : Route) :
    (denoteBoth nodes points i).get r = denote nodes i (points.along r) := by
  cases r <;> rfl

theorem denote_eq {nodes : List (Node α)} {i : Nat} {n : Node α} (hn : nodes[i]? = some n)
    (hlt : ∀ k ∈ n.operands, k < i) (points : Points α) :
    denote nodes i points = n.denotes (n.operands.map (denote nodes)) points :=
  congrFun (byOperands_eq _ _ hn hlt) points

/-- The pure value follows the operands, where these stand before their parent. -/
theorem denote_followsOperands {nodes : List (Node α)}
    (hlt : ∀ i, ∀ k ∈ operandsAt nodes i, k < i) : FollowsOperands nodes (denote nodes) := by
  intro i n hn points
  exact denote_eq hn (by simpa [operandsAt, hn] using hlt i) points

/-- The recursion equation of a function node. -/
theorem denote_function {nodes : List (Node α)} {i : Nat} {n : Node α} {f : Application α}
    (hn : nodes[i]? = some n) (hf : n.kind = .function f) (hlt : ∀ k ∈ f.operands, k < i)
    (points : Points α) :
    denote nodes i points =
      (f.op.combine f.plan (f.operands.map (denoteBoth nodes points)) n.dimension).getD [] := by
  have hops : n.operands = f.operands := by rw [Node.operands, hf]; rfl
  rw [denote_eq hn (by rwa [hops]), Node.denotes, hf, hops, List.map_map]
  rfl

theorem Node.blank_denotes (n : Node α) (operands : List (Points α → List α)) :
    n.blank.denotes operands = n.denotes operands := by
  funext points
  have hdim := n.blank_dimension
  unfold Node.denotes
  rw [hdim]
  unfold Node.blank
  cases n.kind <;> rfl

/-- **Caches do not matter**: nodes that differ in what evaluations have left in them
only denote the same. -/
theorem denote_alike {nodes nodes' : List (Node α)} (h : Alike nodes nodes') :
    denote nodes = denote nodes' := by
  funext i
  have key : ∀ ns : List (Node α), denote (ns.map Node.blank) i = denote ns i := fun ns =>
    byOperands_map _ _ Node.blank_denotes Node.blank_operands ns i
  rw [← key nodes, h, key nodes']

end MixedMonotone
