import Mathlib
import MixedMonotone.Proofs.Persistence

/-!
# Where variables come from

Only a declaration adds a variable to a graph, and a copy takes over those that are there.

* `Call.variable?`, `declaredVariables`: the variables that commands declare.
* `Node.DeclaredBy`: a variable with the box, the tag and the dimension of a sound declaration.
* `keeps_declared_call`: no builder call adds any other variable.
* `variables_declared`: **every variable of a reachable graph was declared** by one of the commands.
-/

namespace MixedMonotone

variable {α : Type} [Scalar α]

/-- The variable that a call declares. -/
def Call.variable? {ρ : Type} : Call α ρ → Option (VariableSpec α)
  | taggedVariable dimension tag => some ((VariableSpec.vector dimension).withTag tag)
  | boundedVariable lower upper => some ((VariableSpec.vector 0).withBounds lower upper)
  | declare v => some v
  | _ => none

/-- The variables that commands declare. -/
def declaredVariables (commands : List (Command α NodeId)) : List (VariableSpec α) :=
  (builderCalls commands).filterMap Call.variable?

/-- The node is **the variable that was declared**, by a sound declaration. -/
structure Node.DeclaredBy (n : Node α) (v : VariableSpec α) : Prop where
  sound : v.check = .ok ()
  bounds : n.bounds? = v.bounds
  tag : n.tag = v.tag
  dimension : n.dimension = v.dimension

/-- All variables of the graph are among the declared ones. -/
def Graph.Declared (specs : List (VariableSpec α)) (g : Graph α) : Prop :=
  ∀ n ∈ g.nodes, n.isVariable = true → ∃ v ∈ specs, n.DeclaredBy v

variable {specs : List (VariableSpec α)}

/-- What evaluations leave makes no difference. -/
theorem Graph.Declared.of_blank_eq {g g' : Graph α} (h : g.Declared specs)
    (heq : g.blank = g'.blank) : g'.Declared specs := by
  intro m hm hv
  obtain ⟨harena, -⟩ := Graph.blank_eq_iff.1 heq
  obtain ⟨n, hn, hblank⟩ := (Arena.blank_eq_iff.1 harena).1.symm.mem hm
  have hnv : n.isVariable = true := (Node.eq_of_blank Node.blank_isVariable hblank).trans hv
  obtain ⟨v, hmem, hdeclared⟩ := h n hn hnv
  exact ⟨v, hmem,
    { sound := hdeclared.sound
      bounds := (Node.eq_of_blank Node.blank_bounds? hblank).symm.trans hdeclared.bounds
      tag := (Node.eq_of_blank Node.blank_tag hblank).symm.trans hdeclared.tag
      dimension := (Node.eq_of_blank Node.blank_dimension hblank).symm.trans hdeclared.dimension }⟩

/-- A node that is added is no variable, or it was declared. -/
theorem Graph.Declared.append {b : Builder α} {d : Draft α} (h : b.graph.Declared specs)
    (hd : (b.nodeOf d).isVariable = true → ∃ v ∈ specs, (b.nodeOf d).DeclaredBy v) :
    (b.append d).graph.Declared specs := by
  intro n hn hv
  rcases List.mem_append.1 hn with hn | hn
  · exact h n hn hv
  · obtain rfl := List.mem_singleton.1 hn
    exact hd hv

/-! ## Calls -/

section Calls

/-- **A declaration** adds the variable that it declares. -/
theorem keeps_declared_declare {v : VariableSpec α} (hv : v ∈ specs) :
    Action.Keeps (fun b : Builder α => b.graph.Declared specs) (Build.declare v) := by
  refine keeps_place_of fun b d hb hd => hb.append fun _ => ⟨v, hv, ?_⟩
  obtain ⟨⟨⟩, hcheck, hd⟩ := bind_eq_ok.1 hd
  obtain rfl := Except.ok.inj hd
  exact ⟨hcheck, rfl, rfl, List.length_replicate⟩

/-- A constant matrix is no variable. -/
theorem keeps_declared_matrix (m : Matrix α) :
    Action.Keeps (fun b : Builder α => b.graph.Declared specs) (Build.matrixParameter m) := by
  refine keeps_place_of fun b d hb hd => ?_
  obtain rfl := Except.ok.inj hd
  exact hb.append nofun

/-- A function node is no variable. -/
theorem declared_function (b : Builder α) (d : Draft α) (f : Application α)
    (hb : b.graph.Declared specs) (hf : d.kind = .function f) :
    (b.append d).graph.Declared specs := by
  refine hb.append fun hv => ?_
  have hkind : (b.nodeOf d).kind = .function f := hf
  rw [Node.isVariable, hkind] at hv
  cases hv

variable [DecidableEq α]

/-- A constant is no variable. -/
theorem keeps_declared_constant (values : List α) :
    Action.Keeps (fun b : Builder α => b.graph.Declared specs) (Build.constant values) := by
  intro b hb
  have hadded : (b.append (b.graph.draftParameter values)).graph.Declared specs := hb.append nofun
  unfold Action.after Build.constant
  cases b.graph.interned? values with
  | some id => exact hb
  | none =>
    dsimp only
    split
    · exact hadded
    · exact hadded

theorem keeps_declared_parameter (values : List α) :
    Action.Keeps (fun b : Builder α => b.graph.Declared specs) (Build.parameter values) := by
  unfold Build.parameter
  split
  · exact .throw _
  · exact keeps_declared_constant values

/-- **No builder call adds a variable that it does not declare.** -/
theorem keeps_declared_call {c : Call α NodeId} (hc : ∀ v ∈ c.variable?, v ∈ specs) :
    Action.Keeps (fun b : Builder α => b.graph.Declared specs) c.run := by
  cases c with
  | taggedVariable | boundedVariable | declare => exact keeps_declared_declare (hc _ rfl)
  | parameter values => exact keeps_declared_parameter values
  | scalar v => exact keeps_declared_constant [v]
  | ones dimension => exact keeps_declared_parameter _
  | matrixParameter m => exact keeps_declared_matrix m
  | _ => exact keeps_function_call declared_function rfl

theorem declared_persists (calls : List (Call α NodeId)) :
    Graph.Persists calls (Graph.Declared (calls.filterMap Call.variable?)) where
  empty _ _ hn := absurd hn List.not_mem_nil
  call c hc := keeps_declared_call fun _ hv => List.mem_filterMap.2 ⟨c, hc, hv⟩
  slack := keeps_slack_function declared_function
  blank _ _ h heq := h.of_blank_eq heq

/-- **Every variable of a reachable graph was declared by one of the commands**, soundly, and has
the box, the tag and the dimension of that declaration. Nothing else adds a variable, and nothing
changes it later. -/
theorem variables_declared {commands : List (Command α NodeId)} {g : Nat} {G : Graph α}
    (hG : (Session.runAll commands {}).graph? g = some G) :
    G.Declared (declaredVariables commands) :=
  (declared_persists (builderCalls commands)).of_runAll hG

end Calls

end MixedMonotone
