import Mathlib
import MixedMonotone.Proofs.Compilable

/-!
# The shape of a program

A program consists of copies of the nodes it needs. Nothing about them is new but their positions.

* `Program.ShapedBy`: the nodes, in order and each once, with their operands; the objective and the
  constraints; the common dimension.
* `compile_shape`: every program compiled from a **reachable graph** is shaped so.
-/

namespace MixedMonotone

variable {α : Type}

/-- **What a program consists of** that is compiled from a graph. -/
structure Program.ShapedBy (p : Program α) (g : Graph α) (extraction : Extraction) (root : NodeId)
    (constraints : List Constraint) : Prop where
  /-- Its nodes are copies of the nodes that it keeps, each once and in the order of their
  creation. -/
  nodes : ∃ kept, kept.Sublist g.nodes ∧ (∀ n, n ∈ kept ↔ g.Keeps extraction root constraints n) ∧
    List.Forall₂ (Node.Copy g.nodes p.nodes) kept p.nodes
  /-- No two of its nodes have one handle. -/
  increasing : Increasing p.nodes
  /-- Operands stand before the nodes that read them. -/
  before : ∀ k, ∀ j ∈ operandsAt p.nodes k, j < k
  /-- The handles are found where they stand, and no others. -/
  table : ∀ id k, p.arena.position? id = some k ↔ p.nodes[k]?.map Node.id = some id
  root : p.rootId? = some root
  /-- The constraints stand in the given order, each on the node with its handle. -/
  constraints : List.Forall₂ (fun c check => check.relation = c.relation ∧
    p.nodes[check.position]?.map Node.id = some c.node) constraints p.constraints
  /-- The common dimension is that of the variables. -/
  dimension : ∀ d, p.inputDimension = some d ↔ (∃ n ∈ p.nodes, n.isVariable = true) ∧
    ∀ n ∈ p.nodes, n.isVariable = true → n.dimension = d
  /-- There is none if there are no variables. -/
  noDimension : p.inputDimension = none ↔ ∀ n ∈ p.nodes, n.isVariable = false

variable [Scalar α]

theorem ArenaOK.shapedBy {s : Settings} {g : Graph α} (hok : ArenaOK s g.arena)
    {extraction : Extraction} {root : NodeId} {constraints : List Constraint} {p : Program α}
    (h : g.compile extraction root constraints = .ok p) :
    p.ShapedBy g extraction root constraints := by
  obtain ⟨roots, hroots, harena, -, hroot, hchecks⟩ := Graph.compile_eq_ok h
  have hp : ProgramOK s p := (compile_spec hok h).ok
  have hnodes := compact_copies hok harena
  exact
    { nodes := ⟨_, keptNodes_sublist .., fun n => mem_keptNodes_marks hok hroots, hnodes⟩
      increasing := hp.arena.ids
      before := hp.nodes.operands_lt
      table := fun id k => hp.arena.position?_eq_some_iff
      root := hp.arena.position?_eq_some_iff.1 hroot
      constraints := hchecks.imp fun c check hcheck =>
        ⟨hcheck.2, hp.arena.position?_eq_some_iff.1 hcheck.1⟩
      dimension := fun d => hp.inputDimension_eq_some_iff
      noDimension := hp.inputDimension_eq_none_iff }

variable [DecidableEq α]

/-- **Every program compiled from a reachable graph** consists of copies of the nodes it
needs, whatever was evaluated before, with the objective and the constraints on the nodes
that were asked for. -/
theorem compile_shape (commands : List (Command α NodeId)) {g : Nat} {G : Graph α}
    (hG : (Session.runAll commands {}).graph? g = some G) {extraction : Extraction} {root : NodeId}
    {constraints : List Constraint} {P : Program α}
    (hP : G.compile extraction root constraints = .ok P) :
    P.ShapedBy G extraction root constraints :=
  (graphOK_runAll hG).arena.shapedBy hP

/-- The square of a variable, with another variable in between. -/
def squareCommands : List (Command ℚ NodeId) :=
  [.newGraph {}, .graph 0 (.build (.taggedVariable 1 .nonneg)),
    .graph 0 (.build (.taggedVariable 4 .unknown)), .graph 0 (.build (.mul ⟨1⟩ ⟨1⟩))]

/-- The other variable is left out, and the repeated constraint is kept. -/
theorem compile_shape_square : ∃ G P, (Session.runAll squareCommands {}).graph? 0 = some G ∧
    G.compile .reachable ⟨3⟩ [⟨⟨3⟩, .zero⟩, ⟨⟨3⟩, .zero⟩] = .ok P ∧
    P.ShapedBy G .reachable ⟨3⟩ [⟨⟨3⟩, .zero⟩, ⟨⟨3⟩, .zero⟩] ∧
    P.constraints.length = 2 ∧ ∀ n ∈ P.nodes, n.id ≠ ⟨2⟩ := by
  obtain ⟨G, hG, ⟨v, hv, hvid, hvdim⟩, ⟨q, hq, hqid, hqmatrix, hqdim⟩, hops, hvops⟩ :
      ∃ G, (Session.runAll squareCommands {}).graph? 0 = some G ∧
        (∃ v, G.nodes[0]? = some v ∧ v.id = ⟨1⟩ ∧ v.dimension = 1) ∧
        (∃ q, G.nodes[2]? = some q ∧ q.id = ⟨3⟩ ∧ q.isMatrix = false ∧ q.dimension = 1) ∧
        operandsAt G.nodes 2 = [0, 0] ∧ operandsAt G.nodes 0 = [] :=
    ⟨((Session.runAll squareCommands {}).graph? 0).getD {}, by decide +kernel⟩
  have hok := (graphOK_runAll hG).arena
  have hreach : ∀ j, Reaches G.nodes 2 j → j = 0 ∨ j = 2 := by
    intro j hj
    induction hj with
    | refl => exact .inr rfl
    | operand _ hk ih =>
      rcases ih with rfl | rfl
      · rw [hvops] at hk
        cases hk
      · rw [hops] at hk
        exact .inl (by simpa using hk)
  -- paths from the square lead to itself and to its operand only
  have hkept : ∀ n, G.Keeps .reachable ⟨3⟩ [⟨⟨3⟩, .zero⟩, ⟨⟨3⟩, .zero⟩] n → n = v ∨ n = q := by
    rintro n ⟨i, hi, heverything | ⟨r, m, hm, hmem, hri⟩⟩
    · cases heverything
    · have hid : m.id = ⟨3⟩ := by simpa using hmem
      obtain rfl : r = 2 := Increasing.position_unique hok.ids hm hq (hid.trans hqid.symm)
      rcases hreach i hri with rfl | rfl
      · exact .inl (Option.some.inj (hi.symm.trans hv))
      · exact .inr (Option.some.inj (hi.symm.trans hq))
  have hqmem : q ∈ G.nodes := List.mem_of_getElem? hq
  obtain ⟨P, hP⟩ : ∃ P, G.compile .reachable ⟨3⟩ [⟨⟨3⟩, .zero⟩, ⟨⟨3⟩, .zero⟩] = .ok P := by
    refine (exists_compile_iff hok _ _ _).2 ⟨⟨q, hqmem, hqid, hqmatrix, hqdim⟩, ?_, ?_⟩
    · intro c hc
      have hnode : c = ⟨⟨3⟩, .zero⟩ := by simpa using hc
      exact ⟨q, hqmem, by rw [hqid, hnode], hqmatrix⟩
    · intro n m hn hm _ _
      have hdim : ∀ k, k = v ∨ k = q → k.dimension = 1 := by
        rintro k (rfl | rfl)
        · exact hvdim
        · exact hqdim
      rw [hdim n (hkept n hn), hdim m (hkept m hm)]
  have hshape := compile_shape squareCommands hG hP
  refine ⟨G, P, hG, hP, hshape, hshape.constraints.length_eq.symm, fun n hn => ?_⟩
  obtain ⟨kept, -, hkeeps, hcopies⟩ := hshape.nodes
  obtain ⟨m, hm, hcopy⟩ := forall₂_mem_left hcopies.flip hn
  rw [hcopy.id]
  rcases hkept m ((hkeeps m).1 hm) with rfl | rfl
  · rw [hvid]
    decide
  · rw [hqid]
    decide

end MixedMonotone
