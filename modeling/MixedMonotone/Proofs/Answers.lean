import Mathlib
import MixedMonotone.Constraint
import MixedMonotone.Program
import MixedMonotone.Proofs.Building
import MixedMonotone.Proofs.Evaluation

/-!
# What evaluations answer

* `Graph.checkInput_eq_ok`, `ProgramOK.inputsFit`: **accepted points fit** the
  variables below a node.
* `Graph.evaluate_spec`, `Program.evaluate_spec`, `Program.objective_spec`: an accepted evaluation
  is answered with the pure value, and changes caches only.
* `keeps_evaluate` and its kin: evaluations keep what caches make no difference to,
  answered or refused.
-/

namespace MixedMonotone

variable {α : Type}

/-! ## Accepted points -/

theorem Graph.misfit?_eq_none {nodes : List (Node α)} {marks : List Bool} {length : Nat} :
    Graph.misfit? nodes marks length = none ↔
      ∀ j n, nodes[j]? = some n → Marked marks j → n.isVariable = true → n.dimension = length := by
  unfold Graph.misfit?
  rw [Option.map_eq_none_iff, List.find?_eq_none]
  constructor
  · intro h j n hn hj hv
    have hmem : (n, true) ∈ nodes.zip marks :=
      List.mem_of_getElem? (List.getElem?_zip_eq_some.2 ⟨hn, hj⟩)
    simpa [hv] using h (n, true) hmem
  · rintro h ⟨n, b⟩ hmem
    obtain ⟨j, hj⟩ := List.mem_iff_getElem?.1 hmem
    obtain ⟨hn, hb⟩ := List.getElem?_zip_eq_some.1 hj
    cases b with
    | false => simp
    | true =>
      cases hv : n.isVariable with
      | false => simp
      | true => simpa [hv] using h j n hn hb hv

theorem Arena.position_eq_ok {a : Arena α} {id : NodeId} {i : Nat} :
    a.position id = .ok i ↔ a.position? id = some i := by
  unfold position
  cases a.position? id <;> simp

theorem Program.evaluable_eq_ok {p : Program α} {id : NodeId} {x y : List α} {i : Nat} :
    p.evaluable id x y = .ok i ↔ p.arena.position? id = some i ∧ p.checkInput x y = .ok () := by
  unfold Program.evaluable
  simp only [bind_eq_ok, Arena.position_eq_ok]
  constructor
  · rintro ⟨k, hk, ⟨⟩, hcheck, h⟩
    obtain rfl := Except.ok.inj h
    exact ⟨hk, hcheck⟩
  · rintro ⟨hi, hcheck⟩
    exact ⟨i, hi, (), hcheck, rfl⟩

theorem Program.checkable_eq_ok {p : Program α} {index : Nat} {x y : List α} {c : Check}
    (h : p.checkable index x y = .ok c) :
    p.constraints[index]? = some c ∧ p.checkInput x y = .ok () := by
  unfold Program.checkable at h
  cases hc : p.constraints[index]? with
  | none => simp [hc] at h
  | some c' =>
    rw [hc] at h
    obtain ⟨⟨⟩, hcheck, h⟩ := bind_eq_ok.1 h
    exact ⟨congrArg some (Except.ok.inj h), hcheck⟩

/-- **The points that a graph accepts** for a node fit the variables below it. -/
theorem Graph.checkInput_eq_ok {g : Graph α} (hlt : ∀ i, ∀ k ∈ operandsAt g.nodes i, k < i)
    {i : Nat} (hi : i < g.nodes.length) {x y : List α} :
    g.checkInput i x y = .ok () ↔ InputsFit g.nodes i ⟨x, y⟩ ∧ x.length = y.length := by
  -- the marks that the check looks at are the positions below
  have hmarks : ∀ j, Marked (reachable g.nodes [i]) j ↔ Reaches g.nodes i j := by
    intro j
    rw [reachable_iff hlt (by simpa using hi)]
    simp
  unfold Graph.checkInput
  constructor
  · intro h
    cases hmis : misfit? g.nodes (reachable g.nodes [i]) x.length with
    | some n => simp [hmis] at h
    | none =>
      simp only [hmis, ite_eq_left_iff, reduceCtorEq, imp_false, not_not] at h
      refine ⟨fun j n hij hn hv => ?_, h⟩
      have hdim := Graph.misfit?_eq_none.1 hmis j n hn ((hmarks j).2 hij) hv
      exact ⟨hdim.symm, by rw [hdim, h]⟩
  · rintro ⟨hin, hlen⟩
    have hmis : misfit? g.nodes (reachable g.nodes [i]) x.length = none :=
      Graph.misfit?_eq_none.2 fun j n hn hj hv => (hin j n ((hmarks j).1 hj) hn hv).1.symm
    rw [hmis, if_pos hlen]

variable [Scalar α] {s : Settings}

theorem ArenaOK.position_lt {a : Arena α} (hok : ArenaOK s a) {id : NodeId} {i : Nat}
    (h : a.position? id = some i) : i < a.nodes.length := by
  obtain ⟨n, hn, -⟩ := (hok.table id i).1 h
  exact (List.getElem?_eq_some_iff.1 hn).1

theorem Graph.evaluable_eq_ok {g : Graph α} (hok : ArenaOK s g.arena) {id : NodeId} {x y : List α}
    {i : Nat} :
    g.evaluable id x y = .ok i ↔
      g.arena.position? id = some i ∧ InputsFit g.nodes i ⟨x, y⟩ ∧ x.length = y.length := by
  unfold Graph.evaluable
  simp only [bind_eq_ok, Arena.position_eq_ok]
  constructor
  · rintro ⟨k, hk, ⟨⟩, hcheck, h⟩
    obtain rfl := Except.ok.inj h
    exact ⟨hk, (Graph.checkInput_eq_ok hok.nodes.operands_lt (hok.position_lt hk)).1 hcheck⟩
  · rintro ⟨hi, hin⟩
    exact ⟨i, hi, (), (Graph.checkInput_eq_ok hok.nodes.operands_lt (hok.position_lt hi)).2 hin,
      rfl⟩

/-! ## Graphs -/

/-- **An arena answers the pure value**, and changes caches only. -/
theorem Arena.evaluate_spec {a : Arena α} (hok : NodesOK s a.nodes) {i : Nat}
    (hi : i < a.nodes.length) {points : Points α} (hin : InputsFit a.nodes i points) :
    ∃ a', Arena.evaluate i points a = .ok (denote a.nodes i points) a' ∧ a.blank = a'.blank := by
  obtain ⟨nodes, hrun, halike, n, hn, hvalue⟩ := evaluateAt_spec i hok hi hin
  refine ⟨{ a with nodes }, ?_, Arena.blank_eq_iff.2 ⟨halike, rfl⟩⟩
  simp only [Arena.evaluate, hrun, hn, hvalue]

/-- An accepted evaluation is one of the arena. -/
theorem Graph.evaluate_of_arena {g : Graph α} {id : NodeId} {x y v : List α} {i : Nat} {a : Arena α}
    (h : g.evaluable id x y = .ok i) (hrun : Arena.evaluate i ⟨x, y⟩ g.arena = .ok v a) :
    Graph.evaluate id x y g = .ok v { g with arena := a } := by
  rw [evaluate, Action.inquire_bind_eq, h]
  simp only [onArena, Action.focus, hrun]

/-- **A graph answers the pure value** at accepted points, and changes caches only. -/
theorem Graph.evaluate_spec {g : Graph α} (hok : ArenaOK s g.arena) {id : NodeId} {x y : List α}
    {i : Nat} (h : g.evaluable id x y = .ok i) :
    ∃ g', Graph.evaluate id x y g = .ok (denote g.nodes i ⟨x, y⟩) g' ∧ g.blank = g'.blank := by
  obtain ⟨hpos, hin, -⟩ := (Graph.evaluable_eq_ok hok).1 h
  obtain ⟨a, hrun, hblank⟩ := Arena.evaluate_spec hok.nodes (hok.position_lt hpos) hin
  exact ⟨{ g with arena := a }, Graph.evaluate_of_arena h hrun,
    Graph.blank_eq_iff.2 ⟨hblank, rfl, rfl⟩⟩

theorem Graph.evaluate_refused {g : Graph α} {id : NodeId} {x y : List α} {e : Error α}
    (h : g.evaluable id x y = .error e) : Graph.evaluate id x y g = .error e g := by
  rw [evaluate, Action.inquire_bind_eq, h]

/-- A property of well-formed graphs to which **what evaluations leave** makes no difference. -/
structure Graph.IgnoresCaches (P : Graph α → Prop) : Prop where
  arena : ∀ g, P g → ∃ s, ArenaOK s g.arena
  blank : ∀ g g', P g → g.blank = g'.blank → P g'

theorem graphOK_ignoresCaches {nextId : Nat} {log : List Event} :
    Graph.IgnoresCaches (GraphOK (α := α) nextId log) :=
  ⟨fun _ hg => ⟨_, hg.arena⟩, fun _ _ hg => hg.of_blank_eq⟩

/-- A call that keeps every such property changes **nothing but caches**. -/
theorem Graph.blank_after {γ : Type} {act : Action α (Graph α) γ}
    (hact : ∀ P : Graph α → Prop, Graph.IgnoresCaches P → Action.Keeps P act) {g : Graph α}
    (hok : ArenaOK s g.arena) : g.blank = (act.after g).blank := by
  have hkept : Graph.IgnoresCaches fun G => ArenaOK s G.arena ∧ g.blank = G.blank :=
    ⟨fun _ hG => ⟨s, hG.1⟩, fun _ _ hG heq =>
      ⟨hG.1.of_blank_eq (Graph.blank_eq_iff.1 heq).1, hG.2.trans heq⟩⟩
  exact (hact _ hkept g ⟨hok, rfl⟩).2

section Evaluations

variable {P : Graph α → Prop} (hP : Graph.IgnoresCaches P)

include hP

theorem Graph.keeps_evaluate (id : NodeId) (x y : List α) :
    Action.Keeps P (Graph.evaluate id x y) := by
  intro g hg
  cases h : g.evaluable id x y with
  | error e => rw [Action.after, Graph.evaluate_refused h]; exact hg
  | ok i =>
    obtain ⟨s, hok⟩ := hP.arena g hg
    obtain ⟨g', hrun, hblank⟩ := Graph.evaluate_spec hok h
    rw [Action.after_eq_of_ok hrun]
    exact hP.blank g g' hg hblank

theorem Graph.keeps_evaluateScalar (id : NodeId) (x y : List α) :
    Action.Keeps P (Graph.evaluateScalar id x y) := by
  refine .bind (.inquire _) fun _ => .bind (Graph.keeps_evaluate hP id x y) fun values => ?_
  cases values.head? with
  | some v => exact .pure v
  | none => exact .throw _

theorem Graph.keeps_fulfilled (c : Constraint) (x y : List α) :
    Action.Keeps P (Graph.fulfilled c x y) :=
  .bind .get fun _ => .bind (Graph.keeps_evaluate hP c.node x y) fun _ => .pure _

end Evaluations

/-! ## Programs -/

/-- **A well-formed program**: its arena is, its positions are positions there, the objective has
one component, and the common dimension is that of every variable. -/
structure ProgramOK (s : Settings) (p : Program α) : Prop where
  arena : ArenaOK s p.arena
  root : ∃ n, p.nodes[p.root]? = some n ∧ n.dimension = 1
  checks : ∀ c ∈ p.constraints, c.position < p.nodes.length
  inputs : ∀ n ∈ p.nodes, n.isVariable = true → p.inputDimension = some n.dimension
  declared : ∀ d, p.inputDimension = some d → ∃ n ∈ p.nodes, n.isVariable = true

namespace ProgramOK

variable {p q : Program α}

theorem nodes (h : ProgramOK s p) : NodesOK s p.nodes := h.arena.nodes

theorem root_lt (h : ProgramOK s p) : p.root < p.nodes.length := by
  obtain ⟨n, hn, -⟩ := h.root
  exact (List.getElem?_eq_some_iff.1 hn).1

/-- What evaluations leave makes no difference. -/
theorem of_blank_eq (h : ProgramOK s p) (heq : p.blank = q.blank) : ProgramOK s q := by
  obtain ⟨harena, hroot, hchecks, hinputs, -⟩ := Program.blank_eq_iff.1 heq
  have halike : Alike p.nodes q.nodes := (Arena.blank_eq_iff.1 harena).1
  refine ⟨h.arena.of_blank_eq harena, ?_, ?_, ?_, ?_⟩
  · obtain ⟨n, hn, hdim⟩ := h.root
    obtain ⟨n', hn', hblank⟩ := halike.getElem? hn
    exact ⟨n', hroot ▸ hn', (Node.eq_of_blank Node.blank_dimension hblank).trans hdim⟩
  · rw [← hchecks, ← halike.length_eq]
    exact h.checks
  · intro n' hn' hv
    obtain ⟨n, hn, hblank⟩ := halike.symm.mem hn'
    have hdim : n.dimension = n'.dimension := Node.eq_of_blank Node.blank_dimension hblank
    rw [← hinputs, ← hdim]
    exact h.inputs n hn ((Node.eq_of_blank Node.blank_isVariable hblank).trans hv)
  · intro d hd
    obtain ⟨n, hn, hv⟩ := h.declared d (hinputs ▸ hd)
    obtain ⟨n', hn', hblank⟩ := halike.mem hn
    exact ⟨n', hn', (Node.eq_of_blank Node.blank_isVariable hblank).trans hv⟩

/-- **The points that a program accepts** fit all variables. -/
theorem inputsFit (h : ProgramOK s p) {x y : List α} (hcheck : p.checkInput x y = .ok ())
    (i : Nat) : InputsFit p.nodes i ⟨x, y⟩ := by
  unfold Program.checkInput at hcheck
  dsimp only at hcheck
  split at hcheck
  · rename_i hlen
    intro j n _ hn hv
    rw [h.inputs n (List.mem_of_getElem? hn) hv] at hlen
    exact hlen
  · cases hcheck

/-- The common dimension is that of the variables, of which there is one. -/
theorem inputDimension_eq_some_iff (h : ProgramOK s p) {d : Nat} :
    p.inputDimension = some d ↔ (∃ n ∈ p.nodes, n.isVariable = true) ∧
      ∀ n ∈ p.nodes, n.isVariable = true → n.dimension = d := by
  constructor
  · intro hd
    refine ⟨h.declared d hd, fun n hn hv => ?_⟩
    have hdim := h.inputs n hn hv
    rw [hd] at hdim
    exact (Option.some.inj hdim).symm
  · rintro ⟨⟨n, hn, hv⟩, hall⟩
    rw [h.inputs n hn hv, hall n hn hv]

/-- There is no common dimension exactly if there is no variable. -/
theorem inputDimension_eq_none_iff (h : ProgramOK s p) :
    p.inputDimension = none ↔ ∀ n ∈ p.nodes, n.isVariable = false := by
  constructor
  · intro hnone n hn
    by_contra hv
    have hd := h.inputs n hn (by simpa using hv)
    rw [hnone] at hd
    cases hd
  · intro hall
    cases hd : p.inputDimension with
    | none => rfl
    | some d =>
      obtain ⟨n, hn, hv⟩ := h.declared d hd
      rw [hall n hn] at hv
      cases hv

end ProgramOK

namespace Program

variable {p p' : Program α} {x y v : List α}

theorem onArena_of_arena {points : Points α} {i : Nat} {a : Arena α}
    (hrun : Arena.evaluate i points p.arena = .ok v a) :
    onArena (Arena.evaluate i points) p = .ok v { p with arena := a } := by
  simp only [onArena, Action.focus, hrun]

/-- An accepted evaluation is one of the arena. -/
theorem evaluate_of_onArena {id : NodeId} {i : Nat} (h : p.evaluable id x y = .ok i)
    (hrun : onArena (Arena.evaluate i ⟨x, y⟩) p = .ok v p') : evaluate id x y p = .ok v p' := by
  rw [evaluate, Action.inquire_bind_eq, h]
  dsimp only
  rw [hrun]

/-- The objective is the one component of its node. -/
theorem objective_of_onArena {v : α} (hcheck : p.checkInput x y = .ok ())
    (hrun : onArena (Arena.evaluate p.root ⟨x, y⟩) p = .ok [v] p') :
    objective x y p = .ok v p' := by
  rw [objective, Action.inquire_bind_eq, hcheck]
  dsimp only
  rw [Action.get_bind, Action.bind_of_ok hrun]
  rfl

/-- A constraint holds if its node's value says so under the program's rule for zero. -/
theorem fulfilled_of_onArena {index : Nat} {c : Check} (h : p.checkable index x y = .ok c)
    (hrun : onArena (Arena.evaluate c.position ⟨x, y⟩) p = .ok v p') :
    fulfilled index x y p = .ok (c.relation.holds v p.zeroRule) p' := by
  rw [fulfilled, Action.inquire_bind_eq, h]
  dsimp only
  rw [Action.get_bind, Action.bind_of_ok hrun]
  rfl

/-- A program answers the pure value at positions of its arena, and changes caches only. -/
theorem onArena_evaluate_spec (hok : ProgramOK s p) {i : Nat} (hi : i < p.nodes.length)
    (hcheck : p.checkInput x y = .ok ()) :
    ∃ p', onArena (Arena.evaluate i ⟨x, y⟩) p = .ok (denote p.nodes i ⟨x, y⟩) p' ∧
      p.blank = p'.blank := by
  obtain ⟨a, hrun, hblank⟩ := Arena.evaluate_spec hok.nodes hi (hok.inputsFit hcheck i)
  exact ⟨{ p with arena := a }, onArena_of_arena hrun,
    Program.blank_eq_iff.2 ⟨hblank, rfl, rfl, rfl, rfl⟩⟩

/-- **A program answers the pure value** at accepted points, and changes caches only. -/
theorem evaluate_spec (hok : ProgramOK s p) {id : NodeId} {i : Nat}
    (h : p.evaluable id x y = .ok i) :
    ∃ p', evaluate id x y p = .ok (denote p.nodes i ⟨x, y⟩) p' ∧ p.blank = p'.blank := by
  obtain ⟨hpos, hcheck⟩ := evaluable_eq_ok.1 h
  obtain ⟨p', hrun, hblank⟩ := onArena_evaluate_spec hok (hok.arena.position_lt hpos) hcheck
  exact ⟨p', evaluate_of_onArena h hrun, hblank⟩

/-- **The objective is the pure value** of its node. -/
theorem objective_spec (hok : ProgramOK s p) (hcheck : p.checkInput x y = .ok ()) :
    ∃ v p', objective x y p = .ok v p' ∧ denote p.nodes p.root ⟨x, y⟩ = [v] ∧
      p.blank = p'.blank := by
  obtain ⟨p', hrun, hblank⟩ := onArena_evaluate_spec hok hok.root_lt hcheck
  obtain ⟨n, hn, hdim⟩ := hok.root
  have hlen := length_denote hok.nodes p.root n ⟨x, y⟩ hn (hok.inputsFit hcheck _)
  obtain ⟨v, hv⟩ := List.length_eq_one_iff.1 (hlen.trans hdim)
  rw [hv] at hrun
  exact ⟨v, p', objective_of_onArena hcheck hrun, hv, hblank⟩

/-- A property of well-formed programs to which **what evaluations leave** makes no difference. -/
structure IgnoresCaches (P : Program α → Prop) : Prop where
  ok : ∀ p, P p → ∃ s, ProgramOK s p
  blank : ∀ p p', P p → p.blank = p'.blank → P p'

theorem programOK_ignoresCaches : IgnoresCaches (ProgramOK (α := α) s) :=
  ⟨fun _ hp => ⟨_, hp⟩, fun _ _ hp => hp.of_blank_eq⟩

/-- A call that keeps every such property changes **nothing but caches**. -/
theorem blank_after {γ : Type} {act : Action α (Program α) γ}
    (hact : ∀ P : Program α → Prop, IgnoresCaches P → Action.Keeps P act) (hok : ProgramOK s p) :
    p.blank = (act.after p).blank := by
  have hkept : IgnoresCaches fun q => ProgramOK s q ∧ p.blank = q.blank :=
    ⟨fun _ hq => ⟨s, hq.1⟩, fun _ _ hq heq => ⟨hq.1.of_blank_eq heq, hq.2.trans heq⟩⟩
  exact (hact _ hkept p ⟨hok, rfl⟩).2

section Evaluations

variable {P : Program α → Prop} (hP : IgnoresCaches P)

include hP

theorem keeps_onArena_evaluate {i : Nat} (hp : P p) (hok : ProgramOK s p) (hi : i < p.nodes.length)
    (hcheck : p.checkInput x y = .ok ()) : P ((onArena (Arena.evaluate i ⟨x, y⟩)).after p) := by
  obtain ⟨p', hrun, hblank⟩ := onArena_evaluate_spec hok hi hcheck
  rw [Action.after_eq_of_ok hrun]
  exact hP.blank p p' hp hblank

theorem keeps_evaluate (id : NodeId) (x y : List α) : Action.Keeps P (evaluate id x y) := by
  refine .inquire_bind fun p i hp h => ?_
  obtain ⟨s, hok⟩ := hP.ok p hp
  obtain ⟨hpos, hcheck⟩ := evaluable_eq_ok.1 h
  exact keeps_onArena_evaluate hP hp hok (hok.arena.position_lt hpos) hcheck

theorem keeps_objective (x y : List α) : Action.Keeps P (objective x y) := by
  refine .inquire_bind fun p _ hp hcheck => ?_
  obtain ⟨s, hok⟩ := hP.ok p hp
  rw [Action.after_get_bind]
  refine Action.Keeps.bind_at (keeps_onArena_evaluate hP hp hok hok.root_lt hcheck) fun values => ?_
  cases values.head? with
  | some v => exact .pure v
  | none => exact .throw _

theorem keeps_fulfilled (index : Nat) (x y : List α) : Action.Keeps P (fulfilled index x y) := by
  refine .inquire_bind fun p c hp h => ?_
  obtain ⟨s, hok⟩ := hP.ok p hp
  obtain ⟨hc, hcheck⟩ := checkable_eq_ok h
  have hpos := hok.checks c (List.mem_of_getElem? hc)
  rw [Action.after_get_bind]
  exact Action.Keeps.bind_at (keeps_onArena_evaluate hP hp hok hpos hcheck) fun _ => .pure _

theorem keeps_fulfilledInOrder (x y : List α) (indices : List Nat) :
    Action.Keeps P (fulfilledInOrder x y indices) := by
  induction indices with
  | nil => exact .pure _
  | cons index rest ih =>
    refine .bind (keeps_fulfilled hP index x y) fun b => ?_
    cases b
    · exact .pure _
    · exact ih

theorem keeps_constraintsHold (x y : List α) : Action.Keeps P (constraintsHold x y) :=
  .bind .get fun p => keeps_fulfilledInOrder hP x y (List.range p.constraints.length)

end Evaluations

end Program

end MixedMonotone
