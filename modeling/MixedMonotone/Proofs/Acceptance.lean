import Mathlib
import MixedMonotone.Proofs.Overflow

/-!
# When evaluations are answered

An evaluation is checked before anything is overwritten, and what has passed the check cannot fail
any more: the sizes of all operands were fixed when the nodes were added.

* `Action.AnsweredWhere`: a call is answered **exactly where it is to be accepted**; elsewhere it is
  refused for a cause that its caller can mend, and changes nothing.
* `Graph.Accepts`, `Program.Takes`: what is to be accepted, read off the nodes.
* `Graph.AnswersAsDocumented`, `Program.AnswersAsDocumented`: this for every kind of evaluation.
* `evaluations_answered_as_documented`: it holds of **every reachable graph and program**.
-/

namespace MixedMonotone

variable {α σ β γ : Type}

/-! ## Calls that are checked first -/

/-- **The call is answered where it is to be accepted, and nowhere else.** Elsewhere it is
refused for one of the causes, never because an index or a length does not fit, and leaves
the state as it was. -/
structure Action.AnsweredWhere (act : Action α σ β) (s : σ) (accepted : Prop)
    (cause : Error α → Prop) : Prop where
  answered : (∃ b t, act s = .ok b t) ↔ accepted
  refused : ∀ e t, act s = .error e t → cause e ∧ e ≠ .outOfRange ∧ t = s

/-- A call with one check in front, after which it cannot fail. -/
theorem Action.AnsweredWhere.of_check {act : Action α σ β} {s : σ} {accepted : Prop}
    {cause : Error α → Prop} (check : Except (Error α) γ)
    (hok : ∀ c, check = .ok c → ∃ b t, act s = .ok b t)
    (herror : ∀ e, check = .error e → act s = .error e s)
    (haccepted : (∃ c, check = .ok c) ↔ accepted)
    (hcause : ∀ e, check = .error e → cause e) (hrange : ¬ cause .outOfRange) :
    act.AnsweredWhere s accepted cause := by
  rw [← haccepted]
  cases hcheck : check with
  | ok c =>
    obtain ⟨b, t, hrun⟩ := hok c hcheck
    refine ⟨⟨fun _ => ⟨c, rfl⟩, fun _ => ⟨b, t, hrun⟩⟩, ?_⟩
    intro e t' h
    rw [hrun] at h
    cases h
  | error e =>
    have hrun := herror e hcheck
    constructor
    · constructor
      · rintro ⟨b, t, h⟩
        rw [hrun] at h
        cases h
      · rintro ⟨c, h⟩
        cases h
    · intro e' t h
      rw [hrun] at h
      obtain ⟨rfl, rfl⟩ : e = e' ∧ s = t := by simpa using h
      have he := hcause e hcheck
      exact ⟨he, fun hout => hrange (hout ▸ he), rfl⟩

/-! ## Graphs -/

namespace Graph

/-- **The points are to be accepted** for the node with a handle: they are equally long, and as long
as every variable below the node. -/
def Accepts (g : Graph α) (id : NodeId) (x y : List α) : Prop :=
  ∃ i, g.nodes[i]?.map Node.id = some id ∧ x.length = y.length ∧
    ∀ j n, Reaches g.nodes i j → g.nodes[j]? = some n → n.isVariable = true → n.dimension = x.length

/-- Why a node cannot be evaluated at the points: no node has the handle, a variable below the node
has another length than the first point, or the points are not equally long. -/
inductive EvaluationFault (g : Graph α) (id : NodeId) (x y : List α) : Error α → Prop
  | unknown (h : ∀ n ∈ g.nodes, n.id ≠ id) : EvaluationFault g id x y (.unknownNode id)
  | «variable» {i j : Nat} {n : Node α} (hi : g.nodes[i]?.map Node.id = some id)
      (hij : Reaches g.nodes i j) (hn : g.nodes[j]? = some n) (hv : n.isVariable = true)
      (hlen : n.dimension ≠ x.length) :
      EvaluationFault g id x y (.inputDimension n.dimension x.length y.length)
  | points (hlen : x.length ≠ y.length) :
      EvaluationFault g id x y (.inputDimension x.length x.length y.length)

/-- Why a node cannot be evaluated to a number: it has another number of components, **whatever the
points are**, or it cannot be evaluated. -/
inductive ScalarFault (g : Graph α) (id : NodeId) (x y : List α) : Error α → Prop
  | notScalar {n : Node α} (hn : n ∈ g.nodes) (hid : n.id = id) (hdim : n.dimension ≠ 1) :
      ScalarFault g id x y (.notScalar id n.dimension)
  | evaluation {e : Error α} (hdim : ∀ n ∈ g.nodes, n.id = id → n.dimension = 1)
      (he : EvaluationFault g id x y e) : ScalarFault g id x y e

theorem misfit?_eq_some {nodes : List (Node α)} {marks : List Bool} {length : Nat} {n : Node α}
    (h : misfit? nodes marks length = some n) :
    ∃ j, nodes[j]? = some n ∧ Marked marks j ∧ n.isVariable = true ∧ n.dimension ≠ length := by
  obtain ⟨⟨m, marked⟩, hfind, rfl⟩ := Option.map_eq_some_iff.1 h
  obtain ⟨j, hj⟩ := List.mem_iff_getElem?.1 (List.mem_of_find?_eq_some hfind)
  obtain ⟨hn, hmark⟩ := List.getElem?_zip_eq_some.1 hj
  have hbad := List.find?_some hfind
  simp only [Bool.and_eq_true, bne_iff_ne] at hbad
  obtain ⟨⟨rfl, hv⟩, hlen⟩ := hbad
  exact ⟨j, hn, hmark, hv, hlen⟩

variable [Scalar α] {s : Settings} {g : Graph α}

theorem checkInput_fault (hok : NodesOK s g.nodes) {i : Nat} {id : NodeId} {x y : List α}
    {e : Error α} (hi : g.nodes[i]?.map Node.id = some id) (h : g.checkInput i x y = .error e) :
    EvaluationFault g id x y e := by
  unfold checkInput at h
  cases hmisfit : misfit? g.nodes (reachable g.nodes [i]) x.length with
  | some n =>
    rw [hmisfit] at h
    obtain rfl := Except.error.inj h
    obtain ⟨j, hn, hmark, hv, hlen⟩ := misfit?_eq_some hmisfit
    obtain ⟨m, hm, -⟩ := Option.map_eq_some_iff.1 hi
    have hlt : i < g.nodes.length := (List.getElem?_eq_some_iff.1 hm).1
    obtain ⟨r, hr, hij⟩ := (reachable_iff hok.operands_lt (by simpa using hlt) j).1 hmark
    obtain rfl := List.mem_singleton.1 hr
    exact .variable hi hij hn hv hlen
  | none =>
    rw [hmisfit] at h
    dsimp only at h
    by_cases hlen : x.length = y.length
    · rw [if_pos hlen] at h
      cases h
    · rw [if_neg hlen] at h
      obtain rfl := Except.error.inj h
      exact .points hlen

theorem evaluable_fault (hok : ArenaOK s g.arena) {id : NodeId} {x y : List α} {e : Error α}
    (h : g.evaluable id x y = .error e) : EvaluationFault g id x y e := by
  rcases bind_eq_error.1 h with hpos | ⟨i, hpos, h⟩
  · obtain ⟨hunknown, rfl⟩ := hok.position_eq_error_iff.1 hpos
    exact .unknown hunknown
  · have hi := hok.position?_eq_some_iff.1 (Arena.position_eq_ok.1 hpos)
    rcases bind_eq_error.1 h with hinput | ⟨_, -, h⟩
    · exact checkInput_fault hok.nodes hi hinput
    · cases h

theorem exists_evaluable_iff (hok : ArenaOK s g.arena) {id : NodeId} {x y : List α} :
    (∃ i, g.evaluable id x y = .ok i) ↔ g.Accepts id x y := by
  simp only [evaluable_eq_ok hok, hok.position?_eq_some_iff]
  constructor
  · rintro ⟨i, hi, hin, hlen⟩
    exact ⟨i, hi, hlen, fun j n hij hn hv => (hin j n hij hn hv).1.symm⟩
  · rintro ⟨i, hi, hlen, hall⟩
    refine ⟨i, hi, fun j n hij hn hv => ?_, hlen⟩
    have hdim := hall j n hij hn hv
    exact ⟨hdim.symm, hlen.symm.trans hdim.symm⟩

theorem evaluate_answeredWhere (hok : ArenaOK s g.arena) (id : NodeId) (x y : List α) :
    (evaluate id x y).AnsweredWhere g (g.Accepts id x y) (g.EvaluationFault id x y) := by
  refine .of_check (g.evaluable id x y) ?_ ?_ (exists_evaluable_iff hok)
    (fun e => evaluable_fault hok) (fun h => by cases h)
  · intro i hi
    obtain ⟨g', hrun, -⟩ := evaluate_spec hok hi
    exact ⟨_, g', hrun⟩
  · intro e he
    exact evaluate_refused he

/-- An answer has as many components as the node, and **every node keeps its size**. -/
theorem evaluate_sizes (hok : ArenaOK s g.arena) {id : NodeId} {x y v : List α} {g' : Graph α}
    (h : evaluate id x y g = .ok v g') :
    (∃ n ∈ g.nodes, n.id = id ∧ v.length = n.dimension) ∧
      g'.nodes.map Node.dimension = g.nodes.map Node.dimension := by
  obtain ⟨i, hi⟩ : ∃ i, g.evaluable id x y = .ok i :=
    (exists_evaluable_iff hok).2 ((evaluate_answeredWhere hok id x y).answered.1 ⟨v, g', h⟩)
  obtain ⟨g₁, hrun, hblank⟩ := evaluate_spec hok hi
  rw [h] at hrun
  obtain ⟨rfl, rfl⟩ : v = denote g.nodes i ⟨x, y⟩ ∧ g' = g₁ := by simpa using hrun
  obtain ⟨hpos, hin, -⟩ := (evaluable_eq_ok hok).1 hi
  obtain ⟨n, hn, hid⟩ := (hok.table id i).1 hpos
  refine ⟨⟨n, List.mem_of_getElem? hn, hid, length_denote hok.nodes i n _ hn hin⟩, ?_⟩
  have halike : Alike g.nodes g'.nodes := (Arena.blank_eq_iff.1 (Graph.blank_eq_iff.1 hblank).1).1
  refine List.ext_getElem? fun j => ?_
  rw [List.getElem?_map, List.getElem?_map, halike.lookup_eq Node.blank_dimension]

/-! ## Numbers -/

theorem checkScalar_eq (hok : ArenaOK s g.arena) {n : Node α} (hn : n ∈ g.nodes) :
    g.checkScalar n.id = if n.dimension = 1 then .ok () else .error
      (.notScalar n.id n.dimension) := by
  obtain ⟨i, hi⟩ := List.mem_iff_getElem?.1 hn
  rw [checkScalar, hok.node_eq hi]
  rfl

theorem checkScalar_eq_ok_iff (hok : ArenaOK s g.arena) {id : NodeId} :
    g.checkScalar id = .ok () ↔ ∃ n ∈ g.nodes, n.id = id ∧ n.dimension = 1 := by
  constructor
  · intro h
    rcases known_or_unknown g.nodes id with ⟨n, hn, rfl⟩ | hunknown
    · rw [checkScalar_eq hok hn] at h
      refine ⟨n, hn, rfl, ?_⟩
      by_contra hdim
      rw [if_neg hdim] at h
      cases h
    · rw [checkScalar, hok.node_unknown hunknown] at h
      cases h
  · rintro ⟨n, hn, rfl, hdim⟩
    rw [checkScalar_eq hok hn, if_pos hdim]

theorem checkScalar_fault (hok : ArenaOK s g.arena) {id : NodeId} {e : Error α}
    (h : g.checkScalar id = .error e) (x y : List α) : ScalarFault g id x y e := by
  rcases known_or_unknown g.nodes id with ⟨n, hn, rfl⟩ | hunknown
  · rw [checkScalar_eq hok hn] at h
    by_cases hdim : n.dimension = 1
    · rw [if_pos hdim] at h
      cases h
    · rw [if_neg hdim] at h
      obtain rfl := Except.error.inj h
      exact .notScalar hn rfl hdim
  · rw [checkScalar, hok.node_unknown hunknown] at h
    obtain rfl := Except.error.inj h
    exact .evaluation (fun n hn hid => absurd hid (hunknown n hn)) (.unknown hunknown)

theorem evaluateScalar_refused {id : NodeId} {e : Error α} (h : g.checkScalar id = .error e)
    (x y : List α) : evaluateScalar id x y g = .error e g := by
  rw [evaluateScalar, Action.inquire_bind_eq, h]

/-- Past the check for one component, the answer is the component of the node's value. -/
theorem evaluateScalar_of_evaluate {id : NodeId} {x y : List α} {v : α} {g' : Graph α}
    (h : g.checkScalar id = .ok ()) (hrun : evaluate id x y g = .ok [v] g') :
    evaluateScalar id x y g = .ok v g' := by
  rw [evaluateScalar, Action.inquire_bind_eq, h]
  dsimp only
  rw [Action.bind_of_ok hrun]
  rfl

theorem evaluateScalar_of_refused {id : NodeId} {x y : List α} {e : Error α}
    (h : g.checkScalar id = .ok ()) (hrun : evaluate id x y g = .error e g) :
    evaluateScalar id x y g = .error e g := by
  rw [evaluateScalar, Action.inquire_bind_eq, h]
  dsimp only
  rw [Action.bind_of_error hrun]

theorem evaluateScalar_answeredWhere (hok : ArenaOK s g.arena) (id : NodeId) (x y : List α) :
    (evaluateScalar id x y).AnsweredWhere g
      ((∃ n ∈ g.nodes, n.id = id ∧ n.dimension = 1) ∧ g.Accepts id x y) (g.ScalarFault id x y) := by
  refine .of_check (g.checkScalar id >>= fun _ => g.evaluable id x y) ?_ ?_ ?_ ?_ ?_
  · intro i hi
    obtain ⟨⟨⟩, hscalar, hi⟩ := bind_eq_ok.1 hi
    obtain ⟨g', hrun, -⟩ := evaluate_spec hok hi
    -- the answer has the node's one component
    obtain ⟨⟨m, hm, hmid, hlen⟩, -⟩ := evaluate_sizes hok hrun
    obtain ⟨n, hn, hid, hdim⟩ := (checkScalar_eq_ok_iff hok).1 hscalar
    obtain rfl := hok.eq_of_id hm hn (hmid.trans hid.symm)
    obtain ⟨v, hv⟩ := List.length_eq_one_iff.1 (hlen.trans hdim)
    rw [hv] at hrun
    exact ⟨v, g', evaluateScalar_of_evaluate hscalar hrun⟩
  · intro e he
    rcases bind_eq_error.1 he with hscalar | ⟨⟨⟩, hscalar, he⟩
    · exact evaluateScalar_refused hscalar x y
    · exact evaluateScalar_of_refused hscalar (evaluate_refused he)
  · rw [← checkScalar_eq_ok_iff hok, ← exists_evaluable_iff hok]
    simp only [bind_eq_ok]
    constructor
    · rintro ⟨i, ⟨⟩, hscalar, hi⟩
      exact ⟨hscalar, i, hi⟩
    · rintro ⟨hscalar, i, hi⟩
      exact ⟨i, (), hscalar, hi⟩
  · intro e he
    rcases bind_eq_error.1 he with hscalar | ⟨⟨⟩, hscalar, he⟩
    · exact checkScalar_fault hok hscalar x y
    · obtain ⟨n, hn, hid, hdim⟩ := (checkScalar_eq_ok_iff hok).1 hscalar
      refine .evaluation (fun m hm hmid => ?_) (evaluable_fault hok he)
      rw [hok.eq_of_id hm hn (hmid.trans hid.symm), hdim]
  · intro h
    cases h with
    | evaluation _ he => cases he

end Graph

/-! ## Programs -/

namespace Program

/-- **The points are to be accepted**: both are as long as the variables, or as each other
if there are none. -/
def Takes (p : Program α) (x y : List α) : Prop :=
  match p.inputDimension with
  | some d => x.length = d ∧ y.length = d
  | none => x.length = y.length

/-- Why points are not accepted: their lengths, with the one that is expected. -/
inductive InputFault (p : Program α) (x y : List α) : Error α → Prop
  | sizes {d : Nat} (hd : p.inputDimension = some d) (hlen : ¬ (x.length = d ∧ y.length = d)) :
      InputFault p x y (.inputDimension d x.length y.length)
  | points (hnone : p.inputDimension = none) (hlen : x.length ≠ y.length) :
      InputFault p x y (.inputDimension x.length x.length y.length)

/-- Why a node cannot be evaluated at the points. -/
inductive EvaluationFault (p : Program α) (id : NodeId) (x y : List α) : Error α → Prop
  | unknown (h : ∀ n ∈ p.nodes, n.id ≠ id) : EvaluationFault p id x y (.unknownNode id)
  | input {e : Error α} (he : p.InputFault x y e) : EvaluationFault p id x y e

/-- Why a constraint cannot be checked at the points. -/
inductive ConstraintFault (p : Program α) (index : Nat) (x y : List α) : Error α → Prop
  | unknown (h : p.constraints.length ≤ index) :
      ConstraintFault p index x y (.unknownConstraint index p.constraints.length)
  | input {e : Error α} (he : p.InputFault x y e) : ConstraintFault p index x y e

variable {p : Program α} {x y : List α} {e : Error α}

theorem checkInput_eq_ok_iff : p.checkInput x y = .ok () ↔ p.Takes x y := by
  unfold checkInput Takes
  cases p.inputDimension with
  | none => simp [eq_comm]
  | some d => simp

theorem checkInput_fault (h : p.checkInput x y = .error e) : p.InputFault x y e := by
  unfold checkInput at h
  dsimp only at h
  split at h
  · cases h
  · rename_i hlen
    obtain rfl := Except.error.inj h
    cases hd : p.inputDimension with
    | none =>
      rw [hd] at hlen
      exact .points hd fun heq => hlen ⟨rfl, heq.symm⟩
    | some d =>
      rw [hd] at hlen
      exact .sizes hd hlen

theorem InputFault.ne_outOfRange (h : p.InputFault x y e) : e ≠ .outOfRange := by
  rintro rfl
  cases h

theorem checkable_eq_ok_iff {index : Nat} {c : Check} :
    p.checkable index x y = .ok c ↔ p.constraints[index]? = some c ∧ p.checkInput x y = .ok () := by
  refine ⟨checkable_eq_ok, ?_⟩
  rintro ⟨hc, hcheck⟩
  rw [checkable, hc, hcheck]
  rfl

theorem checkable_fault {index : Nat} (h : p.checkable index x y = .error e) :
    p.ConstraintFault index x y e := by
  unfold checkable at h
  cases hc : p.constraints[index]? with
  | none =>
    rw [hc] at h
    obtain rfl := Except.error.inj h
    exact .unknown (List.getElem?_eq_none_iff.1 hc)
  | some c =>
    rw [hc] at h
    rcases bind_eq_error.1 h with hinput | ⟨_, -, h⟩
    · exact .input (checkInput_fault hinput)
    · cases h

variable [Scalar α] {s : Settings}

theorem evaluable_fault (hok : ArenaOK s p.arena) {id : NodeId}
    (h : p.evaluable id x y = .error e) : p.EvaluationFault id x y e := by
  rcases bind_eq_error.1 h with hpos | ⟨i, hpos, h⟩
  · obtain ⟨hunknown, rfl⟩ := hok.position_eq_error_iff.1 hpos
    exact .unknown hunknown
  · rcases bind_eq_error.1 h with hinput | ⟨_, -, h⟩
    · exact .input (checkInput_fault hinput)
    · cases h

theorem objective_answeredWhere (hok : ProgramOK s p) (x y : List α) :
    (objective x y).AnsweredWhere p (p.Takes x y) (p.InputFault x y) := by
  refine .of_check (p.checkInput x y) ?_ ?_ ?_ (fun e => checkInput_fault)
    (fun h => h.ne_outOfRange rfl)
  · rintro ⟨⟩ hcheck
    obtain ⟨v, p', hrun, -⟩ := objective_spec hok hcheck
    exact ⟨v, p', hrun⟩
  · intro e he
    rw [objective, Action.inquire_bind_eq, he]
  · rw [← checkInput_eq_ok_iff]
    constructor
    · rintro ⟨⟨⟩, hcheck⟩
      exact hcheck
    · intro hcheck
      exact ⟨(), hcheck⟩

theorem evaluate_answeredWhere (hok : ProgramOK s p) (id : NodeId) (x y : List α) :
    (evaluate id x y).AnsweredWhere p ((∃ n ∈ p.nodes, n.id = id) ∧ p.Takes x y)
      (p.EvaluationFault id x y) := by
  refine .of_check (p.evaluable id x y) ?_ ?_ ?_ (fun e => evaluable_fault hok.arena) ?_
  · intro i hi
    obtain ⟨p', hrun, -⟩ := evaluate_spec hok hi
    exact ⟨_, p', hrun⟩
  · intro e he
    rw [evaluate, Action.inquire_bind_eq, he]
  · simp only [evaluable_eq_ok, checkInput_eq_ok_iff, exists_and_right,
      hok.arena.exists_position?_iff]
    exact Iff.rfl
  · intro h
    cases h with
    | input he => exact he.ne_outOfRange rfl

theorem fulfilled_answeredWhere (hok : ProgramOK s p) (index : Nat) (x y : List α) :
    (fulfilled index x y).AnsweredWhere p (index < p.constraints.length ∧ p.Takes x y)
      (p.ConstraintFault index x y) := by
  refine .of_check (p.checkable index x y) ?_ ?_ ?_ (fun e => checkable_fault) ?_
  · intro c hc
    obtain ⟨hmem, hcheck⟩ := checkable_eq_ok hc
    have hlt := hok.checks c (List.mem_of_getElem? hmem)
    obtain ⟨p', hrun, -⟩ := onArena_evaluate_spec hok hlt hcheck
    exact ⟨_, p', fulfilled_of_onArena hc hrun⟩
  · intro e he
    rw [fulfilled, Action.inquire_bind_eq, he]
  · simp only [checkable_eq_ok_iff, checkInput_eq_ok_iff, exists_and_right]
    rw [← Option.isSome_iff_exists, isSome_getElem?]
  · intro h
    cases h with
    | input he => exact he.ne_outOfRange rfl

end Program

/-! ## Reachable graphs and programs -/

section Reachable

variable [Scalar α]

/-- **A graph answers evaluations as documented.** -/
structure Graph.AnswersAsDocumented (g : Graph α) : Prop where
  /-- Operands stand before their parent, so the search for the variables below a node is never
  led out of range. -/
  operands : ∀ i, ∀ k ∈ operandsAt g.nodes i, k < i
  evaluate : ∀ id x y,
    (Graph.evaluate id x y).AnsweredWhere g (g.Accepts id x y) (g.EvaluationFault id x y)
  evaluateScalar : ∀ id x y,
    (Graph.evaluateScalar id x y).AnsweredWhere g
      ((∃ n ∈ g.nodes, n.id = id ∧ n.dimension = 1) ∧ g.Accepts id x y) (g.ScalarFault id x y)
  /-- That a node has not one component is reported before anything about the points. -/
  notScalar : ∀ n ∈ g.nodes, n.dimension ≠ 1 → ∀ x y,
    Graph.evaluateScalar n.id x y g = .error (.notScalar n.id n.dimension) g
  /-- Answers have the sizes of their nodes, which never change. -/
  sizes : ∀ id x y v g', Graph.evaluate id x y g = .ok v g' →
    (∃ n ∈ g.nodes, n.id = id ∧ v.length = n.dimension) ∧
      g'.nodes.map Node.dimension = g.nodes.map Node.dimension

/-- **A program answers evaluations as documented.** -/
structure Program.AnswersAsDocumented (p : Program α) : Prop where
  operands : ∀ i, ∀ k ∈ operandsAt p.nodes i, k < i
  /-- What the lengths of points are compared with. -/
  inputs : (∀ n ∈ p.nodes, n.isVariable = true → p.inputDimension = some n.dimension) ∧
    (p.inputDimension = none ↔ ∀ n ∈ p.nodes, n.isVariable = false)
  objective : ∀ x y, (Program.objective x y).AnsweredWhere p (p.Takes x y) (p.InputFault x y)
  evaluate : ∀ id x y,
    (Program.evaluate id x y).AnsweredWhere p ((∃ n ∈ p.nodes, n.id = id) ∧ p.Takes x y)
      (p.EvaluationFault id x y)
  fulfilled : ∀ index x y,
    (Program.fulfilled index x y).AnsweredWhere p (index < p.constraints.length ∧ p.Takes x y)
      (p.ConstraintFault index x y)

theorem ArenaOK.answersAsDocumented {s : Settings} {g : Graph α} (hok : ArenaOK s g.arena) :
    g.AnswersAsDocumented := by
  refine ⟨hok.nodes.operands_lt, Graph.evaluate_answeredWhere hok,
    Graph.evaluateScalar_answeredWhere hok, ?_, ?_⟩
  · intro n hn hdim x y
    refine Graph.evaluateScalar_refused ?_ x y
    rw [Graph.checkScalar_eq hok hn, if_neg hdim]
  · intro id x y v g' h
    exact Graph.evaluate_sizes hok h

theorem ProgramOK.answersAsDocumented {s : Settings} {p : Program α} (hok : ProgramOK s p) :
    p.AnswersAsDocumented where
  operands := hok.nodes.operands_lt
  inputs := ⟨hok.inputs, hok.inputDimension_eq_none_iff⟩
  objective := Program.objective_answeredWhere hok
  evaluate := Program.evaluate_answeredWhere hok
  fulfilled := Program.fulfilled_answeredWhere hok

section Range

variable {b : Builder α} (hb : GraphOK b.nextId b.log b.graph) {a : NodeId} {o : Operand α}
  (ho : b.graph.arena.operand a = .ok o) {start length : Nat}

include hb ho

/-- A range that lies within its vector is evaluated as documented, like everything before it. -/
theorem answersAsDocumented_range (hpos : 0 < length) (hle : start + length ≤ o.node.dimension) :
    (b.append (.range o start length)).graph.AnswersAsDocumented := by
  obtain ⟨hat, hvec⟩ := Graph.operand_spec ho
  have hok : BuilderOK b.nextId b.log b := ⟨hb, le_rfl, List.Subset.refl _⟩
  exact (hok.append (draftOK_range hb.nodes hat hvec hpos hle)).graph.arena.answersAsDocumented

/-- **A range that does not lie within its vector is not answered where it is to be accepted.** -/
theorem not_answered_range (hout : o.node.dimension < start + length) {x y : List α}
    (hxy : (b.append (.range o start length)).graph.Accepts b.next x y) :
    (Graph.evaluate b.next x y).answer (b.append (.range o start length)).graph =
      .error .outOfRange := by
  obtain ⟨i, hi, hlen, hall⟩ := hxy
  -- the handle is new, so the position is the last one
  obtain rfl : i = b.graph.nodes.length := by
    obtain ⟨n, hn, hid⟩ := Option.map_eq_some_iff.1 hi
    rcases getElem?_concat_eq_some_iff.1 hn with hold | ⟨rfl, -⟩
    · have hissued := hb.issued n (List.mem_of_getElem? hold)
      rw [hid] at hissued
      exact absurd hissued (lt_irrefl _)
    · rfl
  refine evaluate_range_outside hb ho hout (fun j n hij hn hv => ?_) hlen
  have hdim := hall j n hij hn hv
  exact ⟨hdim.symm, hlen.symm.trans hdim.symm⟩

end Range

variable [DecidableEq α]

end Reachable

/-- The sum of a variable, compiled with a constraint on itself, and later a variable of another
size. -/
def totalCommands : List (Command ℚ NodeId) :=
  [.newGraph {}, .graph 0 (.build (.taggedVariable 2 .nonneg)), .graph 0 (.build (.sum ⟨1⟩)),
    .graph 0 (.compile .everything ⟨2⟩ [⟨⟨2⟩, .nonNegative⟩]),
    .graph 0 (.build (.taggedVariable 1 .unknown))]

end MixedMonotone
