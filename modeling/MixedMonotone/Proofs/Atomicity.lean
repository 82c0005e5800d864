import Mathlib
import MixedMonotone.Proofs.Handles
import MixedMonotone.Proofs.Histories

/-!
# Refused calls change nothing

A builder call works out the node it would add before it adds it. Only a difference adds two nodes,
and what is checked in front of the first one is all that could stop the second one.

* `Action.Atomic`: a call that leaves the state as it was **if it is refused**.
* `sub_eq`: a difference that passes its check adds the negation and then the sum, and cannot
  fail between the two.
* `Builder.AddsDifference`: what has been added.
* `refused_calls_change_nothing`: every builder call on a reachable graph is atomic, and
  **differences are complete**.
-/

namespace MixedMonotone

/-! ## Atomic calls -/

namespace Action

variable {α σ β γ : Type}

/-- The call **leaves the state as it was if it is refused**. -/
def Atomic (act : Action α σ β) (s : σ) : Prop := ∀ e t, act s = .error e t → t = s

namespace Atomic

variable {act : Action α σ β} {s t : σ}

theorem of_ok {b : β} (h : act s = .ok b t) : act.Atomic s := by
  intro e t' he
  rw [h] at he
  cases he

theorem of_error {e : Error α} (h : act s = .error e s) : act.Atomic s := by
  intro e' t he
  rw [h] at he
  cases he
  rfl

/-- A check in front of a call. -/
theorem inquire_bind {f : σ → Except (Error α) β} {next : β → Action α σ γ}
    (h : ∀ b, f s = .ok b → (next b).Atomic s) : (Action.inquire f >>= next).Atomic s := by
  intro e t he
  rw [inquire_bind_eq] at he
  cases hf : f s with
  | error e' =>
    rw [hf] at he
    cases he
    rfl
  | ok b =>
    rw [hf] at he
    exact h b hf e t he

/-- An answer put into another form. -/
theorem map (h : act.Atomic s) (f : β → γ) :
    (do return f (← act) : Action α σ γ).Atomic s := by
  cases hact : act s with
  | ok b t => exact of_ok (bind_of_ok hact)
  | error e t =>
    obtain rfl := h e t hact
    exact of_error (bind_of_error hact)

end Atomic

end Action

variable {α : Type}

/-- What is worked out first and added then. -/
theorem atomic_place (draft : Graph α → Except (Error α) (Draft α)) (b : Builder α) :
    (Build.place draft).Atomic b := by
  cases hd : draft b.graph with
  | ok d => exact .of_ok (b := b.next) (t := b.append d) (by rw [Build.place, hd])
  | error e => exact .of_error (e := e) (by rw [Build.place, hd])

/-- The site does not decide whether sizes fit. -/
theorem broadcast_site {site site' : Site} {l r d : Nat} (h : broadcast (α := α) site l r = .ok d) :
    broadcast (α := α) site' l r = .ok d := by
  unfold broadcast at h ⊢
  by_cases hleft : l = r ∨ r = 1
  · rwa [if_pos hleft] at h ⊢
  · rw [if_neg hleft] at h ⊢
    by_cases hright : l = 1
    · rwa [if_pos hright] at h ⊢
    · rw [if_neg hright] at h
      cases h

theorem Graph.checkDifference_eq_ok {g : Graph α} {x y : NodeId}
    (h : g.checkDifference x y = .ok ()) :
    ∃ l r d, g.arena.operand x = .ok l ∧ g.arena.operand y = .ok r ∧
      broadcast (α := α) .difference l.node.dimension r.node.dimension = .ok d := by
  obtain ⟨l, hl, h⟩ := bind_eq_ok.1 h
  obtain ⟨r, hr, h⟩ := bind_eq_ok.1 h
  obtain ⟨d, hd, -⟩ := bind_eq_ok.1 h
  exact ⟨l, r, d, hl, hr, hd⟩

variable [Scalar α]

section Constants

variable [DecidableEq α]

theorem atomic_constant (values : List α) (b : Builder α) : (Build.constant values).Atomic b := by
  cases hid : b.graph.interned? values with
  | some id => exact .of_ok (b := id) (t := b) (by rw [Build.constant, hid])
  | none =>
    intro e b' h
    rw [Build.constant, hid] at h
    cases h

theorem atomic_parameter (values : List α) (b : Builder α) : (Build.parameter values).Atomic b := by
  unfold Build.parameter
  split
  · exact .of_error rfl
  · exact atomic_constant values b

end Constants

/-! ## Differences -/

/-- The negation of an operand. -/
def Draft.negation (o : Operand α) : Draft α :=
  .function .neg (.single .swapped) [o] o.node.dimension o.node.tag.negate

/-- The sum of two operands. -/
def Draft.sum (l r : Operand α) (dimension : Nat) : Draft α :=
  .function (.arith .add) (.binary (.direct .own .own)) [l, r] dimension (l.node.tag.add r.node.tag)

/-- The node that a draft becomes, as an operand of the nodes to come. -/
def Builder.operandOf (b : Builder α) (d : Draft α) : Operand α :=
  ⟨b.graph.nodes.length, b.nodeOf d⟩

/-- The builder with the difference of two operands added: **first the negation, then the sum**. -/
def Builder.appendDifference (b : Builder α) (l r : Operand α) (dimension : Nat) : Builder α :=
  (b.append (.negation r)).append (.sum l (b.operandOf (.negation r)) dimension)

/-- The negation that a difference adds. -/
def Builder.negationOf (b : Builder α) (r : Operand α) : Node α := b.nodeOf (.negation r)

/-- The sum that a difference adds. -/
def Builder.sumOf (b : Builder α) (l r : Operand α) (dimension : Nat) : Node α :=
  (b.append (.negation r)).nodeOf (.sum l (b.operandOf (.negation r)) dimension)

theorem nodes_appendDifference (b : Builder α) (l r : Operand α) (d : Nat) :
    (b.appendDifference l r d).graph.nodes = b.graph.nodes ++ [b.negationOf r, b.sumOf l r d] :=
  List.append_assoc ..

/-- A constraint asks for its difference once the sizes are known to be the same. -/
theorem slack_eq_ok {lhs rhs id : NodeId} {b' : Builder α} (h : Build.slack lhs rhs b = .ok id b') :
    b.graph.checkSameSize lhs rhs = .ok () ∧ Build.sub rhs lhs b = .ok id b' := by
  cases hcheck : b.graph.checkSameSize lhs rhs with
  | error e =>
    rw [Build.slack, Action.inquire_bind_eq, hcheck] at h
    cases h
  | ok u =>
    rw [Build.slack, Action.inquire_bind_eq, hcheck] at h
    exact ⟨rfl, h⟩

section Reachable

variable {b : Builder α} (hb : GraphOK b.nextId b.log b.graph)

include hb

/-- An operand that is found is found after a node has been added. -/
theorem operand_append {d : Draft α} (hd : DraftOK b.graph.settings b.graph.nodes d) {id : NodeId}
    {o : Operand α} (ho : b.graph.arena.operand id = .ok o) :
    (b.append d).graph.arena.operand id = .ok o := by
  have hpushed : ArenaOK b.graph.settings (b.append d).graph.arena :=
    hb.arena.push (hd.node b.next) hb.issued
  obtain ⟨hat, hid, hmatrix⟩ := hb.arena.operand_eq_ok_iff.1 ho
  exact hpushed.operand_eq_ok_iff.2 ⟨getElem?_append_of_eq_some hat _, hid, hmatrix⟩

/-- The node that has just been added is found. -/
theorem operand_next {d : Draft α} (hd : DraftOK b.graph.settings b.graph.nodes d)
    (hmatrix : d.kind.matrix? = none) :
    (b.append d).graph.arena.operand b.next = .ok (b.operandOf d) := by
  have hpushed : ArenaOK b.graph.settings (b.append d).graph.arena :=
    hb.arena.push (hd.node b.next) hb.issued
  have hat : (b.operandOf d).IsAt (b.append d).graph.nodes := b.getElem?_append d
  refine hpushed.operand_eq_ok_iff.2 ⟨hat, rfl, ?_⟩
  simp [Builder.operandOf, Builder.nodeOf, Node.isMatrix, Node.matrix?, hmatrix]

theorem draftOK_negation {y : NodeId} {r : Operand α} (hr : b.graph.arena.operand y = .ok r) :
    DraftOK b.graph.settings b.graph.nodes (.negation r) := by
  have hfits : FitsGraph (Graph.draftUnary (α := α) .neg .swapped Tag.negate y) :=
    Graph.fits_draftUnary y (by simp) fun _ _ => .neg
  exact hfits b.graph _ hb.nodes (bind_eq_ok.2 ⟨r, hr, rfl⟩)

/-- **A difference that passes its check adds both nodes.** The negation has the size of the
subtrahend, so the sizes that fitted before fit the sum. -/
theorem sub_eq {x y : NodeId} {l r : Operand α} {d : Nat} (hl : b.graph.arena.operand x = .ok l)
    (hr : b.graph.arena.operand y = .ok r)
    (hd : broadcast (α := α) .difference l.node.dimension r.node.dimension = .ok d) :
    Build.sub x y b = .ok ⟨b.nextId + 1⟩ (b.appendDifference l r d) := by
  have hnegation := draftOK_negation hb hr
  have hcheck : b.graph.checkDifference x y = .ok () :=
    bind_eq_ok.2 ⟨l, hl, bind_eq_ok.2 ⟨r, hr, bind_eq_ok.2 ⟨d, hd, rfl⟩⟩⟩
  have hneg : Build.neg y b = .ok b.next (b.append (.negation r)) := by
    have hdraft : Graph.draftUnary .neg .swapped Tag.negate y b.graph = .ok (.negation r) :=
      bind_eq_ok.2 ⟨r, hr, rfl⟩
    rw [Build.neg, Build.place, hdraft]
  have hadd : Build.add x b.next (b.append (.negation r)) = .ok ⟨b.nextId + 1⟩
      (b.appendDifference l r d) := by
    have hsize : (b.operandOf (.negation r)).node.dimension = r.node.dimension :=
      List.length_replicate
    have hdraft : Graph.draftArith .add x b.next (b.append (.negation r)).graph =
        .ok (.sum l (b.operandOf (.negation r)) d) :=
      bind_eq_ok.2 ⟨l, operand_append hb hnegation hl,
        bind_eq_ok.2 ⟨_, operand_next hb hnegation rfl,
          bind_eq_ok.2 ⟨d, hsize ▸ broadcast_site hd, rfl⟩⟩⟩
    rw [Build.add, Build.place, hdraft]
    rfl
  rw [Build.sub, Action.inquire_bind_eq, hcheck]
  dsimp only
  rw [Action.bind_of_ok hneg, hadd]

/-- A difference is answered after its check only. -/
theorem sub_eq_ok {x y id : NodeId} {b' : Builder α} (h : Build.sub x y b = .ok id b') :
    ∃ l r d, b.graph.arena.operand x = .ok l ∧ b.graph.arena.operand y = .ok r ∧
      Broadcasts l.node.dimension r.node.dimension d ∧ id = ⟨b.nextId + 1⟩ ∧
      b' = b.appendDifference l r d := by
  cases hcheck : b.graph.checkDifference x y with
  | error e =>
    rw [Build.sub, Action.inquire_bind_eq, hcheck] at h
    cases h
  | ok u =>
    obtain ⟨l, r, d, hl, hr, hd⟩ := Graph.checkDifference_eq_ok hcheck
    rw [sub_eq hb hl hr hd] at h
    cases h
    exact ⟨l, r, d, hl, hr, broadcast_eq_ok hd, rfl, rfl⟩

theorem atomic_sub (x y : NodeId) : (Build.sub x y).Atomic b := by
  cases hcheck : b.graph.checkDifference x y with
  | error e =>
    refine .of_error (e := e) ?_
    rw [Build.sub, Action.inquire_bind_eq, hcheck]
  | ok u =>
    obtain ⟨l, r, d, hl, hr, hd⟩ := Graph.checkDifference_eq_ok hcheck
    exact .of_ok (sub_eq hb hl hr hd)

/-- The difference of a constraint. -/
theorem atomic_slack (lhs rhs : NodeId) : (Build.slack lhs rhs).Atomic b :=
  .inquire_bind fun _ _ => atomic_sub hb rhs lhs

/-- Nodes of one size can be put into a constraint. -/
theorem slack_eq {lhs rhs : NodeId} {l r : Operand α}
    (hl : b.graph.arena.operand lhs = .ok l) (hr : b.graph.arena.operand rhs = .ok r)
    (hsize : l.node.dimension = r.node.dimension) :
    Build.slack lhs rhs b = .ok ⟨b.nextId + 1⟩ (b.appendDifference r l r.node.dimension) := by
  have hsame : b.graph.checkSameSize lhs rhs = .ok () := by
    obtain ⟨hlfind, -⟩ := Arena.operand_eq_ok hl
    obtain ⟨hrfind, -⟩ := Arena.operand_eq_ok hr
    refine bind_eq_ok.2 ⟨l.node, bind_eq_ok.2 ⟨l, hlfind, rfl⟩, bind_eq_ok.2 ⟨r.node,
      bind_eq_ok.2 ⟨r, hrfind, rfl⟩, ?_⟩⟩
    rw [if_pos hsize]
  have hbroadcast : broadcast (α := α) .difference r.node.dimension l.node.dimension =
      .ok r.node.dimension := if_pos (.inl hsize.symm)
  rw [Build.slack, Action.inquire_bind_eq, hsame]
  dsimp only
  rw [sub_eq hb hr hl hbroadcast]

/-- **Every builder call is atomic.** -/
theorem atomic_call [DecidableEq α] (c : Call α NodeId) : c.run.Atomic b := by
  cases c with
  | parameter values => exact atomic_parameter values b
  | scalar v => exact atomic_constant [v] b
  | ones dimension => exact atomic_parameter _ b
  | sub x y => exact atomic_sub hb x y
  | taggedVariable | boundedVariable | declare => exact atomic_place (fun _ => _) b
  | matrixParameter m => exact atomic_place (fun g => .ok (g.draftMatrix m)) b
  | _ => exact atomic_place _ b

end Reachable

/-! ## What a difference has added -/

/-- The report of a node's creation. -/
def Node.creation (n : Node α) : Event := .nodeCreated n.id n.name n.dimension n.tag

/-- **Exactly two nodes have been added**, the negation of the subtrahend and then the sum, under
the next two handles. -/
structure Builder.AddsDifference (b : Builder α) (minuend subtrahend : NodeId)
    (negation sum : Node α) (b' : Builder α) : Prop where
  nodes : b'.graph.nodes = b.graph.nodes ++ [negation, sum]
  handles : negation.id = ⟨b.nextId⟩ ∧ sum.id = ⟨b.nextId + 1⟩ ∧ b'.nextId = b.nextId + 2
  negates : ∃ f, negation.kind = .function f ∧ f.op = .neg ∧
    operandIds b'.graph.nodes negation = [subtrahend]
  adds : ∃ f, sum.kind = .function f ∧ f.op = .arith .add ∧
    operandIds b'.graph.nodes sum = [minuend, negation.id]
  table : b'.graph.arena.positions = (sum.id, b.graph.nodes.length + 1) ::
    (negation.id, b.graph.nodes.length) :: b.graph.arena.positions
  log : b'.log = b.log ++ [negation.creation, sum.creation]
  shared : b'.graph.interned = b.graph.interned
  settings : b'.graph.settings = b.graph.settings

/-- A difference that was answered has added just these two. -/
theorem addsDifference_of_sub {b b' : Builder α} (hb : GraphOK b.nextId b.log b.graph)
    {x y id : NodeId} (h : Build.sub x y b = .ok id b') :
    ∃ negation sum : Node α, id = sum.id ∧ b.AddsDifference x y negation sum b' := by
  obtain ⟨l, r, d, hl, hr, -, rfl, rfl⟩ := sub_eq_ok hb h
  obtain ⟨hlat, rfl, -⟩ := hb.arena.operand_eq_ok_iff.1 hl
  obtain ⟨hrat, rfl, -⟩ := hb.arena.operand_eq_ok_iff.1 hr
  have hnodes := nodes_appendDifference b l r d
  refine ⟨b.negationOf r, b.sumOf l r d, rfl, hnodes, ⟨rfl, rfl, rfl⟩, ⟨_, rfl, rfl, ?_⟩,
    ⟨_, rfl, rfl, ?_⟩, ?_, ?_, rfl, rfl⟩
  · have hops : (b.negationOf r).operands = [r.position] := rfl
    have hstays : (b.graph.nodes ++ [b.negationOf r, b.sumOf l r d])[r.position]? = some r.node :=
      getElem?_append_of_eq_some hrat _
    rw [operandIds, hnodes, hops]
    simp [hstays]
  · have hops : (b.sumOf l r d).operands = [l.position, b.graph.nodes.length] := rfl
    have hstays : (b.graph.nodes ++ [b.negationOf r, b.sumOf l r d])[l.position]? = some l.node :=
      getElem?_append_of_eq_some hlat _
    rw [operandIds, hnodes, hops]
    simp [hstays]
  · have hlength : (b.append (.negation r)).graph.arena.nodes.length = b.graph.nodes.length + 1 :=
      List.length_append
    change ((b.sumOf l r d).id, (b.append (.negation r)).graph.arena.nodes.length) :: _ = _
    rw [hlength]
    rfl
  · simp [Builder.appendDifference, Builder.append, Draft.negation, Draft.sum, Draft.function,
      Node.creation, Builder.negationOf, Builder.sumOf, Builder.nodeOf]

/-! ## Reachable graphs -/

/-- A graph with the counter and the reports that its session shares among all graphs. -/
def Session.builder? (s : Session α) (g : Nat) : Option (Builder α) :=
  (s.graph? g).map fun graph => ⟨graph, s.nextId, s.log⟩

variable [DecidableEq α]

theorem builderOK_runAll {commands : List (Command α NodeId)} {g : Nat} {b : Builder α}
    (hb : (Session.runAll commands {}).builder? g = some b) : GraphOK b.nextId b.log b.graph := by
  obtain ⟨G, hG, rfl⟩ := Option.map_eq_some_iff.1 hb
  exact graphOK_runAll hG

/-- **Refused builder calls change nothing, and differences are complete.** Let any commands have
been carried out before. A builder call on any graph, with any arguments, that is refused leaves the
graph with its table of positions and its table of shared constants, the next handle and the reports
as they were. A difference that is answered, and so a constraint between two nodes, has added the
negation of what is subtracted and then the sum, and nothing else. -/
theorem refused_calls_change_nothing (commands : List (Command α NodeId)) {g : Nat} {b : Builder α}
    (hb : (Session.runAll commands {}).builder? g = some b) :
    ((∀ (c : Call α NodeId) e b', c.run b = .error e b' → b' = b) ∧
      ∀ lhs rhs e b', Build.atLeast lhs rhs b = .error e b' ∨ Build.atMost lhs rhs b = .error e b' →
        b' = b) ∧
    (∀ x y id b', Build.sub x y b = .ok id b' →
      ∃ negation sum : Node α, id = sum.id ∧ b.AddsDifference x y negation sum b') ∧
    ∀ lhs rhs c b', Build.atLeast lhs rhs b = .ok c b' ∨ Build.atMost lhs rhs b = .ok c b' →
      ∃ negation sum : Node α, c.node = sum.id ∧ b.AddsDifference rhs lhs negation sum b' := by
  have hok := builderOK_runAll hb
  refine ⟨⟨fun c => atomic_call hok c, ?_⟩, fun x y id b' h => addsDifference_of_sub hok h, ?_⟩
  · rintro lhs rhs e b' (h | h)
    · exact (atomic_slack hok lhs rhs).map _ e b' h
    · exact (atomic_slack hok lhs rhs).map _ e b' h
  · intro lhs rhs c b' h
    have hslack : Build.slack lhs rhs b = .ok c.node b' := by
      cases hs : Build.slack lhs rhs b with
      | ok id t =>
        unfold Build.atLeast Build.atMost at h
        rw [Action.bind_of_ok hs, Action.bind_of_ok hs] at h
        rcases h with h | h <;> cases h <;> rfl
      | error e t =>
        unfold Build.atLeast Build.atMost at h
        rw [Action.bind_of_error hs, Action.bind_of_error hs] at h
        rcases h with h | h <;> cases h
    exact addsDifference_of_sub hok (slack_eq_ok hslack).2

/-- A variable with three components, a number and a pair; a variable of another graph. -/
def unevenCommands : List (Command ℚ NodeId) :=
  [.newGraph {}, .graph 0 (.build (.taggedVariable 3 .unknown)), .graph 0 (.build (.scalar 2)),
    .graph 0 (.build (.parameter [1, -1])), .newGraph {},
    .graph 1 (.build (.taggedVariable 3 .nonneg))]

/-- A difference of uneven sizes and one with a handle of the other graph are refused and leave no
negation behind; that of the variable and the number adds two nodes. -/
theorem refused_calls_change_nothing_uneven :
    ∃ b : Builder ℚ, (Session.runAll unevenCommands {}).builder? 0 = some b ∧
      Build.sub ⟨1⟩ ⟨3⟩ b = .error (.dimensionMismatch .difference (.size 3) (.size 2)) b ∧
      Build.atMost ⟨1⟩ ⟨4⟩ b = .error (.unknownNode ⟨4⟩) b ∧
      ∃ b' negation sum, Build.sub ⟨1⟩ ⟨2⟩ b = .ok ⟨6⟩ b' ∧
        b.AddsDifference ⟨1⟩ ⟨2⟩ negation sum b' := by
  obtain ⟨b, hb, huneven, hforeign, hanswered⟩ : ∃ b : Builder ℚ,
      (Session.runAll unevenCommands {}).builder? 0 = some b ∧
        (Build.sub ⟨1⟩ ⟨3⟩).answer b = .error (.dimensionMismatch .difference (.size 3) (.size 2)) ∧
        (Build.atMost ⟨1⟩ ⟨4⟩).answer b = .error (.unknownNode ⟨4⟩) ∧
        (Build.sub ⟨1⟩ ⟨2⟩).answer b = .ok ⟨6⟩ :=
    ⟨((Session.runAll unevenCommands {}).builder? 0).getD ⟨{}, 0, []⟩, by decide +kernel⟩
  obtain ⟨⟨hcalls, hconstraints⟩, hdifferences, -⟩ := refused_calls_change_nothing unevenCommands hb
  obtain ⟨b₁, huneven⟩ := Action.answer_eq_error.1 huneven
  obtain rfl : b₁ = b := hcalls (.sub ⟨1⟩ ⟨3⟩) _ _ huneven
  obtain ⟨b₂, hforeign⟩ := Action.answer_eq_error.1 hforeign
  obtain rfl := hconstraints _ _ _ _ (.inr hforeign)
  obtain ⟨b', hanswered⟩ := Action.answer_eq_ok.1 hanswered
  obtain ⟨negation, sum, -, hadds⟩ := hdifferences _ _ _ _ hanswered
  exact ⟨b₂, hb, huneven, hforeign, b', negation, sum, hanswered, hadds⟩

end MixedMonotone
