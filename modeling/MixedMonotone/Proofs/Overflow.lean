import Mathlib
import MixedMonotone.Proofs.Atomicity

/-!
# Ranges that end beyond a machine word

The end of a range is computed from two numbers that the caller gives. Where no word holds it,
checked arithmetic stops the call. Wrapping arithmetic goes on with what a word is left with, and
may so accept a range that **does not lie within the vector**.

* `Arithmetic.Exact`: a size is computed as it is, or not at all; `Command.Exact`: so are the ends
  of all ranges that a command asks for.
* `Session.RunsExactly`: all commands that a run answers are of this kind;
  `Session.runAllWith_eq_runAll`: **then the arithmetic makes no difference** to it.
* `slice_eq_ok_iff`: which ranges are accepted, and what is added for one;
  `operand_range`: it is found.
* `evaluate_range_outside`: a range that does not lie within the vector is **never answered**.
-/

namespace MixedMonotone

variable {α ρ : Type}

/-! ## Exact sizes -/

/-- The size is **computed as it is, or not at all**. -/
def Arithmetic.Exact (arithmetic : Arithmetic) (n : Nat) : Prop :=
  arithmetic = .checked ∨ n < wordSize

instance (arithmetic : Arithmetic) (n : Nat) : Decidable (arithmetic.Exact n) :=
  inferInstanceAs (Decidable (_ ∨ _))

/-- The ends of the ranges that a call asks for. -/
def Call.rangeEnds : Call α ρ → List Nat
  | slice _ start length => [start + length]
  | component _ i => [i + 1]
  | _ => []

/-- The ends of the ranges that a command asks for. -/
def Command.rangeEnds : Command α ρ → List Nat
  | graph _ (.build call) => call.rangeEnds
  | _ => []

/-- The ends of all ranges that the command asks for are **computed as they are, or not at all**. -/
def Command.Exact (arithmetic : Arithmetic) (c : Command α ρ) : Prop :=
  ∀ n ∈ c.rangeEnds, arithmetic.Exact n

instance (arithmetic : Arithmetic) (c : Command α ρ) : Decidable (c.Exact arithmetic) :=
  inferInstanceAs (Decidable (∀ n ∈ c.rangeEnds, arithmetic.Exact n))

theorem Arithmetic.Exact.word_eq {arithmetic : Arithmetic} {n : Nat} (h : arithmetic.Exact n) :
    arithmetic.word n = Arithmetic.checked.word n := by
  rcases h with rfl | h
  · rfl
  · rw [word_of_lt h, word_of_lt h]

theorem Arithmetic.Exact.mono {arithmetic : Arithmetic} {m n : Nat} (h : arithmetic.Exact n)
    (hmn : m ≤ n) : arithmetic.Exact m := by
  rcases h with h | h
  · exact .inl h
  · exact .inr (lt_of_le_of_lt hmn h)

/-! ## Accepted ranges -/

section Accepted

variable [Scalar α]

/-- The `length` components of an operand from `start` on. -/
def Draft.range (o : Operand α) (start length : Nat) : Draft α :=
  .function (.slice start) (.single .own) [o] length o.node.tag

theorem draftOK_range {s : Settings} {nodes : List (Node α)} (hok : NodesOK s nodes) {o : Operand α}
    (hat : o.IsAt nodes) (hvec : o.node.signature.IsVector) {start length : Nat} (hpos : 0 < length)
    (hle : start + length ≤ o.node.dimension) : DraftOK s nodes (.range o start length) :=
  draftOK_silent hok (by simp [hat]) (.slice hvec hpos hle) (by simp)

/-- **A range is accepted if it passes its check**, and what is added is the range as
it was asked for. -/
theorem slice_eq_ok_iff {b b' : Builder α} {a id : NodeId} {start length : Nat}
    {arithmetic : Arithmetic} : Build.slice a start length arithmetic b = .ok id b' ↔
      ∃ o, b.graph.arena.operand a = .ok o ∧
        checkRange (α := α) start length o.node.dimension arithmetic = .ok () ∧
        b.next = id ∧ b.append (.range o start length) = b' := by
  have hdraft : ∀ d, Graph.draftSlice a start length arithmetic b.graph = .ok d ↔
      ∃ o, b.graph.arena.operand a = .ok o ∧
        checkRange (α := α) start length o.node.dimension arithmetic = .ok () ∧
        .range o start length = d := by
    intro d
    unfold Graph.draftSlice
    simp only [bind_eq_ok]
    constructor
    · rintro ⟨o, ho, ⟨⟩, hrange, hd⟩
      exact ⟨o, ho, hrange, Except.ok.inj hd⟩
    · rintro ⟨o, ho, hrange, rfl⟩
      exact ⟨o, ho, (), hrange, rfl⟩
  unfold Build.slice Build.place
  cases hd : Graph.draftSlice a start length arithmetic b.graph with
  | ok d =>
    obtain ⟨o, ho, hrange, rfl⟩ := (hdraft d).1 hd
    simp [ho, hrange]
  | error e =>
    simp only [reduceCtorEq, false_iff]
    rintro ⟨o, ho, hrange, -⟩
    rw [(hdraft _).2 ⟨o, ho, hrange, rfl⟩] at hd
    cases hd

/-- An added range is found under the next handle. -/
theorem operand_range (b : Builder α) (o : Operand α) (start length : Nat) :
    (b.append (.range o start length)).graph.arena.operand b.next =
      .ok ⟨b.graph.nodes.length, b.nodeOf (.range o start length)⟩ := by
  rw [Arena.operand, b.find_append]
  rfl

end Accepted

/-! ## The arithmetic makes no difference -/

/-- A builder call on one graph, as a command. -/
def Session.building (g : Nat) (act : Build α NodeId) : Action α (Session α) (Reply α) := do
  return .node (← onBuilder g act)

section Building

variable {s : Session α} {g : Nat} {act : Build α NodeId}

theorem Session.isOk_building :
    ((building g act).answer s).isOk = ((onBuilder g act).answer s).isOk := by
  rw [building, Action.answer_bind]
  cases (onBuilder g act).answer s <;> rfl

/-- A call that changes nothing where it is refused leaves the session as it was. -/
theorem Session.after_building_of_refused (hact : ∀ b, act.Atomic b)
    (h : ((building g act).answer s).isOk = false) : (building g act).after s = s := by
  have hafter : (building g act).after s = (onBuilder g act).after s := by
    rw [building, Action.after_bind]
    cases (onBuilder g act).answer s <;> rfl
  rw [isOk_building] at h
  rw [hafter]
  refine onModel_after (I := (· = s)) rfl fun m hm => ?_
  rw [onBuilder, answer_onModel_eq hm, Action.answer_focus] at h
  cases hanswer : act.answer ⟨m.graph, s.nextId, s.log⟩ with
  | ok id => simp [hanswer, Except.isOk, Except.toBool] at h
  | error e =>
    obtain ⟨b, hrun⟩ := Action.answer_eq_error.1 hanswer
    rw [Action.after_focus, Action.after, hrun, hact _ e b hrun]
    simp only [putModel, set_of_getElem? hm]

end Building

section Agreement

variable {arithmetic : Arithmetic}

theorem checkRange_eq_checked {start length : Nat} (h : arithmetic.Exact (start + length))
    (d : Nat) :
    checkRange (α := α) start length d arithmetic = checkRange start length d .checked := by
  unfold checkRange
  rw [h.word_eq]

variable [Scalar α]

theorem Build.slice_eq_checked {start length : Nat} (h : arithmetic.Exact (start + length))
    (a : NodeId) :
    Build.slice (α := α) a start length arithmetic = Build.slice a start length .checked := by
  unfold slice Graph.draftSlice
  simp only [checkRange_eq_checked h]

theorem Build.atomic_slice (a : NodeId) (start length : Nat) (b : Builder α) :
    (Build.slice a start length arithmetic).Atomic b := atomic_place _ b

/-- In checked arithmetic a range whose end no word holds is refused. -/
theorem Session.isOk_building_checked {s : Session α} {g : Nat} {a : NodeId} {start length : Nat}
    (hword : wordSize ≤ start + length) :
    ((building g (Build.slice (α := α) a start length .checked)).answer s).isOk = false := by
  rw [isOk_building]
  cases h : (onBuilder g (Build.slice a start length .checked)).answer s with
  | error e => rfl
  | ok id =>
    obtain ⟨m, -, hanswer⟩ := answer_onModel h
    rw [Action.answer_focus] at hanswer
    obtain ⟨b, hrun⟩ := Action.answer_eq_ok.1 hanswer
    obtain ⟨o, -, hrange, -, -⟩ := slice_eq_ok_iff.1 hrun
    obtain ⟨-, -, hlt⟩ := checkRange_checked.1 hrange
    omega

section Run

variable [DecidableEq α]

theorem Call.runWith_eq_run {c : Call α NodeId} (h : ∀ n ∈ c.rangeEnds, arithmetic.Exact n) :
    c.runWith arithmetic = c.run := by
  cases c with
  | slice a start length => exact Build.slice_eq_checked (h _ (List.mem_singleton_self _)) a
  | component a i => exact Build.slice_eq_checked (h _ (List.mem_singleton_self _)) a
  | _ => rfl

/-- A call that is not exact asks for a range whose end no word holds. -/
theorem Call.exists_slice {c : Call α NodeId} (h : ¬ ∀ n ∈ c.rangeEnds, arithmetic.Exact n) :
    ∃ a start length, wordSize ≤ start + length ∧
      c.runWith arithmetic = Build.slice a start length arithmetic ∧
      c.run = Build.slice a start length .checked := by
  have hword : ∀ n, ¬ arithmetic.Exact n → wordSize ≤ n :=
    fun n hn => not_lt.1 fun hlt => hn (.inr hlt)
  cases c with
  | slice a start length =>
    exact ⟨a, start, length, hword _ (by simpa [rangeEnds] using h), rfl, rfl⟩
  | component a i => exact ⟨a, i, 1, hword _ (by simpa [rangeEnds] using h), rfl, rfl⟩
  | _ => simp [rangeEnds] at h

namespace Session

theorem runWith_eq_run {c : Command α NodeId} (h : c.Exact arithmetic) :
    runWith arithmetic c = run c := by
  cases c with
  | graph g c =>
    cases c with
    | build call => exact congrArg (building g) (Call.runWith_eq_run h)
    | _ => rfl
  | _ => rfl

theorem exists_building {c : Command α NodeId} (h : ¬ c.Exact arithmetic) :
    ∃ g a start length, wordSize ≤ start + length ∧
      runWith arithmetic c = building g (Build.slice a start length arithmetic) ∧
      run c = building g (Build.slice a start length .checked) := by
  cases c with
  | graph g c =>
    cases c with
    | build call =>
      obtain ⟨a, start, length, hword, hwith, hrun⟩ := Call.exists_slice h
      exact ⟨g, a, start, length, hword, congrArg (building g) hwith, congrArg (building g) hrun⟩
    | _ => simp [Command.Exact, Command.rangeEnds] at h
  | _ => simp [Command.Exact, Command.rangeEnds] at h

/-- Where no command is answered whose ends are not exact, **both arithmetics leave the same
session**. -/
theorem after_runWith_eq_run {c : Command α NodeId} {s : Session α}
    (h : ((runWith arithmetic c).answer s).isOk = true → c.Exact arithmetic) :
    (runWith arithmetic c).after s = (run c).after s := by
  by_cases hexact : c.Exact arithmetic
  · rw [runWith_eq_run hexact]
  -- both arithmetics refuse the range
  · have hrefused : ((runWith arithmetic c).answer s).isOk = false := by
      simpa using fun hok => hexact (h hok)
    obtain ⟨g, a, start, length, hword, hwith, hrun⟩ := exists_building hexact
    rw [hwith] at hrefused ⊢
    rw [hrun, after_building_of_refused (Build.atomic_slice a start length) hrefused,
      after_building_of_refused (Build.atomic_slice a start length) (isOk_building_checked hword)]

/-- **Whatever the run answers has exact ends**: a command that asks for a range with
another end is refused. -/
def RunsExactly (arithmetic : Arithmetic) : List (Command α NodeId) → Session α → Prop
  | [], _ => True
  | c :: commands, s =>
    (((runWith arithmetic c).answer s).isOk = true → c.Exact arithmetic) ∧
      RunsExactly arithmetic commands ((runWith arithmetic c).after s)

instance decidableRunsExactly (arithmetic : Arithmetic) :
    (commands : List (Command α NodeId)) → (s : Session α) →
    Decidable (RunsExactly arithmetic commands s)
  | [], _ => isTrue trivial
  | _ :: commands, _ => @instDecidableAnd _ _ _ (decidableRunsExactly arithmetic commands _)

/-- In checked arithmetic every run is of this kind. -/
theorem runsExactly_checked (commands : List (Command α NodeId)) (s : Session α) :
    RunsExactly .checked commands s := by
  induction commands generalizing s with
  | nil => trivial
  | cons c commands ih => exact ⟨fun _ _ _ => .inl rfl, ih _⟩

/-- **The arithmetic makes no difference to a run** whose answers have exact ends. -/
theorem runAllWith_eq_runAll {commands : List (Command α NodeId)} {s : Session α}
    (h : RunsExactly arithmetic commands s) :
    runAllWith arithmetic commands s = runAll commands s := by
  induction commands generalizing s with
  | nil => rfl
  | cons c commands ih =>
    obtain ⟨hc, hcommands⟩ := h
    unfold runAllWith runAll at ih ⊢
    rw [List.foldl_cons, List.foldl_cons, ← after_runWith_eq_run hc, ih hcommands]

end Session

end Run

end Agreement

/-! ## Evaluating a range -/

/-- A pass stores values of the size that there is room for. -/
theorem haveSizes_of_runPass {below : Nat → Evaluation α} {points : Points α}
    {before after : List (Node α)} {scratch scratch' : List (OperandValues α)} {q : Pass}
    {σs : List (Signature α)} (hsizes : HaveSizes scratch σs)
    (h : runPass below points (before, scratch) q = some (after, scratch')) :
    HaveSizes scratch' σs := by
  obtain ⟨m, -, h⟩ := Option.bind_eq_some_iff.1 h
  split at h
  · obtain ⟨-, rfl⟩ := Prod.mk.inj (Option.some.inj h)
    exact hsizes
  · obtain ⟨nodes, -, h⟩ := Option.bind_eq_some_iff.1 h
    obtain ⟨o, -, h⟩ := Option.bind_eq_some_iff.1 h
    obtain ⟨stored, hstore, h⟩ := Option.bind_eq_some_iff.1 h
    obtain ⟨-, rfl⟩ := Prod.mk.inj (Option.some.inj h)
    obtain ⟨v, hv, hstore⟩ := Option.bind_eq_some_iff.1 hstore
    split at hstore
    · rename_i hlen
      obtain rfl := Option.some.inj hstore
      refine forall₂_set hsizes fun σ hσ => ?_
      obtain ⟨w, hw, hhas⟩ := forall₂_getElem?_right hsizes hσ
      obtain rfl := Option.some.inj (hv.symm.trans hw)
      exact hhas.set q.route (hlen.symm.trans (hhas.length_get q.route))
    · cases hstore

theorem haveSizes_of_runPasses {below : Nat → Evaluation α} {points : Points α} {passes : List Pass}
    {σs : List (Signature α)} :
    ∀ {before after : List (Node α)} {scratch scratch' : List (OperandValues α)},
      HaveSizes scratch σs →
      passes.foldlM (runPass below points) (before, scratch) = some (after, scratch') →
        HaveSizes scratch' σs := by
  induction passes with
  | nil =>
    intro before after scratch scratch' hsizes h
    obtain ⟨-, rfl⟩ := Prod.mk.inj (Option.some.inj h)
    exact hsizes
  | cons q passes ih =>
    intro before after scratch scratch' hsizes h
    rw [List.foldlM_cons] at h
    obtain ⟨⟨nodes, stored⟩, hpass, h⟩ := Option.bind_eq_some_iff.1 h
    exact ih (haveSizes_of_runPass hsizes hpass) h

variable [Scalar α]

/-- **A range that does not lie within its operand has no value**, whatever the nodes below it
are. -/
theorem evaluateNode_range_outside {below : Nat → Evaluation α} {i : Nat} {points : Points α}
    {nodes : List (Node α)} {n : Node α} {f : Application α} (hn : nodes[i]? = some n)
    (hf : n.kind = .function f) {start : Nat} (hop : f.op = .slice start) {σ : Signature α}
    (hsizes : HaveSizes f.scratch [σ]) (hout : σ.dimension < start + n.dimension) :
    evaluateNode below i points nodes = none := by
  cases hpasses : f.passes.foldlM (runPass below points) (nodes, f.scratch) with
  | none => simp [evaluateNode, hn, hf, hpasses]
  | some result =>
    obtain ⟨after, scratch⟩ := result
    obtain ⟨v, hv, rfl⟩ := forall₂_single (haveSizes_of_runPasses hsizes hpasses)
    have hlen : ¬ start + n.dimension ≤ (v.get f.plan.route).length := by
      rw [hv.length_get]
      omega
    simp [evaluateNode, hn, hf, hpasses, hop, Op.combine, hlen]

section Outside

variable {b : Builder α} (hb : GraphOK b.nextId b.log b.graph) {a : NodeId} {o : Operand α}
  (ho : b.graph.arena.operand a = .ok o) {start length : Nat}

include hb ho

/-- Operands stand before the range, too. -/
theorem operands_lt_range :
    ∀ i, ∀ k ∈ operandsAt (b.append (.range o start length)).graph.nodes i, k < i := by
  intro i k hk
  cases hi : (b.append (.range o start length)).graph.nodes[i]? with
  | none => simp [operandsAt, hi] at hk
  | some n =>
    rw [operandsAt, hi, Option.map_some, Option.getD_some] at hk
    rcases (getElem?_concat_eq_some_iff (l := b.graph.nodes)).1 hi with hold | ⟨rfl, rfl⟩
    · exact hb.nodes.operands_lt i k (by rwa [operandsAt, hold, Option.map_some, Option.getD_some])
    · obtain rfl : k = o.position := List.mem_singleton.1 hk
      exact (List.getElem?_eq_some_iff.1 (Graph.operand_spec ho).1).1

/-- **A range that does not lie within its vector is never answered**: points that fit the variables
below it pass the check, and then an index does not fit. -/
theorem evaluate_range_outside (hout : o.node.dimension < start + length) {x y : List α}
    (hin : InputsFit (b.append (.range o start length)).graph.nodes b.graph.nodes.length ⟨x, y⟩)
    (hlen : x.length = y.length) :
    (Graph.evaluate b.next x y).answer (b.append (.range o start length)).graph =
      .error .outOfRange := by
  set g := (b.append (.range o start length)).graph
  have hn : g.nodes[b.graph.nodes.length]? = some (b.nodeOf (.range o start length)) :=
    b.getElem?_append _
  have hposition : g.arena.position? b.next = some b.graph.nodes.length := List.lookup_cons_self
  have hcheck : g.checkInput b.graph.nodes.length x y = .ok () :=
    (Graph.checkInput_eq_ok (operands_lt_range hb ho) (List.getElem?_eq_some_iff.1 hn).1).2 ⟨hin,
      hlen⟩
  have hevaluable : g.evaluable b.next x y = .ok b.graph.nodes.length :=
    bind_eq_ok.2 ⟨_, Arena.position_eq_ok.2 hposition, bind_eq_ok.2 ⟨(), hcheck, rfl⟩⟩
  have hsizes : HaveSizes [⟨List.replicate o.node.dimension 0, List.replicate o.node.dimension 0⟩]
      [o.node.signature] := .cons ⟨List.length_replicate, List.length_replicate⟩ .nil
  have hnone : evaluateAt b.graph.nodes.length ⟨x, y⟩ g.arena.nodes = none := by
    rw [evaluateAt_eq]
    refine evaluateNode_range_outside hn rfl rfl hsizes ?_
    rwa [Builder.nodeOf, Node.dimension, Draft.range, Draft.function, List.length_replicate]
  rw [Action.answer, Graph.evaluate, Action.inquire_bind_eq, hevaluable]
  simp [Graph.onArena, Action.focus, Arena.evaluate, hnone]

end Outside

/-! ## Reachable graphs -/

section Reachable

variable [DecidableEq α] {arithmetic : Arithmetic} {commands : List (Command α NodeId)}

theorem builderOK_runAllWith (hexact : Session.RunsExactly arithmetic commands {}) {g : Nat}
    {b : Builder α} (hb : (Session.runAllWith arithmetic commands {}).builder? g = some b) :
    GraphOK b.nextId b.log b.graph := by
  rw [Session.runAllWith_eq_runAll hexact] at hb
  exact builderOK_runAll hb

end Reachable

/-- A range of a vector with two components that starts at the last position a word holds. -/
def wrappedCommands : List (Command ℚ NodeId) :=
  [.newGraph {}, .graph 0 (.build (.taggedVariable 2 .unknown)),
    .graph 0 (.build (.slice ⟨1⟩ 0xFFFFFFFFFFFFFFFF 1))]

/-- The vector that the range is taken from. -/
def wrappedOperand : Operand ℚ := ⟨0, ⟨⟨1⟩, .unknown, .variable none, [0, 0]⟩⟩

/-- In wrapping arithmetic the range is added: its end is zero. -/
theorem wrapped_range_added : ∃ b : Builder ℚ, GraphOK b.nextId b.log b.graph ∧
    b.graph.arena.operand ⟨1⟩ = .ok wrappedOperand ∧ b.next = ⟨2⟩ ∧
    (∀ n ∈ (b.append (.range wrappedOperand 0xFFFFFFFFFFFFFFFF 1)).graph.nodes,
      n.isVariable = true → n.dimension = 2) ∧
    (Session.runAllWith .wrapping wrappedCommands {}).graph? 0 =
      some (b.append (.range wrappedOperand 0xFFFFFFFFFFFFFFFF 1)).graph := by
  let b := ((Session.runAll (wrappedCommands.take 2) {}).builder? 0).getD ⟨{}, 0, []⟩
  have hb : (Session.runAll (wrappedCommands.take 2) {}).builder? 0 = some b := by decide +kernel
  exact ⟨b, builderOK_runAll hb, rfl, rfl, by decide +kernel, by decide +kernel⟩

end MixedMonotone
