import Mathlib
import MixedMonotone.Session.Command
import MixedMonotone.Proofs.Drafts
import MixedMonotone.Proofs.Keeping

/-!
# Building keeps graphs well formed

* `GraphOK`: a well-formed graph whose handles have all been issued and whose **due reports
  are all in the log**.
* `BuilderOK`: the same for a builder, which issues handles and reports.
* `Builder.find_append`: where an added node is found.
* `BuilderOK.append`: adding a draft that fits keeps it.
* `keeps_call`, `keeps_slack`: **every builder call** keeps what adding nodes keeps,
  answered or refused.
* `keeps_function_call`: a call that applies an operator keeps what **adding function nodes** keeps.
-/

namespace MixedMonotone

variable {α : Type}

theorem signatureAt_append (nodes : List (Node α)) (n : Node α) {k : Nat} (hk : k < nodes.length) :
    signatureAt (nodes ++ [n]) k = signatureAt nodes k := by
  rw [signatureAt, List.getElem?_append_left hk, signatureAt]

namespace Builder

variable (b : Builder α) (d : Draft α)

theorem nodes_append : (b.append d).graph.nodes = b.graph.nodes ++ [b.nodeOf d] := rfl

theorem getElem?_append : (b.append d).graph.nodes[b.graph.nodes.length]? = some (b.nodeOf d) :=
  List.getElem?_concat_length

/-- The handle that is issued next leads to the node that is added under it, the last one. -/
theorem find_append :
    (b.append d).graph.arena.find b.next = .ok ⟨b.graph.nodes.length, b.nodeOf d⟩ := by
  have hposition : (b.append d).graph.arena.position? b.next = some b.graph.nodes.length :=
    List.lookup_cons_self
  have hnode : (b.append d).graph.arena.nodes[b.graph.nodes.length]? = some (b.nodeOf d) :=
    b.getElem?_append d
  rw [Arena.find, Arena.position, hposition]
  dsimp only [bind, Except.bind]
  rw [hnode]

end Builder

variable [Scalar α]

/-- **A well-formed graph**, given the number of the next handle and the reports so far. -/
structure GraphOK (nextId : Nat) (log : List Event) (g : Graph α) : Prop where
  arena : ArenaOK g.settings g.arena
  issued : ∀ n ∈ g.nodes, n.id.number < nextId
  reported : ∀ n ∈ g.nodes, n.dueReports g.settings g.nodes ⊆ log

namespace GraphOK

variable {nextId nextId' : Nat} {log log' : List Event} {g g' : Graph α}

theorem mono (h : GraphOK nextId log g) (hid : nextId ≤ nextId') (hlog : log ⊆ log') :
    GraphOK nextId' log' g :=
  ⟨h.arena, fun n hn => lt_of_lt_of_le (h.issued n hn) hid,
    fun n hn => List.Subset.trans (h.reported n hn) hlog⟩

theorem nodes (h : GraphOK nextId log g) : NodesOK g.settings g.nodes := h.arena.nodes

/-- What evaluations leave makes no difference. -/
theorem of_blank_eq (h : GraphOK nextId log g) (heq : g.blank = g'.blank) :
    GraphOK nextId log g' := by
  obtain ⟨harena, hset, -⟩ := Graph.blank_eq_iff.1 heq
  have halike : Alike g.nodes g'.nodes := (Arena.blank_eq_iff.1 harena).1
  refine ⟨hset ▸ h.arena.of_blank_eq harena, ?_, ?_⟩
  · intro n' hn'
    obtain ⟨n, hn, hblank⟩ := halike.symm.mem hn'
    have hid : n.id = n'.id := Node.eq_of_blank Node.blank_id hblank
    exact hid ▸ h.issued n hn
  · intro n' hn'
    obtain ⟨n, hn, hblank⟩ := halike.symm.mem hn'
    rw [← Node.dueReports_blank g'.settings (.refl g'.nodes) n', ← hblank,
      Node.dueReports_blank _ halike, ← hset]
    exact h.reported n hn

end GraphOK

/-! ## Adding a node -/

section Append

variable {s : Settings} {nodes : List (Node α)}

/-- A node reads the nodes before it only. -/
theorem NodeOK.append {i : Nat} {m : Node α} (hm : NodeOK s nodes i m) (hi : i ≤ nodes.length)
    (n : Node α) : NodeOK s (nodes ++ [n]) i m := by
  unfold NodeOK at hm ⊢
  split
  case h_4 f hf =>
    rw [hf] at hm
    obtain ⟨hdim, hlt, σs, hσs, hfits, hsizes⟩ := hm
    refine ⟨hdim, hlt, σs, ?_, hfits, hsizes⟩
    refine ((List.forall₂_and_left (p := (· < i)) _ _).2 ⟨hlt, hσs⟩).imp ?_
    rintro k σ ⟨hk, hσ⟩
    rw [signatureAt_append nodes n (lt_of_lt_of_le hk hi), hσ]
  all_goals
    rename_i hkind
    rw [hkind] at hm
    exact hm

theorem NodesOK.append (hok : NodesOK s nodes) {n : Node α} (hn : NodeOK s nodes nodes.length n) :
    NodesOK s (nodes ++ [n]) := by
  intro i m hm
  rcases getElem?_concat_eq_some_iff.1 hm with hold | ⟨rfl, rfl⟩
  · exact (hok i m hold).append (List.getElem?_eq_some_iff.1 hold).1.le n
  · exact hn.append le_rfl _

theorem ArenaOK.push {a : Arena α} (hok : ArenaOK s a) {n : Node α}
    (hn : NodeOK s a.nodes a.nodes.length n) (hnew : ∀ m ∈ a.nodes, m.id.number < n.id.number) :
    ArenaOK s (a.push n) := by
  refine ⟨hok.nodes.append hn, ?_, ?_⟩
  · exact List.pairwise_append.2 ⟨hok.ids, List.pairwise_singleton _ _, by simpa using hnew⟩
  · intro id i
    have hfresh : ∀ m, a.nodes[i]? = some m → m.id ≠ n.id := by
      intro m hm heq
      have := hnew m (List.mem_of_getElem? hm)
      rw [heq] at this
      exact lt_irrefl _ this
    simp only [Arena.position?, Arena.push, List.lookup_cons, getElem?_concat_eq_some_iff]
    have htable := hok.table id i
    unfold Arena.position? at htable
    -- the new handle leads to the new node, and every other one where it led before
    by_cases hid : id = n.id
    · subst hid
      simp only [BEq.rfl, Option.some.injEq]
      constructor
      · rintro rfl
        exact ⟨n, .inr ⟨rfl, rfl⟩, rfl⟩
      · rintro ⟨m, hm | ⟨rfl, -⟩, hmid⟩
        · exact absurd hmid (hfresh m hm)
        · rfl
    · have hbeq : (id == n.id) = false := by simpa using hid
      simp only [hbeq, htable]
      constructor
      · rintro ⟨m, hm, hmid⟩
        exact ⟨m, .inl hm, hmid⟩
      · rintro ⟨m, hm | ⟨-, rfl⟩, hmid⟩
        · exact ⟨m, hm, hmid⟩
        · exact absurd hmid.symm hid

/-- What a node calls for follows from the nodes before it. -/
theorem Node.dueReports_append {i : Nat} {m : Node α} (hm : NodeOK s nodes i m)
    (hi : i ≤ nodes.length) (n : Node α) :
    m.dueReports s (nodes ++ [n]) = m.dueReports s nodes := by
  unfold dueReports
  split
  case h_4 f hf =>
    rw [NodeOK, hf] at hm
    have hmap : f.operands.map (signatureAt (nodes ++ [n])) = f.operands.map (signatureAt nodes) :=
      List.map_congr_left fun k hk =>
        signatureAt_append nodes n (lt_of_lt_of_le (hm.2.before k hk) hi)
    rw [hmap]
  all_goals rfl

end Append

/-- A well-formed builder that has **issued the handles below `nextId`** and reported
what is in `log`. -/
structure BuilderOK (nextId : Nat) (log : List Event) (b : Builder α) : Prop where
  graph : GraphOK b.nextId b.log b.graph
  issued : nextId ≤ b.nextId
  reported : log ⊆ b.log

variable {nextId : Nat} {log : List Event}

/-- **Adding a draft that fits** keeps the builder well formed. -/
theorem BuilderOK.append {b : Builder α} (h : BuilderOK nextId log b) {d : Draft α}
    (hd : DraftOK b.graph.settings b.graph.nodes d) : BuilderOK nextId log (b.append d) := by
  have hnode := hd.node b.next
  have hnodes := h.graph.nodes
  refine ⟨⟨h.graph.arena.push hnode h.graph.issued, ?_, ?_⟩, ?_, ?_⟩
  · intro n hn
    rcases List.mem_append.1 hn with hn | hn
    · exact lt_trans (h.graph.issued n hn) (Nat.lt_succ_self _)
    · obtain rfl := List.mem_singleton.1 hn
      exact Nat.lt_succ_self _
  · intro n hn
    have hlog : ∀ {e}, e ∈ b.log ∨ e ∈ d.notices → e ∈ (b.append d).log := by
      intro e he
      simp only [Builder.append, List.mem_append]
      tauto
    rcases List.mem_append.1 hn with hn | hn
    -- what an old node calls for has been reported, and the new node does not change it
    · obtain ⟨i, hi⟩ := List.mem_iff_getElem?.1 hn
      have hle := (List.getElem?_eq_some_iff.1 hi).1.le
      have hsame := Node.dueReports_append (hnodes i n hi) hle (b.nodeOf d)
      intro e he
      exact hlog (.inl (h.graph.reported n hn (hsame ▸ he)))
    -- the draft carries what the new node calls for
    · obtain rfl := List.mem_singleton.1 hn
      have hsame := Node.dueReports_append hnode le_rfl (b.nodeOf d)
      intro e he
      exact hlog (.inr (hd.notices b.next ▸ hsame ▸ he))
  · exact Nat.le_succ_of_le h.issued
  · intro e he
    simp only [Builder.append, List.mem_append]
    exact .inl (.inl (h.reported he))

/-! ## Calls -/

/-- A property of builders that holds on **when nodes are added**. The table of shared constants
is no part of it. -/
structure Builder.KeptByAdding (P : Builder α → Prop) : Prop where
  nodes : ∀ b, P b → NodesOK b.graph.settings b.graph.nodes
  append : ∀ b d, P b → DraftOK b.graph.settings b.graph.nodes d → P (b.append d)
  record : ∀ b values id, P b → P (b.record values id)

/-- That the builder is well formed is such a property. -/
theorem builderOK_keptByAdding : Builder.KeptByAdding (BuilderOK (α := α) nextId log) where
  nodes _ hb := hb.graph.nodes
  append _ _ hb hd := hb.append hd
  record _ _ _ hb := ⟨⟨hb.graph.arena, hb.graph.issued, hb.graph.reported⟩, hb.issued, hb.reported⟩

omit [Scalar α] in
/-- A node is added, or nothing is. -/
theorem keeps_place_of {P : Builder α → Prop} {draft : Graph α → Except (Error α) (Draft α)}
    (h : ∀ b d, P b → draft b.graph = .ok d → P (b.append d)) :
    Action.Keeps P (Build.place draft) := by
  intro b hb
  unfold Action.after Build.place
  cases hd : draft b.graph with
  | error e => exact hb
  | ok d => exact h b d hb hd

section Calls

variable {P : Builder α → Prop} (hP : Builder.KeptByAdding P)

include hP

/-- **A draft that fits** is added to a well-formed graph, or nothing is. -/
theorem keeps_place {draft : Graph α → Except (Error α) (Draft α)} (hfits : FitsGraph draft) :
    Action.Keeps P (Build.place draft) :=
  keeps_place_of fun b d hb hd => hP.append b d hb (hfits b.graph d (hP.nodes b hb) hd)

theorem keeps_sub (a b : NodeId) : Action.Keeps P (Build.sub a b) := by
  refine .bind (.inquire _) fun _ => .bind ?_ fun _ => keeps_place hP (Graph.fits_draftArith _ _ _)
  exact keeps_place hP (Graph.fits_draftUnary _ (by simp) fun _ _ => .neg)

/-- The difference of a constraint. -/
theorem keeps_slack (lhs rhs : NodeId) : Action.Keeps P (Build.slack lhs rhs) :=
  .bind (.inquire _) fun _ => keeps_sub hP _ _

variable [DecidableEq α]

/-- The node of a constant vector is there already, or it is added. -/
theorem keeps_constant {values : List α} (hne : values ≠ []) :
    Action.Keeps P (Build.constant values) := by
  intro b hb
  have hadded := hP.append b _ hb (b.graph.draftOK_parameter hne)
  unfold Action.after Build.constant
  cases b.graph.interned? values with
  | some id => exact hb
  | none =>
    dsimp only
    split
    · exact hP.record _ _ _ hadded
    · exact hadded

theorem keeps_parameter (values : List α) : Action.Keeps P (Build.parameter values) := by
  unfold Build.parameter
  split
  · exact .throw _
  · rename_i hne
    exact keeps_constant hP (by simpa using hne)

/-- **Every builder call keeps what adding nodes keeps**, answered or refused. -/
theorem keeps_call (c : Call α NodeId) : Action.Keeps P c.run := by
  cases c with
  | taggedVariable dimension tag => exact keeps_place hP (VariableSpec.fits_draft _)
  | boundedVariable lower upper => exact keeps_place hP (VariableSpec.fits_draft _)
  | declare v => exact keeps_place hP v.fits_draft
  | parameter values => exact keeps_parameter hP values
  | scalar v => exact keeps_constant hP (by simp)
  | ones dimension => exact keeps_parameter hP _
  | matrixParameter m => exact keeps_place hP (Graph.fits_draftMatrix m)
  | add a b | mul a b | div a b => exact keeps_place hP (Graph.fits_draftArith _ a b)
  | sub a b => exact keeps_sub hP a b
  | dot a b => exact keeps_place hP (Graph.fits_draftDot a b)
  | matvec a b => exact keeps_place hP (Graph.fits_draftMatvec a b)
  | neg a => exact keeps_place hP (Graph.fits_draftUnary a (by simp) fun _ _ => .neg)
  | reciprocal a => exact keeps_place hP (Graph.fits_draftUnary a (by simp) fun _ _ => .reciprocal)
  | log2 a => exact keeps_place hP (Graph.fits_draftUnary a (by simp) fun _ _ => .log2)
  | ln a => exact keeps_place hP (Graph.fits_draftUnary a (by simp) fun _ _ => .ln)
  | sum a => exact keeps_place hP (Graph.fits_draftSum a)
  | prod a => exact keeps_place hP (Graph.fits_draftProd a)
  | list items => exact keeps_place hP (Graph.fits_draftList items)
  | slice a start length => exact keeps_place hP (Graph.fits_draftSlice a start length)
  | component a i => exact keeps_place hP (Graph.fits_draftSlice a i 1)

end Calls

/-! ## Function nodes -/

/-- What is worked out is **a function node**. -/
def DrawsFunction (x : Except (Error α) (Draft α)) : Prop :=
  ∀ d, x = .ok d → ∃ f, d.kind = .function f

namespace DrawsFunction

omit [Scalar α]

theorem ok {d : Draft α} (h : ∃ f, d.kind = .function f) : DrawsFunction (.ok d) := by
  intro d' hd
  obtain rfl := Except.ok.inj hd
  exact h

theorem error (e : Error α) : DrawsFunction (.error e) := nofun

/-- Whatever was looked up or checked before. -/
theorem bind {β : Type} {x : Except (Error α) β} {rest : β → Except (Error α) (Draft α)}
    (h : ∀ y, DrawsFunction (rest y)) : DrawsFunction (x >>= rest) := by
  intro d hd
  obtain ⟨y, -, hd⟩ := bind_eq_ok.1 hd
  exact h y d hd

theorem ite {p : Prop} [Decidable p] {x y : Except (Error α) (Draft α)} (hx : DrawsFunction x)
    (hy : DrawsFunction y) : DrawsFunction (if p then x else y) := by
  split
  · exact hx
  · exact hy

end DrawsFunction

/-- The call applies an operator to nodes. -/
def Call.appliesOperator {ρ : Type} : Call α ρ → Bool
  | taggedVariable .. | boundedVariable .. | declare _ => false
  | parameter _ | scalar _ | ones _ | matrixParameter _ => false
  | _ => true

section FunctionCalls

variable {P : Builder α → Prop} (hP : ∀ b d f, P b → d.kind = .function f → P (b.append d))

include hP

omit [Scalar α] in
theorem keeps_place_function {draft : Graph α → Except (Error α) (Draft α)}
    (hdraft : ∀ g, DrawsFunction (draft g)) : Action.Keeps P (Build.place draft) := by
  refine keeps_place_of fun b d hb hd => ?_
  obtain ⟨f, hf⟩ := hdraft b.graph d hd
  exact hP b d f hb hf

theorem keeps_sub_function (x y : NodeId) : Action.Keeps P (Build.sub x y) :=
  .bind (.inquire _) fun _ =>
    .bind (keeps_place_function hP fun _ => .bind fun _ => .ok ⟨_, rfl⟩) fun _ =>
      keeps_place_function hP fun _ => .bind fun _ => .bind fun _ => .bind fun _ => .ok ⟨_, rfl⟩

theorem keeps_slack_function (lhs rhs : NodeId) : Action.Keeps P (Build.slack lhs rhs) :=
  .bind (.inquire _) fun _ => keeps_sub_function hP _ _

variable [DecidableEq α]

/-- **A call that applies an operator** adds function nodes, and no others. -/
theorem keeps_function_call {c : Call α NodeId} (hc : c.appliesOperator = true) :
    Action.Keeps P c.run := by
  cases c with
  | add x y | mul x y | div x y =>
    exact keeps_place_function hP fun _ => .bind fun _ => .bind fun _ => .bind fun _ => .ok ⟨_, rfl⟩
  | sub x y => exact keeps_sub_function hP x y
  | dot x y =>
    exact keeps_place_function hP fun _ => .bind fun _ => .bind fun _ =>
      .ite (.error _) (.ok ⟨_, rfl⟩)
  | matvec x y =>
    refine keeps_place_function hP fun _ => .bind fun l => .bind fun r => ?_
    split
    · exact .error _
    · exact .ite (.error _) (.ok ⟨_, rfl⟩)
  | neg x | reciprocal x | log2 x | ln x | sum x | prod x =>
    exact keeps_place_function hP fun _ => .bind fun _ => .ok ⟨_, rfl⟩
  | list items =>
    exact keeps_place_function hP fun _ => .ite (.error _) (.bind fun _ => .ok ⟨_, rfl⟩)
  | slice x start length | component x i =>
    exact keeps_place_function hP fun _ => .bind fun _ => .bind fun _ => .ok ⟨_, rfl⟩
  | _ => cases hc

end FunctionCalls

end MixedMonotone
