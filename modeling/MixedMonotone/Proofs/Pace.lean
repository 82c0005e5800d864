import Mathlib
import MixedMonotone.Proofs.Growth
import MixedMonotone.Proofs.Renumbering
import MixedMonotone.Proofs.Sharing

/-!
# Calls that keep pace

The same calls are made on two graphs that differ in their handles. Each call may issue
handles on both sides, so **more handles correspond after it than before**; what corresponded
before does so still.

* `Action.KeepsPace`: calls that are answered or refused alike, as far as the handles correspond
  that there are by then, and the ways in which such calls are put together.
* `keepsPace_call`: **every builder call** keeps pace.
* `keepsPace_runGraph`, `keepsPace_runProgram`: so does **every command** on the graph or on
  one of its programs.
-/

namespace MixedMonotone

variable {α β β' γ γ' ρ σ σ' τ : Type}

/-! ## Calls -/

/-- The calls keep pace: made on states that are related while the handles in `H` correspond, they
leave states that are related, and answer alike, **when more handles correspond**. -/
def Action.KeepsPace (R : (NodeId → NodeId → Prop) → σ → σ' → Prop)
    (A : (NodeId → NodeId → Prop) → β → β' → Prop) (H : NodeId → NodeId → Prop) (act : Action α σ β)
    (act' : Action α σ' β') : Prop :=
  ∀ s s', R H s s' → ∃ I, H ≤ I ∧ R I (act.after s) (act'.after s') ∧
    Matched (Error.Renamed I) (A I) (act.answer s) (act'.answer s')

namespace Action.KeepsPace

variable {R : (NodeId → NodeId → Prop) → σ → σ' → Prop}
    {A : (NodeId → NodeId → Prop) → β → β' → Prop}
  {B : (NodeId → NodeId → Prop) → γ → γ' → Prop} {H : NodeId → NodeId → Prop} {act : Action α σ β}
  {act' : Action α σ' β'}

/-- Calls that issue no handle. -/
theorem of_agree (h : Agree (Error.Renamed H) (R H) (A H) act act') : KeepsPace R A H act act' := by
  intro s s' hs
  obtain ⟨hanswer, hafter⟩ := h s s' hs
  exact ⟨H, le_rfl, hafter, hanswer⟩

theorem pure {b : β} {b' : β'} (h : A H b b') :
    KeepsPace R A H (Pure.pure b : Action α σ β) (Pure.pure b' : Action α σ' β') :=
  of_agree (.pure h)

/-- The second calls are made when more handles correspond. -/
theorem bind {next : β → Action α σ γ} {next' : β' → Action α σ' γ'}
    (hact : KeepsPace R A H act act')
    (hnext : ∀ I, H ≤ I → ∀ b b', A I b b' → KeepsPace R B I (next b) (next' b')) :
    KeepsPace R B H (act >>= next) (act' >>= next') := by
  intro s s' hs
  obtain ⟨I, hHI, hafter, hanswer⟩ := hact s s' hs
  rw [answer_bind, answer_bind, after_bind, after_bind]
  generalize act.answer s = x, act'.answer s' = x' at hanswer
  cases hanswer with
  | error h => exact ⟨I, hHI, hafter, .error h⟩
  | ok h =>
    obtain ⟨J, hIJ, hlast, hanswer⟩ := hnext I hHI _ _ h _ _ hafter
    exact ⟨J, hHI.trans hIJ, hlast, hanswer⟩

end Action.KeepsPace

/-! ## Builders -/

/-- **Builders of the same graph under other handles.** Those that are issued next are larger than
all that correspond. What was reported is left out. -/
structure Builder.Renamed (H : NodeId → NodeId → Prop) (b b' : Builder α) : Prop where
  graph : b.graph.RenamedBy H b'.graph
  aligned : Aligned H
  issued : ∀ a a', H a a' → a.number < b.nextId ∧ a'.number < b'.nextId

section Builders

variable {H : NodeId → NodeId → Prop} {b b' : Builder α}

theorem Builder.Renamed.linked (h : b.Renamed H b') : b.graph.Linked H Eq b'.graph :=
  h.graph.linked h.aligned

/-- **Adding the same node**: the new handles correspond. -/
theorem Builder.Renamed.append (h : b.Renamed H b') (d : Draft α) :
    (b.append d).Renamed (Extended H b.next b'.next) (b'.append d) := by
  have hold : H ≤ Extended H b.next b'.next := Extended.old
  have hids : ∀ c : Builder α, (c.append d).graph.nodes.map Node.id =
      c.graph.nodes.map Node.id ++ [c.next] :=
    fun c => List.map_append
  refine ⟨⟨⟨h.graph.settings, ?_, (h.graph.mono hold).interned⟩, ?_⟩, ?_, ?_⟩
  · exact (h.graph.arena.mono hold).push ⟨rfl, rfl, rfl⟩ .new
  · intro a a' ha
    rw [hids, hids]
    rcases ha with ha | ⟨rfl, rfl⟩
    · obtain ⟨hknown, hknown'⟩ := h.graph.known a a' ha
      exact ⟨List.mem_append_left _ hknown, List.mem_append_left _ hknown'⟩
    · simp
  · intro a a' c c' ha hc
    have hnext : b.next.number = b.nextId ∧ b'.next.number = b'.nextId := ⟨rfl, rfl⟩
    rcases ha with ha | ⟨rfl, rfl⟩ <;> rcases hc with hc | ⟨rfl, rfl⟩
    · exact h.aligned a a' c c' ha hc
    · have := h.issued a a' ha
      omega
    · have := h.issued c c' hc
      omega
    · omega
  · intro a a' ha
    have hmore : (b.append d).nextId = b.nextId + 1 ∧ (b'.append d).nextId = b'.nextId + 1 :=
      ⟨rfl, rfl⟩
    rcases ha with ha | ⟨rfl, rfl⟩
    · have := h.issued a a' ha
      omega
    · exact ⟨Nat.lt_succ_self _, Nat.lt_succ_self _⟩

/-- A constant is recorded as shared on both sides. -/
theorem Builder.Renamed.record (h : b.Renamed H b') (values : List α) {id id' : NodeId}
    (hid : H id id') : (b.record values id).Renamed H (b'.record values id') :=
  ⟨⟨⟨h.graph.settings, h.graph.arena, .cons ⟨rfl, hid⟩ h.graph.interned⟩, h.graph.known⟩,
    h.aligned, h.issued⟩

/-- Drafts with the operands at the same positions are the same. -/
theorem Draft.Rebound.eq {d d' : Draft α} (h : d.Rebound Eq d') : d' = d := by
  obtain ⟨htag, hvalue, hnotices, hkind⟩ := h
  obtain ⟨kind, tag, value, notices⟩ := d
  obtain ⟨kind', tag', value', notices'⟩ := d'
  dsimp only at htag hvalue hnotices hkind
  subst htag hvalue hnotices
  cases hkind with
  | leaf => rfl
  | function f operands hoperands =>
    rw [List.forall₂_eq_eq_eq] at hoperands
    rw [← hoperands]

/-- **What is worked out alike is added alike**, or refused alike. -/
theorem keepsPace_place {draft draft' : Graph α → Except (Error α) (Draft α)}
    (h : ∀ g g' : Graph α, g.Linked H Eq g' → Graph.Linked.Drafts H Eq (draft g) (draft' g')) :
    Action.KeepsPace Builder.Renamed id H (Build.place draft) (Build.place draft') := by
  intro b b' hb
  have hdraft := h b.graph b'.graph hb.linked
  unfold Action.answer Action.after Build.place
  generalize draft b.graph = x, draft' b'.graph = x' at hdraft
  cases hdraft with
  | error he => exact ⟨H, le_rfl, hb, .error he⟩
  | ok hd =>
    obtain rfl := hd.eq
    exact ⟨_, Extended.old, hb.append _, .ok .new⟩

/-- **Compiling issues no handle.** -/
theorem keepsPace_compile (extraction : Extraction) {root root' : NodeId} (hroot : H root root')
    {constraints constraints' : List Constraint}
    (hconstraints : List.Forall₂ (ConstraintOn.Renamed H) constraints constraints') :
    Action.KeepsPace (α := α) Builder.Renamed Program.Renamed H
      (Build.compile extraction root constraints)
      (Build.compile extraction root' constraints') := by
  intro b b' hb
  have hprogram := hb.graph.compile hb.aligned hroot hconstraints extraction
  unfold Action.answer Action.after Build.compile
  generalize b.graph.compile extraction root constraints = x,
    b'.graph.compile extraction root' constraints' = x' at hprogram
  cases hprogram with
  | error he => exact ⟨H, le_rfl, hb, .error he⟩
  | ok hp => exact ⟨H, le_rfl, ⟨hb.graph, hb.aligned, hb.issued⟩, .ok hp⟩

variable [Scalar α] {a a' c c' : NodeId}

theorem keepsPace_sub (ha : H a a') (hc : H c c') :
    Action.KeepsPace (α := α) Builder.Renamed id H (Build.sub a c) (Build.sub a' c') := by
  have hcheck : Action.KeepsPace (α := α) (A := fun _ => Eq) Builder.Renamed H
      (Action.inquire fun b => b.graph.checkDifference a c) (Action.inquire fun b =>
        b.graph.checkDifference a' c') :=
    .of_agree (.inquire fun b b' hb => hb.linked.checkDifference ha hc)
  refine hcheck.bind fun I hHI _ _ _ => .bind (A := id) (keepsPace_place fun g g' h => ?_)
    fun J hIJ n n' hn =>
    keepsPace_place fun g g' h => ?_
  · exact h.unary .neg .swapped Tag.negate (hHI _ _ hc)
  · exact h.arith .add (hIJ _ _ (hHI _ _ ha)) hn

/-- The difference of a constraint. -/
theorem keepsPace_slack (ha : H a a') (hc : H c c') :
    Action.KeepsPace (α := α) Builder.Renamed id H (Build.slack a c) (Build.slack a' c') := by
  have hcheck : Action.KeepsPace (α := α) (A := fun _ => Eq) Builder.Renamed H
      (Action.inquire fun b => b.graph.checkSameSize a c) (Action.inquire fun b =>
        b.graph.checkSameSize a' c') :=
    .of_agree (.inquire fun b b' hb => hb.linked.checkSameSize ha hc)
  exact hcheck.bind fun I hHI _ _ _ => keepsPace_sub (hHI _ _ hc) (hHI _ _ ha)

variable [DecidableEq α]

/-- A constant is there already on both sides, or on neither. -/
theorem keepsPace_constant (values : List α) :
    Action.KeepsPace Builder.Renamed id H (Build.constant values) (Build.constant values) := by
  intro b b' hb
  have hshared := hb.graph.interned? values
  have hdraft := (hb.linked.parameter values).eq
  unfold Action.answer Action.after Build.constant
  rw [hdraft, hb.graph.settings]
  generalize b.graph.interned? values = x, b'.graph.interned? values = x' at hshared
  cases hshared with
  | some hid => exact ⟨H, le_rfl, hb, .ok hid⟩
  | none =>
    have hadded := hb.append (b.graph.draftParameter values)
    refine ⟨_, Extended.old, ?_, .ok .new⟩
    dsimp only
    by_cases hshare : b.graph.settings.internParameters = true
    · rw [if_pos hshare, if_pos hshare]
      exact hadded.record values .new
    · rw [if_neg hshare, if_neg hshare]
      exact hadded

theorem keepsPace_parameter (values : List α) :
    Action.KeepsPace Builder.Renamed id H (Build.parameter values) (Build.parameter values) := by
  unfold Build.parameter
  by_cases hempty : values.isEmpty = true
  · rw [if_pos hempty]
    exact .of_agree (.throw (.refl rfl))
  · rw [if_neg hempty]
    exact keepsPace_constant values

/-- **Every builder call keeps pace.** -/
theorem keepsPace_call {call call' : Call α NodeId} (h : call.Renamed H call') :
    Action.KeepsPace Builder.Renamed id H call.run call'.run := by
  cases h with
  | taggedVariable | boundedVariable | declare =>
    exact keepsPace_place fun _ _ _ => VariableSpec.matched _ _ _
  | parameter values => exact keepsPace_parameter values
  | scalar v => exact keepsPace_constant [v]
  | ones dimension => exact keepsPace_parameter _
  | matrixParameter m => exact keepsPace_place fun _ _ h => h.matrix m
  | add ha hb | mul ha hb | div ha hb => exact keepsPace_place fun _ _ h => h.arith _ ha hb
  | sub ha hb => exact keepsPace_sub ha hb
  | dot ha hb => exact keepsPace_place fun _ _ h => h.dot ha hb
  | matvec ha hb => exact keepsPace_place fun _ _ h => h.matvec ha hb
  | neg ha | reciprocal ha | log2 ha | ln ha => exact keepsPace_place fun _ _ h => h.unary _ _ _ ha
  | sum ha => exact keepsPace_place fun _ _ h => h.sum ha
  | prod ha => exact keepsPace_place fun _ _ h => h.prod ha
  | list hitems => exact keepsPace_place fun _ _ h => h.list hitems
  | slice ha start length => exact keepsPace_place fun _ _ h => h.slice ha start length .checked
  | component ha i => exact keepsPace_place fun _ _ h => h.slice ha i 1 .checked

end Builders

/-! ## Commands -/

/-- **The same command on a graph**, with corresponding references. -/
inductive GraphCommand.Renamed (H : ρ → σ → Prop) : GraphCommand α ρ → GraphCommand α σ → Prop
  | build {call : Call α ρ} {call' : Call α σ} (h : call.Renamed H call') : Renamed H (.build call)
      (.build call')
  | atLeast {a b : ρ} {a' b' : σ} (ha : H a a') (hb : H b b') : Renamed H (.atLeast a b)
      (.atLeast a' b')
  | atMost {a b : ρ} {a' b' : σ} (ha : H a a') (hb : H b b') : Renamed H (.atMost a b)
      (.atMost a' b')
  | evaluate {a : ρ} {a' : σ} (ha : H a a') (x y : List α) : Renamed H (.evaluate a x y)
      (.evaluate a' x y)
  | evaluateScalar {a : ρ} {a' : σ} (ha : H a a') (x y : List α) :
      Renamed H (.evaluateScalar a x y) (.evaluateScalar a' x y)
  | fulfilled {c : ConstraintOn ρ} {c' : ConstraintOn σ} (hc : c.Renamed H c') (x y : List α) :
      Renamed H (.fulfilled c x y) (.fulfilled c' x y)
  | compile (extraction : Extraction) {root : ρ} {root' : σ} (hroot : H root root')
      {constraints : List (ConstraintOn ρ)} {constraints' : List (ConstraintOn σ)}
      (hconstraints : List.Forall₂ (ConstraintOn.Renamed H) constraints constraints') :
      Renamed H (.compile extraction root constraints) (.compile extraction root' constraints')

/-- **The same command on a program**, with corresponding references. -/
inductive ProgramCommand.Renamed (H : ρ → σ → Prop) : ProgramCommand α ρ → ProgramCommand α σ → Prop
  | objective (x y : List α) : Renamed H (.objective x y) (.objective x y)
  | evaluate {a : ρ} {a' : σ} (ha : H a a') (x y : List α) : Renamed H (.evaluate a x y)
      (.evaluate a' x y)
  | fulfilled (index : Nat) (x y : List α) : Renamed H (.fulfilled index x y) (.fulfilled index x y)
  | constraintsHold (x y : List α) : Renamed H (.constraintsHold x y) (.constraintsHold x y)
  | duplicate : Renamed H .duplicate .duplicate

section Resolve

variable {H : ρ → σ → Prop} {env : τ → Option ρ} {env' : τ → Option σ}
    (h : ∀ t, Option.Rel H (env t) (env' t))

include h

theorem ConstraintOn.renamed_resolve (c : ConstraintOn τ) :
    Option.Rel (ConstraintOn.Renamed H) (c.resolve env) (c.resolve env') :=
  rel_bind (h c.node) fun _ _ ha => .some ⟨ha, rfl⟩

/-- **References are looked up on both sides**, or one of them is unknown on both. -/
theorem GraphCommand.renamed_resolve {c : GraphCommand α τ} (hc : c ≠ .duplicate) :
    Option.Rel (GraphCommand.Renamed H) (c.resolve env) (c.resolve env') := by
  cases c with
  | build call => exact rel_bind (Call.renamed_resolve h call) fun _ _ hcall => .some (.build hcall)
  | atLeast a b =>
    exact rel_bind (h a) fun _ _ ha => rel_bind (h b) fun _ _ hb => .some (.atLeast ha hb)
  | atMost a b =>
    exact rel_bind (h a) fun _ _ ha => rel_bind (h b) fun _ _ hb => .some (.atMost ha hb)
  | evaluate a x y => exact rel_bind (h a) fun _ _ ha => .some (.evaluate ha x y)
  | evaluateScalar a x y => exact rel_bind (h a) fun _ _ ha => .some (.evaluateScalar ha x y)
  | fulfilled c x y =>
    exact rel_bind (ConstraintOn.renamed_resolve h c) fun _ _ hc => .some (.fulfilled hc x y)
  | compile extraction root constraints =>
    refine rel_bind (h root) fun _ _ hroot => ?_
    refine rel_bind (rel_mapM constraints fun c => ConstraintOn.renamed_resolve h c)
      fun _ _ hconstraints => ?_
    exact .some (.compile extraction hroot hconstraints)
  | duplicate => exact absurd rfl hc

theorem ProgramCommand.renamed_resolve (c : ProgramCommand α τ) :
    Option.Rel (ProgramCommand.Renamed H) (c.resolve env) (c.resolve env') := by
  cases c with
  | evaluate a x y => exact rel_bind (h a) fun _ _ ha => .some (.evaluate ha x y)
  | objective | fulfilled | constraintsHold | duplicate => exact .some (by constructor)

end Resolve

/-- **The same answer**, with corresponding handles. -/
inductive Reply.Renamed (H : NodeId → NodeId → Prop) : Reply α → Reply α → Prop
  | node {id id' : NodeId} (h : H id id') : Renamed H (.node id) (.node id')
  | constraint {c c' : Constraint} (h : c.Renamed H c') : Renamed H (.constraint c) (.constraint c')
  | same (r : Reply α) (h : r.id? = none) : Renamed H r r

/-! ## Sessions -/

/-- Two sessions hold **the same model under other handles**, under one number. Of the other
models nothing is said. -/
def Session.Renamed (g : Nat) (H : NodeId → NodeId → Prop) (s s' : Session α) : Prop :=
  ∃ m m', s.models[g]? = some m ∧ s'.models[g]? = some m' ∧
    Builder.Renamed H ⟨m.graph, s.nextId, s.log⟩ ⟨m'.graph, s'.nextId, s'.log⟩ ∧
    List.Forall₂ (Program.Renamed H) m.programs m'.programs

/-- A program is added to a model that is there. -/
theorem Session.addProgram_eq {s : Session α} {g : Nat} {m : Model α} (hm : s.models[g]? = some m)
    (p : Program α) : Session.addProgram g p s =
      .ok m.programs.length (s.putModel g { m with programs := m.programs ++ [p] }) := by
  unfold Session.addProgram Session.onModel
  rw [hm]

section Sessions

variable {H : NodeId → NodeId → Prop} {A : (NodeId → NodeId → Prop) → β → β' → Prop} (g : Nat)

theorem keepsPace_onBuilder {act : Build α β} {act' : Build α β'}
    (h : Action.KeepsPace Builder.Renamed A H act act') :
    Action.KeepsPace (Session.Renamed g) A H (Session.onBuilder g act)
    (Session.onBuilder g act') := by
  rintro s s' ⟨m, m', hm, hm', hb, hprograms⟩
  obtain ⟨I, hHI, hafter, hanswer⟩ := h _ _ hb
  unfold Session.onBuilder
  rw [after_onModel hm, after_onModel hm', answer_onModel_eq hm, answer_onModel_eq hm',
    Action.after_focus, Action.after_focus, Action.answer_focus, Action.answer_focus]
  refine ⟨I, hHI, ⟨_, _, Session.models_put hm _ _, Session.models_put hm' _ _, hafter, ?_⟩,
    hanswer⟩
  exact hprograms.imp fun _ _ hp => hp.mono hHI

/-- An evaluation of the graph. -/
theorem keepsPace_onGraph {B : β → β' → Prop} {act : Action α (Graph α) β}
    {act' : Action α (Graph α) β'}
    (h : Aligned H → Action.Agree (Error.Renamed H) (Graph.RenamedBy H) B act act') :
    Action.KeepsPace (Session.Renamed g) (fun _ => B) H (Session.onGraph g act)
    (Session.onGraph g act') := by
  intro s s' hs
  have hH : Aligned H := by
    obtain ⟨_, _, _, _, hb, _⟩ := hs
    exact hb.aligned
  refine keepsPace_onBuilder g (.of_agree (.focus (fun b b' hb => hb.graph) ?_ (h hH))) s s' hs
  exact fun b b' G G' hb hG => ⟨hG, hb.aligned, hb.issued⟩

/-- An evaluation of a program. -/
theorem keepsPace_onProgram (p : Nat) {B : β → β' → Prop} {act : Action α (Program α) β}
    {act' : Action α (Program α) β'}
    (h : Aligned H → Action.Agree (Error.Renamed H) (Program.Renamed H) B act act') :
    Action.KeepsPace (Session.Renamed g) (fun _ => B) H (Session.onProgram g p act)
      (Session.onProgram g p act') := by
  rintro s s' ⟨m, m', hm, hm', hb, hprograms⟩
  have hprogram := forall₂_rel_getElem? hprograms p
  unfold Session.onProgram
  rw [after_onModel hm, after_onModel hm', answer_onModel_eq hm, answer_onModel_eq hm']
  generalize m.programs[p]? = x, m'.programs[p]? = x' at hprogram
  cases hprogram with
  | none => exact ⟨H, le_rfl, ⟨m, m', hm, hm', hb, hprograms⟩, .error (.refl rfl)⟩
  | some hp =>
    obtain ⟨hanswer, hafter⟩ := h hb.aligned _ _ hp
    dsimp only
    rw [Action.after_focus, Action.after_focus, Action.answer_focus, Action.answer_focus]
    exact ⟨H, le_rfl,
      ⟨_, _, Session.models_put hm s.nextId s.log, Session.models_put hm' s'.nextId s'.log, hb,
      forall₂_set_set hprograms p hafter⟩, hanswer⟩

theorem keepsPace_addProgram {p p' : Program α} (h : p.Renamed H p') :
    Action.KeepsPace (Session.Renamed g) (fun _ => Eq) H (Session.addProgram g p)
    (Session.addProgram g p') := by
  rintro s s' ⟨m, m', hm, hm', hb, hprograms⟩
  have hrun := Session.addProgram_eq hm p
  have hrun' := Session.addProgram_eq hm' p'
  rw [Action.after_eq_of_ok hrun, Action.after_eq_of_ok hrun', Action.answer_eq_ok.2 ⟨_, hrun⟩,
    Action.answer_eq_ok.2 ⟨_, hrun'⟩]
  exact ⟨H, le_rfl,
    ⟨_, _, Session.models_put hm s.nextId s.log, Session.models_put hm' s'.nextId s'.log, hb,
    List.rel_append hprograms (.cons h .nil)⟩, .ok hprograms.length_eq⟩

/-- An answer without a handle is the same on both sides. -/
theorem keepsPace_reply {reply : β → Reply α} (hreply : ∀ v, (reply v).id? = none)
    {act act' : Action α (Session α) β}
    (h : Action.KeepsPace (Session.Renamed g) (fun _ => Eq) H act act') :
    Action.KeepsPace (Session.Renamed g) Reply.Renamed H (do return reply (← act))
    (do return reply (← act')) := by
  refine h.bind ?_
  rintro I - v _ rfl
  exact .pure (.same _ (hreply v))

variable [Scalar α]

/-- **Every command on a program keeps pace.** -/
theorem keepsPace_runProgram (p : Nat) {c c' : ProgramCommand α NodeId} (h : c.Renamed H c') :
    Action.KeepsPace (Session.Renamed g) Reply.Renamed H (Session.runProgram g p c)
    (Session.runProgram g p c') := by
  cases h with
  | objective x y =>
    exact keepsPace_reply g (fun _ => rfl) (keepsPace_onProgram g p fun _ =>
      Program.agree_objective x y)
  | evaluate ha x y =>
    exact keepsPace_reply g (fun _ => rfl) (keepsPace_onProgram g p fun hH =>
      Program.agree_evaluate hH ha x y)
  | fulfilled index x y =>
    exact keepsPace_reply g (fun _ => rfl) (keepsPace_onProgram g p fun _ =>
      Program.agree_fulfilled index x y)
  | constraintsHold x y =>
    exact keepsPace_reply g (fun _ => rfl) (keepsPace_onProgram g p fun _ =>
      Program.agree_constraintsHold x y)
  | duplicate =>
    refine .bind (keepsPace_onProgram g p fun _ => .get) fun I hHI q q' hq => ?_
    exact keepsPace_reply g (fun _ => rfl) (keepsPace_addProgram g (hq.mono hHI))

variable [DecidableEq α]

/-- **Every command on the graph keeps pace.** -/
theorem keepsPace_runGraph {c c' : GraphCommand α NodeId} (h : c.Renamed H c') :
    Action.KeepsPace (Session.Renamed g) Reply.Renamed H (Session.runGraph g c)
    (Session.runGraph g c') := by
  cases h with
  | build hcall =>
    exact .bind (keepsPace_onBuilder g (keepsPace_call hcall)) fun I _ id id' hid =>
      .pure (.node hid)
  | atLeast ha hb | atMost ha hb =>
    refine .bind (A := ConstraintOn.Renamed) (keepsPace_onBuilder g ?_) fun I _ c c' hc =>
      .pure (.constraint hc)
    exact .bind (keepsPace_slack ha hb) fun I _ id id' hid => .pure ⟨hid, rfl⟩
  | evaluate ha x y =>
    exact keepsPace_reply g (fun _ => rfl) (keepsPace_onGraph g fun hH =>
      Graph.agree_evaluate hH ha x y)
  | evaluateScalar ha x y =>
    exact keepsPace_reply g (fun _ => rfl) (keepsPace_onGraph g fun hH =>
      Graph.agree_evaluateScalar hH ha x y)
  | fulfilled hc x y =>
    exact keepsPace_reply g (fun _ => rfl) (keepsPace_onGraph g fun hH =>
      Graph.agree_fulfilled hH hc x y)
  | compile extraction hroot hconstraints =>
    refine .bind (keepsPace_onBuilder g (keepsPace_compile extraction hroot hconstraints))
      fun I _ p p' hp => ?_
    exact keepsPace_reply g (fun _ => rfl) (keepsPace_addProgram g hp)

end Sessions

end MixedMonotone
