import Mathlib
import MixedMonotone.Proofs.Histories
import MixedMonotone.Proofs.Mirroring
import MixedMonotone.Proofs.Sharing

/-!
# Sharing constants cannot be observed

A script of builder calls is carried out twice, once with equal constants shared and once without.
The handles that are answered differ, and so do the arenas.

* `Script.Outcome.Matches`: **the same became of a step**, with corresponding handles.
* `Script.Level`: what both runs have come to; one step keeps it (`Script.level_step`), and so does
  a script (`Script.level_run`).
* `interning_unobservable`: so the same calls succeed, and **nothing tells the two graphs apart**.
-/

namespace MixedMonotone

variable {α ρ σ τ : Type}

/-! ## Builder scripts -/

/-- A builder call on the first graph. -/
inductive Command.Builds : Command α ρ → Prop
  | call (c : Call α ρ) : Builds (.graph 0 (.build c))
  | atLeast (lhs rhs : ρ) : Builds (.graph 0 (.atLeast lhs rhs))
  | atMost (lhs rhs : ρ) : Builds (.graph 0 (.atMost lhs rhs))

/-- The same builder call on the first graph, with corresponding references. -/
inductive Command.BuildsAlike (H : ρ → σ → Prop) : Command α ρ → Command α σ → Prop
  | call {c : Call α ρ} {c' : Call α σ} (hc : c.Renamed H c') :
      BuildsAlike H (.graph 0 (.build c)) (.graph 0 (.build c'))
  | atLeast {lhs rhs : ρ} {lhs' rhs' : σ} (hl : H lhs lhs') (hr : H rhs rhs') :
      BuildsAlike H (.graph 0 (.atLeast lhs rhs)) (.graph 0 (.atLeast lhs' rhs'))
  | atMost {lhs rhs : ρ} {lhs' rhs' : σ} (hl : H lhs lhs') (hr : H rhs rhs') :
      BuildsAlike H (.graph 0 (.atMost lhs rhs)) (.graph 0 (.atMost lhs' rhs'))

/-- **References are looked up on both sides**, or one of them is unknown on both. -/
theorem Command.Builds.resolve {c : Command α τ} (hc : c.Builds) {H : ρ → σ → Prop}
    {env : τ → Option ρ} {env' : τ → Option σ} (h : ∀ t, Option.Rel H (env t) (env' t)) :
    Option.Rel (Command.BuildsAlike H) (c.resolve env) (c.resolve env') := by
  cases hc with
  | call c =>
    have hcall := Call.renamed_resolve h c
    simp only [Command.resolve, GraphCommand.resolve]
    generalize c.resolve env = x, c.resolve env' = x' at hcall
    cases hcall with
    | none => exact .none
    | some hc => exact .some (.call hc)
  | atLeast lhs rhs | atMost lhs rhs =>
    have hl := h lhs
    have hr := h rhs
    simp only [Command.resolve, GraphCommand.resolve]
    generalize env lhs = l, env' lhs = l' at hl
    generalize env rhs = r, env' rhs = r' at hr
    cases hl with
    | none => exact .none
    | some hl =>
      cases hr with
      | none => exact .none
      | some hr => exact .some (by constructor <;> assumption)

/-- A builder call on a graph that is there. -/
theorem Session.onBuilder_eq {β : Type} {s : Session α} {g : Nat} {b : Builder α}
    (hb : s.builder? g = some b) (act : Build α β) :
    (Session.onBuilder g act).answer s = act.answer b ∧
      ((Session.onBuilder g act).after s).builder? g = some (act.after b) := by
  obtain ⟨_, hG, rfl⟩ := Option.map_eq_some_iff.1 hb
  obtain ⟨m, hm, rfl⟩ := Option.map_eq_some_iff.1 hG
  have hlt := (List.getElem?_eq_some_iff.1 hm).1
  constructor
  · unfold Session.onBuilder
    rw [answer_onModel_eq hm, Action.answer_focus]
  · unfold Session.onBuilder
    rw [after_onModel hm, Action.after_focus]
    simp only [Session.builder?, Session.graph?, Session.putModel, List.getElem?_set_self hlt,
      Option.map_some]

namespace Script

/-! ## Outcomes -/

/-- One step has answered both handles. -/
def AnsweredTogether (outcomes outcomes' : List (Outcome α)) (id id' : NodeId) : Prop :=
  ∃ step, lookup outcomes step = some id ∧ lookup outcomes' step = some id'

/-- **The same became of a step**, with corresponding handles. -/
inductive Outcome.Matches (H : NodeId → NodeId → Prop) : Outcome α → Outcome α → Prop
  | node {id id' : NodeId} (h : H id id') : Matches H (.answered (.node id)) (.answered (.node id'))
  | constraint {c c' : Constraint} (h : c.Renamed H c') :
      Matches H (.answered (.constraint c)) (.answered (.constraint c'))
  | refused {e e' : Error α} (h : e.Renamed H e') : Matches H (.refused e) (.refused e')
  | unresolved : Matches H .unresolved .unresolved

section Outcomes

variable {H I : NodeId → NodeId → Prop} {o o' : Outcome α} {outcomes outcomes' : List (Outcome α)}
    {id id' : NodeId}

theorem Outcome.Matches.mono (h : o.Matches H o') (hHI : ∀ id id', H id id' → I id id') :
    o.Matches I o' := by
  cases h with
  | node h => exact .node (hHI _ _ h)
  | constraint h => exact .constraint ⟨hHI _ _ h.node, h.relation⟩
  | refused h => exact .refused ⟨h.anonymous, h.handles.imp hHI⟩
  | unresolved => exact .unresolved

theorem Outcome.Matches.id? (h : o.Matches H o') : Option.Rel H o.id? o'.id? := by
  cases h with
  | node h => exact .some h
  | constraint h => exact .some h.node
  | refused | unresolved => exact .none

/-- Steps to come take no handle away. -/
theorem AnsweredTogether.append (h : AnsweredTogether outcomes outcomes' id id')
    (more more' : List (Outcome α)) :
    AnsweredTogether (outcomes ++ more) (outcomes' ++ more') id id' := by
  obtain ⟨step, hid, hid'⟩ := h
  have hkept : ∀ {outcomes more : List (Outcome α)} {id : NodeId}, lookup outcomes step = some id →
      lookup (outcomes ++ more) step = some id := by
    intro outcomes more id h
    obtain ⟨o, ho, hid⟩ := Option.bind_eq_some_iff.1 h
    exact Option.bind_eq_some_iff.2 ⟨o, getElem?_append_of_eq_some ho more, hid⟩
  exact ⟨step, hkept hid, hkept hid'⟩

/-- Two handles that are answered together were so before, or **the last step has answered
them**. -/
theorem answeredTogether_concat (hlen : outcomes.length = outcomes'.length)
    (h : AnsweredTogether (outcomes ++ [o]) (outcomes' ++ [o']) id id') :
    AnsweredTogether outcomes outcomes' id id' ∨ (o.id? = some id ∧ o'.id? = some id') := by
  obtain ⟨step, hid, hid'⟩ := h
  rcases lt_trichotomy step outcomes.length with hlt | rfl | hgt
  · rw [lookup, List.getElem?_append_left hlt] at hid
    rw [lookup, List.getElem?_append_left (hlen ▸ hlt)] at hid'
    exact .inl ⟨step, hid, hid'⟩
  · rw [lookup, List.getElem?_concat_length] at hid
    rw [lookup, hlen, List.getElem?_concat_length] at hid'
    exact .inr ⟨hid, hid'⟩
  · rw [lookup, List.getElem?_eq_none (by simpa using hgt)] at hid
    cases hid

/-- The last step answers its handles together. -/
theorem answeredTogether_last (hlen : outcomes.length = outcomes'.length) (hid : o.id? = some id)
    (hid' : o'.id? = some id') : AnsweredTogether (outcomes ++ [o]) (outcomes' ++ [o']) id id' := by
  refine ⟨outcomes.length, ?_, ?_⟩
  · rw [lookup, List.getElem?_concat_length]
    exact hid
  · rw [lookup, hlen, List.getElem?_concat_length]
    exact hid'

/-- Steps of which the same became have answered handles together. -/
theorem rel_lookup (h : List.Forall₂ (Outcome.Matches H) outcomes outcomes') (step : Nat) :
    Option.Rel (AnsweredTogether outcomes outcomes') (lookup outcomes step)
    (lookup outcomes' step) := by
  have hrel : Option.Rel H (lookup outcomes step) (lookup outcomes' step) :=
    rel_bind (forall₂_rel_getElem? h step) fun _ _ ho => ho.id?
  generalize hid : lookup outcomes step = x, hid' : lookup outcomes' step = x' at hrel
  cases hrel with
  | none => exact .none
  | some _ => exact .some ⟨step, hid, hid'⟩

end Outcomes

end Script

/-- The reply to a builder call: the node, or a constraint on it. -/
def Reply.ofBuild (relation : Option Relation) (id : NodeId) : Reply α :=
  match relation with
  | none => .node id
  | some r => .constraint ⟨id, r⟩

theorem Reply.ofBuild_id? (relation : Option Relation) (id : NodeId) :
    (Reply.ofBuild relation id : Reply α).id? = some id := by
  cases relation <;> rfl

theorem Script.Outcome.Matches.ofBuild {H : NodeId → NodeId → Prop} {id id' : NodeId} (h : H id id')
    (relation : Option Relation) :
    Outcome.Matches (α := α) H (.answered (.ofBuild relation id))
    (.answered (.ofBuild relation id')) := by
  cases relation with
  | none => exact .node h
  | some r => exact .constraint ⟨h, rfl⟩

variable [Scalar α]

/-! ## Both runs -/

/-- Graphs that share constants and graphs that do not **hold the same nodes**. -/
theorem Builder.Unshares.mirrors {R : Nat → Nat → Prop} {b b' : Builder α} (h : b.Unshares R b')
    (hok : GraphOK b.nextId b.log b.graph) (hok' : GraphOK b'.nextId b'.log b'.graph) :
    b.graph.Mirrors R b'.graph where
  arena := hok.arena
  arena' := hok'.arena
  nodes := fun i k hik => by
    obtain ⟨n, m, hn, hm, hnm, hops⟩ := h.nodes i k hik
    exact ⟨n, m, hn, hm,
      ⟨hnm.tag, hnm.name_eq, hnm.dimension_eq, hnm.isMatrix_eq, hnm.isVariable_eq,
      hnm.denotes_eq⟩, hops⟩
  left := h.left
  right := h.right
  zeroRule := by rw [h.settings]

namespace Script

/-- **What both runs have come to**, the one that shares constants and the one that does not. -/
structure Level (R : Nat → Nat → Prop) (b b' : Builder α) (outcomes outcomes' : List (Outcome α))
    (s s' : Session α) : Prop where
  builder : s.builder? 0 = some b
  builder' : s'.builder? 0 = some b'
  ok : GraphOK b.nextId b.log b.graph
  ok' : GraphOK b'.nextId b'.log b'.graph
  unshares : b.Unshares R b'
  names : ∀ id id', AnsweredTogether outcomes outcomes' id id' →
    NamesTogether R b.graph.nodes b'.graph.nodes id id'
  outcomes : List.Forall₂ (Outcome.Matches (AnsweredTogether outcomes outcomes')) outcomes outcomes'

variable {R S : Nat → Nat → Prop} {b b' t t' : Builder α} {outcomes outcomes' : List (Outcome α)}
  {s s' u u' : Session α}

/-- Both runs begin with an empty graph. -/
theorem level_start (settings : Settings) :
    Level (α := α) (fun _ _ => False)
      ⟨{ settings := { settings with internParameters := true } }, 1, []⟩
      ⟨{ settings := { settings with internParameters := false } }, 1, []⟩ [] []
      (.start { settings with internParameters := true })
      (.start { settings with internParameters := false }) where
  builder := rfl
  builder' := rfl
  ok := graphOK_empty _ _ _
  ok' := graphOK_empty _ _ _
  unshares := by
    refine ⟨fun _ _ hik => hik.elim, fun i hi => ?_, fun k hk => ?_, rfl, by simp⟩
    · exact absurd hi (Nat.not_lt_zero i)
    · exact absurd hk (Nat.not_lt_zero k)
  names := by
    rintro id id' ⟨step, hid, -⟩
    cases hid
  outcomes := .nil

/-- **One more step**: its outcomes match, and the handles that it answers name the same node. -/
theorem Level.concat (h : Level R b b' outcomes outcomes' s s') {o o' : Outcome α}
    (hbuilder : u.builder? 0 = some t) (hbuilder' : u'.builder? 0 = some t')
    (hok : GraphOK t.nextId t.log t.graph) (hok' : GraphOK t'.nextId t'.log t'.graph)
    (hunshares : t.Unshares S t')
    (hold : ∀ id id', NamesTogether R b.graph.nodes b'.graph.nodes id id' →
      NamesTogether S t.graph.nodes t'.graph.nodes id id')
    (hnew : ∀ id id', o.id? = some id → o'.id? = some id' →
      NamesTogether S t.graph.nodes t'.graph.nodes id id')
    (ho : o.Matches (AnsweredTogether (outcomes ++ [o]) (outcomes' ++ [o'])) o') :
    Level S t t' (outcomes ++ [o]) (outcomes' ++ [o']) u u' := by
  refine ⟨hbuilder, hbuilder', hok, hok', hunshares, fun id id' hid => ?_, ?_⟩
  · rcases answeredTogether_concat h.outcomes.length_eq hid with hid | ⟨hlast, hlast'⟩
    · exact hold id id' (h.names id id' hid)
    · exact hnew id id' hlast hlast'
  · exact List.rel_append (h.outcomes.imp fun _ _ hm => hm.mono fun _ _ hid => hid.append _ _)
      (.cons ho .nil)

end Script

variable [DecidableEq α]

/-! ## Commands -/

/-- The command is a builder call on the first graph, which answers with a node or with a
constraint. -/
structure Command.Does (d : Command α NodeId) (act : Build α NodeId)
    (relation : Option Relation) : Prop where
  answer : ∀ s b, s.builder? 0 = some b →
    (Session.run d).answer s = (act.answer b).map (Reply.ofBuild relation)
  after : ∀ s b, s.builder? 0 = some b → ((Session.run d).after s).builder? 0 = some (act.after b)
  keeps : ∀ nextId log, Action.Keeps (BuilderOK nextId log) act

theorem does_call (c : Call α NodeId) : Command.Does (.graph 0 (.build c)) c.run none where
  answer s b hb := by
    change (do return Reply.node (← Session.onBuilder 0 c.run) :
      Action α (Session α) (Reply α)).answer s = _
    rw [Action.answer_return, (Session.onBuilder_eq hb _).1]
    rfl
  after s b hb := by
    change ((do return Reply.node (← Session.onBuilder 0 c.run) :
      Action α (Session α) (Reply α)).after s).builder? 0 = _
    rw [Action.after_return, (Session.onBuilder_eq hb _).2]
  keeps _ _ := keeps_call builderOK_keptByAdding c

/-- A constraint between two nodes is a call for their difference. -/
theorem does_constraint (lhs rhs : NodeId) (r : Relation) {d : Command α NodeId}
    (hd : Session.run d = do
      return Reply.constraint (← Session.onBuilder 0 (do return ⟨← Build.slack lhs rhs, r⟩))) :
    d.Does (Build.slack lhs rhs) (some r) where
  answer s b hb := by
    rw [hd, Action.answer_return, (Session.onBuilder_eq hb _).1, Action.answer_return]
    cases (Build.slack lhs rhs).answer b <;> rfl
  after s b hb := by
    rw [hd, Action.after_return, (Session.onBuilder_eq hb _).2, Action.after_return]
  keeps _ _ := keeps_slack builderOK_keptByAdding lhs rhs

namespace Script

/-! ## Scripts -/

variable {R : Nat → Nat → Prop} {b b' : Builder α} {outcomes outcomes' : List (Outcome α)}
    {s s' : Session α}

/-- **Calls that go the same way** leave both runs level. -/
theorem level_of_parallel (h : Level R b b' outcomes outcomes' s s') {d d' : Command α NodeId}
    {act act' : Build α NodeId} {relation : Option Relation} (hd : d.Does act relation)
    (hd' : d'.Does act' relation)
    (hparallel : Parallel (AnsweredTogether outcomes outcomes') R b b' (act b) (act' b')) :
    ∃ S t t', Level S t t' (outcomes ++ [.of ((Session.run d).answer s)])
      (outcomes' ++ [.of ((Session.run d').answer s')]) ((Session.run d).after s)
      ((Session.run d').after s') := by
  have hafter := hd.after s b h.builder
  have hafter' := hd'.after s' b' h.builder'
  have hok := (hd.keeps b.nextId b.log b ⟨h.ok, le_rfl, List.Subset.refl _⟩).graph
  have hok' := (hd'.keeps b'.nextId b'.log b' ⟨h.ok', le_rfl, List.Subset.refl _⟩).graph
  rw [hd.answer s b h.builder, hd'.answer s' b' h.builder']
  generalize hrun : act b = r, hrun' : act' b' = r' at hparallel
  cases hparallel with
  | @answered id id' t t' S hunshares hold hnew =>
    rw [Action.after_eq_of_ok hrun] at hafter hok
    rw [Action.after_eq_of_ok hrun'] at hafter' hok'
    rw [Action.answer_eq_ok.2 ⟨t, hrun⟩, Action.answer_eq_ok.2 ⟨t', hrun'⟩]
    refine ⟨S, t, t', h.concat hafter hafter' hok hok' hunshares hold (fun j j' hj hj' => ?_) ?_⟩
    · obtain rfl := Option.some.inj ((Reply.ofBuild_id? relation id).symm.trans hj)
      obtain rfl := Option.some.inj ((Reply.ofBuild_id? relation id').symm.trans hj')
      exact hnew
    · have hlast : AnsweredTogether (outcomes ++ [.answered (.ofBuild relation id)])
          (outcomes' ++ [.answered (.ofBuild relation id')]) id id' :=
        answeredTogether_last h.outcomes.length_eq (Reply.ofBuild_id? relation id)
          (Reply.ofBuild_id? relation id')
      exact .ofBuild hlast relation
  | @refused e e' he =>
    rw [Action.answer_eq_error.2 ⟨b, hrun⟩, Action.answer_eq_error.2 ⟨b', hrun'⟩]
    have hunchanged : act.after b = b := by rw [Action.after, hrun]
    have hunchanged' : act'.after b' = b' := by rw [Action.after, hrun']
    rw [hunchanged] at hafter hok
    rw [hunchanged'] at hafter' hok'
    refine ⟨R, b, b',
      h.concat hafter hafter' hok hok' h.unshares (fun _ _ hid => hid) (fun _ _ hj _ => ?_) ?_⟩
    · cases hj
    · exact .refused ⟨he.anonymous, he.handles.imp fun _ _ hid => hid.append _ _⟩

/-- **One step** leaves both runs level. -/
theorem level_step (h : Level R b b' outcomes outcomes' s s') {c : Command α Nat} (hc : c.Builds) :
    ∃ S t t', Level S t t' (outcomes ++ [(step c outcomes s).1])
      (outcomes' ++ [(step c outcomes' s').1])
      (step c outcomes s).2 (step c outcomes' s').2 := by
  have hresolved := hc.resolve (rel_lookup h.outcomes)
  generalize hd : c.resolve (lookup outcomes) = x,
    hd' : c.resolve (lookup outcomes') = x' at hresolved
  cases hresolved with
  | none =>
    rw [step_of_none hd, step_of_none hd']
    refine ⟨R, b, b', h.concat h.builder h.builder' h.ok h.ok' h.unshares (fun _ _ hid => hid)
      (fun _ _ hj _ => ?_) .unresolved⟩
    cases hj
  | some halike =>
    rw [step_of_some hd, step_of_some hd']
    cases halike with
    | call hcall =>
      exact level_of_parallel h (does_call _) (does_call _)
        (parallel_call h.ok h.ok' h.unshares h.names hcall)
    | atLeast hl hr | atMost hl hr =>
      exact level_of_parallel h (does_constraint _ _ _ rfl) (does_constraint _ _ _ rfl)
        (parallel_slack h.ok h.ok' h.unshares h.names hl hr)

/-- **A script** leaves both runs level. -/
theorem level_run (script : List (Command α Nat)) :
    ∀ {R b b' outcomes outcomes' s s'}, Level (α := α) R b b' outcomes outcomes' s s' →
      (∀ c ∈ script, c.Builds) →
      ∃ S t t', Level S t t' (run script outcomes s).1 (run script outcomes' s').1
        (run script outcomes s).2 (run script outcomes' s').2 := by
  induction script with
  | nil => exact fun h _ => ⟨_, _, _, h⟩
  | cons c script ih =>
    intro R b b' outcomes outcomes' s s' h hscript
    obtain ⟨S, t, t', hstep⟩ := level_step h (hscript c List.mem_cons_self)
    exact ih hstep fun d hd => hscript d (List.mem_cons_of_mem c hd)

end Script

/-- **Sharing equal constants cannot be observed.** A script of builder calls, refused ones
among them, is carried out under two settings that differ in whether equal constants are shared.
Step by step, the same calls are answered, and refused with the same error. Handles that one
step has answered name nodes of the same size, tag and name; whatever evaluations have left in
the caches, these nodes accept the same points with the same values, and compile alike to
programs that answer alike. -/
theorem interning_unobservable (settings : Settings) {script : List (Command α Nat)}
    (hscript : ∀ c ∈ script, c.Builds) :
    let shared := Script.run script [] (.start { settings with internParameters := true })
    let unshared := Script.run script [] (.start { settings with internParameters := false })
    let together := Script.AnsweredTogether shared.1 unshared.1
    List.Forall₂ (Script.Outcome.Matches together) shared.1 unshared.1 ∧
      ∃ G G', shared.2.graph? 0 = some G ∧ unshared.2.graph? 0 = some G' ∧
        ∀ g g' : Graph α, G.blank = g.blank → G'.blank = g'.blank →
          g.Indistinguishable together g' := by
  obtain ⟨R, b, b', h⟩ := Script.level_run script (Script.level_start settings) hscript
  obtain ⟨G, hG, rfl⟩ := Option.map_eq_some_iff.1 h.builder
  obtain ⟨G', hG', rfl⟩ := Option.map_eq_some_iff.1 h.builder'
  refine ⟨h.outcomes, G, G', hG, hG', fun g g' hg hg' => ?_⟩
  have hmirrors : G.Mirrors R G' := h.unshares.mirrors h.ok h.ok'
  refine (hmirrors.of_blank_eq hg hg').indistinguishable fun id id' hid => ?_
  have halike : Alike G.nodes g.nodes := (Arena.blank_eq_iff.1 (Graph.blank_eq_iff.1 hg).1).1
  have halike' : Alike G'.nodes g'.nodes := (Arena.blank_eq_iff.1 (Graph.blank_eq_iff.1 hg').1).1
  exact (h.names id id' hid).alike halike halike'

/-- The same number twice, as a factor and under a reciprocal, with a call that is refused in
between, and a constraint on the sum. -/
def repeatedScript : List (Command ℚ Nat) :=
  [.graph 0 (.build (.taggedVariable 1 .nonneg)), .graph 0 (.build (.scalar 2)),
    .graph 0 (.build (.scalar 2)), .graph 0 (.build (.component 0 5)), .graph 0 (.build (.mul 0 1)),
    .graph 0 (.build (.reciprocal 2)), .graph 0 (.build (.add 4 5)), .graph 0 (.atLeast 6 1)]

/-- One graph has a node less, and the handles of the sums differ, but not their values. -/
theorem interning_unobservable_twice : ∃ G G' : Graph ℚ,
    (Script.run repeatedScript [] (.start { internParameters := true })).2.graph? 0 = some G ∧
    (Script.run repeatedScript [] (.start { internParameters := false })).2.graph? 0 = some G' ∧
    G'.nodes.length = G.nodes.length + 1 ∧
    (Graph.evaluate ⟨5⟩ [3] [1]).answer G = .ok [13 / 2] ∧
    (Graph.evaluate ⟨6⟩ [3] [1]).answer G' = .ok [13 / 2] := by
  let G := ((Script.run repeatedScript [] (.start { internParameters := true })).2.graph? 0).getD {}
  let G' :=
    ((Script.run repeatedScript [] (.start { internParameters := false })).2.graph? 0).getD {}
  have hG : (Script.run repeatedScript [] (.start { internParameters := true })).2.graph? 0 =
      some G := by
    decide +kernel
  have hG' : (Script.run repeatedScript [] (.start { internParameters := false })).2.graph? 0 =
      some G' := by
    decide +kernel
  have hbuilds : ∀ c ∈ repeatedScript, c.Builds := by
    simp only [repeatedScript, List.forall_mem_cons, List.not_mem_nil, false_imp_iff,
      implies_true, and_true]
    exact ⟨.call _, .call _, .call _, .call _, .call _, .call _, .call _, .atLeast _ _⟩
  obtain ⟨-, _, _, hfirst, hsecond, hsame⟩ := interning_unobservable {} hbuilds
  obtain rfl := Option.some.inj (hG.symm.trans hfirst)
  obtain rfl := Option.some.inj (hG'.symm.trans hsecond)
  obtain ⟨commands, hrun⟩ :=
    Script.exists_runAll repeatedScript [] (.start { internParameters := true })
  have hreached :
      (Session.runAll (.newGraph { internParameters := true } :: commands) {}).graph? 0 = some G :=
    hrun ▸ hG
  have haccept : G.evaluable ⟨5⟩ [3] [1] = .ok 4 :=
    evaluable_of_all hreached (by decide +kernel) (by decide +kernel) rfl
  obtain ⟨G₁, hanswer, -⟩ := Graph.evaluate_spec (graphOK_runAll hreached).arena haccept
  have hvalue : denote G.nodes 4 ⟨[3], [1]⟩ = [13 / 2] := by decide +kernel
  rw [hvalue] at hanswer
  have hsum := Action.answer_eq_ok.2 ⟨G₁, hanswer⟩
  exact ⟨G, G', hG, hG', by decide +kernel, hsum,
    ((hsame G G' rfl rfl).evaluate ⟨5⟩ ⟨6⟩ ⟨6, by decide +kernel, by decide +kernel⟩
      [3] [1] [13 / 2]).1 hsum⟩

end MixedMonotone
