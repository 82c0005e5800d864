import Mathlib
import MixedMonotone.Proofs.Histories
import MixedMonotone.Proofs.Identity

/-!
# How arenas grow

A session holds the arenas of its graphs and those of its programs. Commands copy arenas, leave
values in them, and add nodes.

* `Session.arena?`: the arena at a place.
* `Session.Since`: all that a command can do to them: **at most one arena grows**, a graph's, and by
  new handles only; everything else is there already.
* `since_onBuilder`, `since_onGraph`, `since_onProgram`: calls on a part of a session.
* `since_run`: **every command** does no more than that.
-/

namespace MixedMonotone

variable {α β : Type}

/-! ## The arenas of a session -/

/-- Where an arena is: in a model, as its graph's or as that of one of its programs. -/
structure Place where
  model : Nat
  program : Option Nat
  deriving DecidableEq

/-- Where the arena of a graph is. -/
def Place.graph (g : Nat) : Place := ⟨g, none⟩

/-- The arena of the graph, or of one of the programs. -/
def Model.arena? (m : Model α) : Option Nat → Option (Arena α)
  | none => some m.graph.arena
  | some p => m.programs[p]?.map Program.arena

/-- **The arena at a place.** -/
def Session.arena? (s : Session α) (P : Place) : Option (Arena α) :=
  s.models[P.model]?.bind (·.arena? P.program)

/-- The arena at the place knows the handle. -/
def Session.KnowsAt (s : Session α) (P : Place) (id : NodeId) : Prop :=
  ∃ a n, s.arena? P = some a ∧ a.node id = .ok n

theorem Session.arena?_eq {s : Session α} {g : Nat} {m : Model α} (hm : s.models[g]? = some m)
    (q : Option Nat) : s.arena? ⟨g, q⟩ = m.arena? q := by
  rw [arena?, hm, Option.bind_some]

theorem Session.models_put {s : Session α} {g : Nat} {m m' : Model α} (hm : s.models[g]? = some m)
    (nextId : Nat) (log : List Event) :
    ({ s.putModel g m' with nextId, log } : Session α).models[g]? = some m' := by
  change (s.models.set g m')[g]? = some m'
  rw [List.getElem?_set_self (List.getElem?_eq_some_iff.1 hm).1]

/-- Replacing a model leaves the arenas of all others. -/
theorem Session.arena?_put {s : Session α} {g : Nat} {m : Model α} (hm : s.models[g]? = some m)
    (m' : Model α) (nextId : Nat) (log : List Event) (P : Place) :
    ({ s.putModel g m' with nextId, log } : Session α).arena? P =
      if P.model = g then m'.arena? P.program else s.arena? P := by
  by_cases hP : P.model = g
  · rw [if_pos hP, arena?, hP, models_put hm, Option.bind_some]
  · rw [if_neg hP, arena?, arena?]
    change (s.models.set g m')[P.model]?.bind _ = _
    rw [List.getElem?_set_ne (Ne.symm hP)]

/-! ## What a command can do -/

/-- The node `m` of the arena `a` at the place was there in `s`, at the same place if that
existed. -/
def Session.Had (s : Session α) (P : Place) (a : Arena α) (m : Node α) : Prop :=
  ∃ Q b, s.arena? Q = some b ∧ b.Shares a m ∧ ((s.arena? P).isSome → Q = P)

/-- **What has happened from `s` to `t`.** No arena was lost, and what the arenas hold was there,
but for the nodes that were added at one place, under handles that were issued since. -/
structure Session.Since (s : Session α) (grown : Option Place) (t : Session α) : Prop where
  counter : s.nextId ≤ t.nextId
  stays : ∀ P, (s.arena? P).isSome → (t.arena? P).isSome
  nodes : ∀ P a, t.arena? P = some a → ∀ m ∈ a.nodes,
    s.Had P a m ∨ (grown = some P ∧ s.nextId ≤ m.id.number ∧ m.id.number < t.nextId)

namespace Session.Since

variable {s t u : Session α} {grown : Option Place}

/-- Nothing that was there has changed. -/
theorem of_arenas (hid : s.nextId ≤ t.nextId) (h : ∀ P, t.arena? P = s.arena? P) :
    s.Since grown t :=
  ⟨hid, fun P hP => by rwa [h P], fun P a ha _ hm => .inl ⟨P, a, h P ▸ ha, .refl hm, fun _ => rfl⟩⟩

theorem refl : s.Since grown s := of_arenas le_rfl fun _ => rfl

/-- One step after another, if no arena grew in the first one. -/
theorem trans (h : s.Since none t) (h' : t.Since grown u) : s.Since grown u := by
  refine ⟨h.counter.trans h'.counter, fun P hP => h'.stays P (h.stays P hP), fun P a ha m hm => ?_⟩
  rcases h'.nodes P a ha m hm with ⟨Q, b, hb, ⟨n, hn, hid, heq⟩, hQ⟩ | ⟨hgrown, hlow, hhigh⟩
  · rcases h.nodes Q b hb n hn with ⟨Q', b', hb', ⟨n', hn', hid', heq'⟩, hQ'⟩ | ⟨hnone, -⟩
    · refine .inl ⟨Q', b', hb', ⟨n', hn', hid'.trans hid, heq'.trans heq⟩, fun hP => ?_⟩
      obtain rfl := hQ (h.stays P hP)
      exact hQ' hP
    · cases hnone
  · exact .inr ⟨hgrown, h.counter.trans hlow, hhigh⟩

/-- Replacing a model by one whose arenas hold what the old ones held, but for new
nodes at one place. -/
theorem put {g : Nat} {m m' : Model α} (hm : s.models[g]? = some m) {nextId : Nat}
    {log : List Event} (hid : s.nextId ≤ nextId)
    (hstays : ∀ q, (m.arena? q).isSome → (m'.arena? q).isSome)
    (h : ∀ q a', m'.arena? q = some a' → ∀ n ∈ a'.nodes,
      (∃ r a, m.arena? r = some a ∧ a.Shares a' n ∧ ((m.arena? q).isSome → r = q)) ∨
        (grown = some ⟨g, q⟩ ∧ s.nextId ≤ n.id.number ∧ n.id.number < nextId)) :
    s.Since grown { s.putModel g m' with nextId, log } := by
  have harena := fun P => s.arena?_put hm m' nextId log P
  refine ⟨hid, ?_, ?_⟩
  · rintro ⟨g', q⟩ hP
    rw [harena]
    by_cases hg : g' = g
    · subst hg
      rw [arena?_eq hm] at hP
      rw [if_pos rfl]
      exact hstays q hP
    · rwa [if_neg hg]
  · rintro ⟨g', q⟩ a' ha' n hn
    rw [harena] at ha'
    by_cases hg : g' = g
    · subst hg
      rw [if_pos rfl] at ha'
      rcases h q a' ha' n hn with ⟨r, a, ha, hshares, hrq⟩ | hnew
      · refine .inl ⟨⟨g', r⟩, a, (arena?_eq hm r).trans ha, hshares, fun hP => ?_⟩
        rw [arena?_eq hm] at hP
        rw [hrq hP]
      · exact .inr hnew
    · rw [if_neg hg] at ha'
      exact .inl ⟨_, a', ha', .refl hn, fun _ => rfl⟩

end Session.Since

section Added

variable {γ : Type} {s : Session α} {g : Nat} {grown : Option Place}

/-- A call that goes on with an answer. -/
theorem since_bind {act : Action α (Session α) β} {next : β → Action α (Session α) γ}
    (h : s.Since none (act.after s))
    (hnext : ∀ b, act.answer s = .ok b → (act.after s).Since grown ((next b).after (act.after s))) :
    s.Since grown ((act >>= next).after s) := by
  rw [Action.after_bind]
  cases hact : act.answer s with
  | ok b => exact h.trans (hnext b hact)
  | error e => exact h.trans .refl

/-- An answer put into another form. -/
theorem since_map {act : Action α (Session α) β} (h : s.Since grown (act.after s)) (f : β → γ) :
    s.Since grown ((do return f (← act) : Action α (Session α) γ).after s) := by
  rwa [Action.after_return]

/-- A call on a model that is there. -/
theorem since_onModel {act : Model α → Action α (Session α) β}
    (h : ∀ m, s.models[g]? = some m → s.Since grown ((act m).after s)) :
    s.Since grown ((Session.onModel g act).after s) :=
  onModel_after (I := s.Since grown) .refl h

/-- A program may be added whose nodes are there already. -/
theorem since_addProgram {p : Program α}
    (h : ∀ m, s.models[g]? = some m → ∃ r a, m.arena? r = some a ∧
    ∀ n ∈ p.nodes, a.Shares p.arena n) : s.Since none ((Session.addProgram g p).after s) := by
  refine since_onModel fun m hm => .put hm le_rfl (fun q hq => ?_) fun q a' ha' n hn => ?_
  · cases q with
    | none => exact hq
    | some k =>
      have hk : k < m.programs.length := by simpa [Model.arena?] using hq
      simpa [Model.arena?] using hk.le
  · cases q with
    | none => exact .inl ⟨none, a', ha', .refl hn, fun _ => rfl⟩
    | some k =>
      obtain ⟨p', hp', rfl⟩ := Option.map_eq_some_iff.1 ha'
      rcases getElem?_concat_eq_some_iff.1 hp' with hold | ⟨rfl, rfl⟩
      · have ha : m.arena? (some k) = some p'.arena := Option.map_eq_some_iff.2 ⟨p', hold, rfl⟩
        exact .inl ⟨some k, p'.arena, ha, .refl hn, fun _ => rfl⟩
      · obtain ⟨r, a, ha, hshares⟩ := h m hm
        refine .inl ⟨r, a, ha, hshares n hn, fun hsome => ?_⟩
        simp [Model.arena?] at hsome

/-- A graph may be added whose nodes are there already. -/
theorem since_addGraph {G : Graph α}
    (h : ∀ n ∈ G.nodes, ∃ Q a, s.arena? Q = some a ∧ a.Shares G.arena n) :
    s.Since none ((Session.addGraph G).after s) := by
  have harena : ∀ P, ((Session.addGraph G).after s).arena? P =
      (s.models ++ [{ graph := G }])[P.model]?.bind (·.arena? P.program) := fun _ => rfl
  have hold : ∀ P : Place, P.model < s.models.length →
      ((Session.addGraph G).after s).arena? P = s.arena? P := by
    intro P hP
    rw [harena, List.getElem?_append_left hP, Session.arena?]
  have hbeyond : ∀ P : Place, s.models.length ≤ P.model → s.arena? P = none := by
    intro P hP
    rw [Session.arena?, List.getElem?_eq_none hP, Option.bind_none]
  refine ⟨le_rfl, fun P hP => ?_, fun P a ha n hn => ?_⟩
  · rcases lt_or_ge P.model s.models.length with hlt | hge
    · rwa [hold P hlt]
    · rw [hbeyond P hge] at hP
      cases hP
  · rcases lt_or_ge P.model s.models.length with hlt | hge
    · rw [hold P hlt] at ha
      exact .inl ⟨P, a, ha, .refl hn, fun _ => rfl⟩
    · rw [harena, List.getElem?_append_right hge] at ha
      obtain ⟨m, hm, hma⟩ := Option.bind_eq_some_iff.1 ha
      obtain rfl : m = { graph := G } := by simpa using List.mem_of_getElem? hm
      cases hprogram : P.program with
      | some p => rw [hprogram] at hma; simp [Model.arena?] at hma
      | none =>
        rw [hprogram] at hma
        obtain rfl := Option.some.inj hma
        obtain ⟨Q, b, hb, hshares⟩ := h n hn
        refine .inl ⟨Q, b, hb, hshares, fun hsome => ?_⟩
        rw [hbeyond P hge] at hsome
        cases hsome

/-- Reading a program leaves it where it is. -/
theorem get_program {p : Nat} {program : Program α} {m : Model α}
    (h : (Session.onProgram g p get).answer s = .ok program)
    (hm : ((Session.onProgram g p get).after s).models[g]? = some m) :
    m.programs[p]? = some program := by
  obtain ⟨m₀, hm₀, hprogram⟩ := answer_onModel h
  cases hp : m₀.programs[p]? with
  | none =>
    rw [hp] at hprogram
    cases hprogram
  | some q =>
    rw [hp, Action.answer_focus] at hprogram
    obtain rfl := Except.ok.inj hprogram
    have hafter : ((Session.onProgram g p get).after s) =
        s.putModel g { m₀ with programs := m₀.programs.set p q } := by
      unfold Session.onProgram
      rw [after_onModel hm₀, hp, Action.after_focus]
      rfl
    rw [hafter] at hm
    obtain rfl := Option.some.inj ((Session.models_put hm₀ s.nextId s.log).symm.trans hm)
    exact List.getElem?_set_self (List.getElem?_eq_some_iff.1 hp).1

/-- Reading a graph leaves the session as it was. -/
theorem get_graph {G : Graph α} (h : (Session.onGraph g get).answer s = .ok G) :
    s.graph? g = some G ∧ (Session.onGraph g get).after s = s := by
  obtain ⟨m, hm, hgraph⟩ := answer_onModel h
  rw [Action.answer_focus, Action.answer_focus] at hgraph
  obtain rfl := Except.ok.inj hgraph
  refine ⟨by rw [Session.graph?, hm, Option.map_some], ?_⟩
  have hset : s.models.set g m = s.models := by
    obtain ⟨hg, rfl⟩ := List.getElem?_eq_some_iff.1 hm
    exact List.set_getElem_self hg
  unfold Session.onGraph Session.onBuilder
  rw [after_onModel hm, Action.after_focus, Action.after_focus]
  change ({ s with models := s.models.set g m } : Session α) = s
  rw [hset]

/-- Compiling leaves the graph and the counter. -/
theorem compile_leaves (extraction : Extraction) (root : NodeId) (constraints : List Constraint)
    (b : Builder α) : ((Build.compile extraction root constraints).after b).graph = b.graph ∧
      ((Build.compile extraction root constraints).after b).nextId = b.nextId := by
  unfold Action.after Build.compile
  cases b.graph.compile extraction root constraints <;> exact ⟨rfl, rfl⟩

theorem answer_compile {extraction : Extraction} {root : NodeId} {constraints : List Constraint}
    {b : Builder α} : (Build.compile extraction root constraints).answer b =
      b.graph.compile extraction root constraints := by
  unfold Action.answer Build.compile
  cases b.graph.compile extraction root constraints <;> rfl

/-- Compiling changes no arena. -/
theorem since_compile (extraction : Extraction) (root : NodeId) (constraints : List Constraint) :
    s.Since none ((Session.onBuilder g (Build.compile extraction root constraints)).after s) := by
  refine since_onModel fun m hm => ?_
  obtain ⟨hgraph, hid⟩ := compile_leaves extraction root constraints ⟨m.graph, s.nextId, s.log⟩
  rw [Action.after_focus, hgraph, hid]
  exact .put hm le_rfl (fun q hq => hq) fun q a' ha' n hn =>
    .inl ⟨q, a', ha', .refl hn, fun _ => rfl⟩

/-- The graph that was compiled is still there. -/
theorem graph_compile {extraction : Extraction} {root : NodeId} {constraints : List Constraint}
    {p : Program α}
    (h : (Session.onBuilder g (Build.compile extraction root constraints)).answer s = .ok p)
    {m' : Model α}
    (hm' : ((Session.onBuilder g (Build.compile extraction root constraints)).after s).models[g]? =
      some m') :
    ∃ m, s.models[g]? = some m ∧ m'.graph = m.graph ∧
      m.graph.compile extraction root constraints = .ok p := by
  obtain ⟨m, hm, hp⟩ := answer_onModel h
  rw [Action.answer_focus, answer_compile] at hp
  obtain ⟨hgraph, -⟩ := compile_leaves extraction root constraints ⟨m.graph, s.nextId, s.log⟩
  unfold Session.onBuilder at hm'
  rw [after_onModel hm, Action.after_focus] at hm'
  obtain rfl := Option.some.inj ((Session.models_put hm _ _).symm.trans hm')
  exact ⟨m, hm, hgraph, hp⟩

end Added

section Steps

variable [Scalar α] {s : Session α} {g : Nat}

/-- What a builder has become after some nodes were added. -/
structure Builder.GrownFrom (b₀ b : Builder α) : Prop where
  ok : BuilderOK b₀.nextId b₀.log b
  nodes : ∃ new, b.graph.nodes = b₀.graph.nodes ++ new ∧ ∀ m ∈ new, b₀.nextId ≤ m.id.number

theorem grownFrom_keptByAdding (b₀ : Builder α) : Builder.KeptByAdding b₀.GrownFrom where
  nodes _ hb := hb.ok.graph.nodes
  append b d hb hd := by
    obtain ⟨new, hnodes, hnew⟩ := hb.nodes
    refine ⟨hb.ok.append hd, new ++ [b.nodeOf d], ?_, fun m hm => ?_⟩
    · rw [← List.append_assoc, ← hnodes]
      rfl
    · rcases List.mem_append.1 hm with hm | hm
      · exact hnew m hm
      · obtain rfl := List.mem_singleton.1 hm
        exact hb.ok.issued
  record b _ _ hb := ⟨builderOK_keptByAdding.record b _ _ hb.ok, hb.nodes⟩

/-- A builder call may let its graph grow. -/
theorem since_onBuilder (hs : SessionOK s) {act : Build α β}
    (hact : ∀ b₀ : Builder α, Action.Keeps b₀.GrownFrom act) :
    s.Since (some (.graph g)) ((Session.onBuilder g act).after s) := by
  refine since_onModel fun m hm => ?_
  have hgraph := (hs.model hm).graph
  obtain ⟨hok, new, hnodes, hnew⟩ := hact ⟨m.graph, s.nextId, s.log⟩ _
    ⟨⟨hgraph, le_rfl, List.Subset.refl _⟩, [], (List.append_nil _).symm, by simp⟩
  rw [Action.after_focus]
  refine .put hm hok.issued (fun q hq => by cases q <;> exact hq) fun q a' ha' n hn => ?_
  cases q with
  | some p => exact .inl ⟨some p, a', ha', .refl hn, fun _ => rfl⟩
  | none =>
    obtain rfl := Option.some.inj ha'
    have hmem := hn
    change n ∈ Graph.nodes _ at hn
    rw [hnodes] at hn
    rcases List.mem_append.1 hn with hold | hadded
    -- a node that stood there reads what it read before
    · obtain ⟨i, hi⟩ := List.mem_iff_getElem?.1 hold
      have hlen := (List.getElem?_eq_some_iff.1 hi).1
      have hlt : ∀ k ∈ n.operands, k < m.graph.nodes.length := fun k hk =>
        (hgraph.nodes.before hi k hk).trans hlen
      refine .inl ⟨none, m.graph.arena, rfl, ⟨n, hold, rfl, ?_⟩, fun _ => rfl⟩
      change n.identity m.graph.nodes = n.identity (Graph.nodes _)
      rw [hnodes, Node.identity_append hlt]
    · exact .inr ⟨rfl, hnew n hadded, hok.graph.issued n hmem⟩

/-- An evaluation of a graph adds nothing. -/
theorem since_onGraph (hs : SessionOK s) {act : Action α (Graph α) β}
    (hact : ∀ P : Graph α → Prop, Graph.IgnoresCaches P → Action.Keeps P act) :
    s.Since none ((Session.onGraph g act).after s) := by
  refine since_onModel fun m hm => ?_
  have hblank := Graph.blank_after hact (hs.model hm).graph.arena
  rw [Action.after_focus, Action.after_focus]
  refine .put hm le_rfl (fun q hq => by cases q <;> exact hq) fun q a' ha' n hn => ?_
  cases q with
  | some p => exact .inl ⟨some p, a', ha', .refl hn, fun _ => rfl⟩
  | none =>
    obtain rfl := Option.some.inj ha'
    exact .inl ⟨none, m.graph.arena, rfl, .of_blank_eq (Graph.blank_eq_iff.1 hblank).1 hn,
      fun _ => rfl⟩

/-- An evaluation of a program adds nothing. -/
theorem since_onProgram (hs : SessionOK s) {p : Nat} {act : Action α (Program α) β}
    (hact : ∀ P : Program α → Prop, Program.IgnoresCaches P → Action.Keeps P act) :
    s.Since none ((Session.onProgram g p act).after s) := by
  refine since_onModel fun m hm => ?_
  cases hp : m.programs[p]? with
  | none => exact .of_arenas le_rfl fun _ => rfl
  | some program =>
    obtain ⟨settings, hok⟩ := (hs.model hm).programs program (List.mem_of_getElem? hp)
    have hblank := Program.blank_after hact hok
    have hlt := (List.getElem?_eq_some_iff.1 hp).1
    rw [Action.after_focus]
    refine .put hm le_rfl (fun q hq => ?_) fun q a' ha' n hn => ?_
    · cases q with
      | none => exact hq
      | some k => simpa [Model.arena?] using hq
    · cases q with
      | none => exact .inl ⟨none, a', ha', .refl hn, fun _ => rfl⟩
      | some k =>
        by_cases hk : k = p
        · subst hk
          simp only [Model.arena?, List.getElem?_set_self hlt, Option.map_some,
            Option.some.injEq] at ha'
          subst ha'
          refine .inl ⟨some k, program.arena, by rw [Model.arena?, hp]; rfl, ?_, fun _ => rfl⟩
          exact .of_blank_eq (Program.blank_eq_iff.1 hblank).1 hn
        · refine .inl ⟨some k, a', ?_, .refl hn, fun _ => rfl⟩
          simpa only [Model.arena?, List.getElem?_set_ne (Ne.symm hk)] using ha'

/-! ## Commands -/

theorem since_runProgram (hs : SessionOK s) (p : Nat) (c : ProgramCommand α NodeId) :
    s.Since none ((Session.runProgram g p c).after s) := by
  cases c with
  | objective x y =>
    exact since_map (since_onProgram hs fun P hP => Program.keeps_objective hP x y) _
  | evaluate node x y =>
    exact since_map (since_onProgram hs fun P hP => Program.keeps_evaluate hP node x y) _
  | fulfilled index x y =>
    exact since_map (since_onProgram hs fun P hP => Program.keeps_fulfilled hP index x y) _
  | constraintsHold x y =>
    exact since_map (since_onProgram hs fun P hP => Program.keeps_constraintsHold hP x y) _
  | duplicate =>
    refine since_bind (since_onProgram hs fun P _ => .get) fun program hprogram => since_map ?_ _
    refine since_addProgram fun m hm => ⟨some p, program.arena, ?_, fun n hn => .refl hn⟩
    rw [Model.arena?, get_program hprogram hm, Option.map_some]

variable [DecidableEq α]

theorem since_runGraph (hs : SessionOK s) (c : GraphCommand α NodeId) :
    s.Since (some (.graph g)) ((Session.runGraph g c).after s) := by
  have hnone : ∀ {t : Session α}, s.Since none t → s.Since (some (.graph g)) t :=
    fun h => h.trans .refl
  cases c with
  | build call =>
    exact since_map (since_onBuilder hs fun b => keeps_call (grownFrom_keptByAdding b) call) _
  | atLeast lhs rhs | atMost lhs rhs =>
    refine since_map (since_onBuilder hs fun b => .bind ?_ fun _ => .pure _) _
    exact keeps_slack (grownFrom_keptByAdding b) lhs rhs
  | evaluate node x y =>
    exact hnone (since_map (since_onGraph hs fun P hP => Graph.keeps_evaluate hP node x y) _)
  | evaluateScalar node x y =>
    exact hnone (since_map (since_onGraph hs fun P hP => Graph.keeps_evaluateScalar hP node x y) _)
  | fulfilled c x y =>
    exact hnone (since_map (since_onGraph hs fun P hP => Graph.keeps_fulfilled hP c x y) _)
  | compile extraction root constraints =>
    refine hnone (since_bind (since_compile ..) fun p hp =>
      since_map (since_addProgram fun m' hm' => ?_) _)
    -- the program copies the nodes of the graph
    obtain ⟨m, hm, hgraph, hcompile⟩ := graph_compile hp hm'
    have hcopies := (compile_spec (hs.model hm).graph.arena hcompile).copies
    exact ⟨none, m'.graph.arena, rfl, fun n hn => .of_copies (hgraph ▸ hcopies) hn⟩
  | duplicate =>
    refine hnone (since_bind (since_onGraph hs fun P _ => .get) fun G hG =>
      since_map (since_addGraph ?_) _)
    obtain ⟨hgraph, hafter⟩ := get_graph hG
    obtain ⟨m, hm, rfl⟩ := Option.map_eq_some_iff.1 hgraph
    rw [hafter]
    exact fun n hn => ⟨.graph g, m.graph.arena, Session.arena?_eq hm none, .refl hn⟩

/-- **What a command does to the arenas**: nothing is lost, and at most one graph grows, by nodes
with new handles. -/
theorem since_run (hs : SessionOK s) (c : Command α NodeId) :
    ∃ g, s.Since (some (.graph g)) ((Session.run c).after s) := by
  cases c with
  | freshId => exact ⟨0, .of_arenas (Nat.le_succ _) fun _ => rfl⟩
  | newGraph settings =>
    exact ⟨0, (since_map (since_addGraph (by simp [Graph.nodes])) _).trans .refl⟩
  | graph g c => exact ⟨g, since_runGraph hs c⟩
  | program g p c => exact ⟨g, (since_runProgram hs p c).trans .refl⟩

end Steps

end MixedMonotone
