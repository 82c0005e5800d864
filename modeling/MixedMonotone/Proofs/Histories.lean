import Mathlib
import MixedMonotone.Session.Script
import MixedMonotone.Proofs.Compilation
import MixedMonotone.Proofs.Exact

/-!
# Whatever happened before

A session is reached by commands of all kinds, refused ones among them. Every graph and
every program in it is well formed, so what the evaluations before left makes no
difference to the next one.

* `SessionOK`: all models are well formed.
* `keeps_run`: **every command keeps it**, and so does every sequence of commands
  (`sessionOK_runAll`).
* `Script.step_of_some`, `Script.exists_runAll`: scripts are such sequences, with
  references looked up.
* `answer_is_pure_value`: so what is answered is **the pure value**, whatever happened before.
-/

namespace MixedMonotone

variable {α β : Type}

/-- A call on a model that is answered is one on a model that is there. -/
theorem answer_onModel {s : Session α} {g : Nat} {act : Model α → Action α (Session α) β} {b : β}
    (h : (Session.onModel g act).answer s = .ok b) :
    ∃ m, s.models[g]? = some m ∧ (act m).answer s = .ok b := by
  unfold Action.answer Session.onModel at h
  cases hm : s.models[g]? with
  | none => simp [hm] at h
  | some m => rw [hm] at h; exact ⟨m, rfl, h⟩

/-- A call on a model that is there is carried out. -/
theorem answer_onModel_eq {s : Session α} {g : Nat} {m : Model α} (hm : s.models[g]? = some m)
    (act : Model α → Action α (Session α) β) :
    (Session.onModel g act).answer s = (act m).answer s := by
  unfold Action.answer Session.onModel
  rw [hm]

theorem after_onModel {s : Session α} {g : Nat} {m : Model α} (hm : s.models[g]? = some m)
    (act : Model α → Action α (Session α) β) :
    (Session.onModel g act).after s = (act m).after s := by
  unfold Action.after Session.onModel
  rw [hm]

/-- **A call on a model leaves the session as it was, or is carried out.** -/
theorem onModel_after {I : Session α → Prop} {s : Session α} {g : Nat}
    {act : Model α → Action α (Session α) β} (hs : I s)
    (h : ∀ m, s.models[g]? = some m → I ((act m).after s)) :
    I ((Session.onModel g act).after s) := by
  cases hm : s.models[g]? with
  | none =>
    unfold Action.after Session.onModel
    rwa [hm]
  | some m =>
    rw [after_onModel hm]
    exact h m hm

variable [Scalar α]

/-- The graph and the programs of a model are well formed. -/
structure ModelOK (nextId : Nat) (log : List Event) (m : Model α) : Prop where
  graph : GraphOK nextId log m.graph
  programs : ∀ p ∈ m.programs, ∃ s, ProgramOK s p

theorem ModelOK.mono {nextId nextId' : Nat} {log log' : List Event} {m : Model α}
    (h : ModelOK nextId log m) (hid : nextId ≤ nextId') (hlog : log ⊆ log') :
    ModelOK nextId' log' m :=
  ⟨h.graph.mono hid hlog, h.programs⟩

/-- **All models of a session are well formed.** -/
def SessionOK (s : Session α) : Prop := ∀ m ∈ s.models, ModelOK s.nextId s.log m

namespace SessionOK

variable {s : Session α} {g : Nat} {m : Model α}

theorem model (h : SessionOK s) (hm : s.models[g]? = some m) : ModelOK s.nextId s.log m :=
  h m (List.mem_of_getElem? hm)

/-- Replacing a model. -/
theorem put (h : SessionOK s) {nextId : Nat} {log : List Event} (hid : s.nextId ≤ nextId)
    (hlog : s.log ⊆ log) (hm : ModelOK nextId log m) :
    SessionOK { s.putModel g m with nextId, log } := by
  intro m' hm'
  rcases List.mem_or_eq_of_mem_set hm' with hm' | rfl
  · exact (h m' hm').mono hid hlog
  · exact hm

/-- Adding a model. -/
theorem add (h : SessionOK s) (hm : ModelOK s.nextId s.log m) :
    SessionOK { s with models := s.models ++ [m] } := by
  intro m' hm'
  rcases List.mem_append.1 hm' with hm' | hm'
  · exact h m' hm'
  · exact List.mem_singleton.1 hm' ▸ hm

end SessionOK

/-- A graph without nodes is well formed. -/
theorem graphOK_empty (settings : Settings) (nextId : Nat) (log : List Event) :
    GraphOK (α := α) nextId log { settings } := by
  refine ⟨⟨by simp [NodesOK], .nil, ?_⟩, ?_, ?_⟩
  · simp [Arena.position?]
  all_goals simp [Graph.nodes]

/-! ## Calls on a part of a session -/

/-- A call on a model that is there. -/
theorem keeps_onModel {g : Nat} {act : Model α → Action α (Session α) β}
    (h : ∀ s m, SessionOK s → s.models[g]? = some m → SessionOK ((act m).after s)) :
    Action.Keeps SessionOK (Session.onModel g act) :=
  fun s hs => onModel_after hs fun m => h s m hs

theorem keeps_onBuilder {g : Nat} {act : Build α β}
    (h : ∀ nextId log, Action.Keeps (BuilderOK nextId log) act) :
    Action.Keeps SessionOK (Session.onBuilder g act) := by
  refine keeps_onModel fun s m hs hm => ?_
  have hmodel := hs.model hm
  have hb := h s.nextId s.log ⟨m.graph, s.nextId, s.log⟩
    ⟨hmodel.graph, le_rfl, List.Subset.refl _⟩
  rw [Action.after_focus]
  exact hs.put hb.issued hb.reported ⟨hb.graph, hmodel.programs⟩

theorem keeps_onGraph {g : Nat} {act : Action α (Graph α) β}
    (h : ∀ nextId log, Action.Keeps (GraphOK nextId log) act) :
    Action.Keeps SessionOK (Session.onGraph g act) := by
  refine keeps_onBuilder fun nextId log => .focus fun b hb => ?_
  exact ⟨h _ _ _ hb.graph, hb.issued, hb.reported⟩

theorem keeps_onProgram {g p : Nat} {act : Action α (Program α) β}
    (h : ∀ s, Action.Keeps (ProgramOK s) act) :
    Action.Keeps SessionOK (Session.onProgram g p act) := by
  refine keeps_onModel fun s m hs hm => ?_
  have hmodel := hs.model hm
  cases hp : m.programs[p]? with
  | none => exact hs
  | some program =>
    rw [Action.after_focus]
    refine hs.put le_rfl (List.Subset.refl _) ⟨hmodel.graph, fun q hq => ?_⟩
    rcases List.mem_or_eq_of_mem_set hq with hq | rfl
    · exact hmodel.programs q hq
    · obtain ⟨settings, hok⟩ := hmodel.programs program (List.mem_of_getElem? hp)
      exact ⟨settings, h settings program hok⟩

/-- A well-formed program may be added. -/
theorem sessionOK_addProgram {s : Session α} (hs : SessionOK s) {g : Nat} {p : Program α}
    (hp : ∃ settings, ProgramOK settings p) : SessionOK ((Session.addProgram g p).after s) := by
  refine keeps_onModel (fun s m hs hm => ?_) s hs
  have hmodel := hs.model hm
  refine hs.put le_rfl (List.Subset.refl _) ⟨hmodel.graph, fun q hq => ?_⟩
  rcases List.mem_append.1 hq with hq | hq
  · exact hmodel.programs q hq
  · exact List.mem_singleton.1 hq ▸ hp

/-! ## Commands -/

theorem keeps_compile {nextId : Nat} {log : List Event} (extraction : Extraction) (root : NodeId)
    (constraints : List Constraint) :
    Action.Keeps (BuilderOK (α := α) nextId log) (Build.compile extraction root constraints) := by
  intro b hb
  unfold Action.after Build.compile
  cases b.graph.compile extraction root constraints with
  | error e => exact hb
  | ok p =>
    have hlog : b.log ⊆ b.log ++ [.programCompiled p.nodes.length b.graph.nodes.length
        p.constraints.length p.inputDimension] := List.subset_append_left _ _
    exact ⟨hb.graph.mono le_rfl hlog, hb.issued, List.Subset.trans hb.reported hlog⟩

theorem keeps_runProgram (g p : Nat) (c : ProgramCommand α NodeId) :
    Action.Keeps SessionOK (Session.runProgram g p c) := by
  cases c with
  | objective x y =>
    exact .bind (keeps_onProgram fun _ =>
      Program.keeps_objective Program.programOK_ignoresCaches x y) fun _ => .pure _
  | evaluate node x y =>
    exact .bind (keeps_onProgram fun _ =>
      Program.keeps_evaluate Program.programOK_ignoresCaches node x y) fun _ => .pure _
  | fulfilled index x y =>
    exact .bind (keeps_onProgram fun _ =>
      Program.keeps_fulfilled Program.programOK_ignoresCaches index x y) fun _ => .pure _
  | constraintsHold x y =>
    exact .bind (keeps_onProgram fun _ =>
      Program.keeps_constraintsHold Program.programOK_ignoresCaches x y) fun _ => .pure _
  | duplicate =>
    intro s hs
    have hafter := keeps_onProgram (g := g) (p := p) (fun _ => .get) s hs
    unfold Session.runProgram
    rw [Action.after_bind]
    cases h : (Session.onProgram g p get).answer s with
    | error e => exact hafter
    | ok program =>
      obtain ⟨m, hm, hprogram⟩ := answer_onModel h
      cases hp : m.programs[p]? with
      | none =>
        rw [hp] at hprogram
        cases hprogram
      | some q =>
        rw [hp, Action.answer_focus] at hprogram
        -- the copy is the program that was there
        obtain rfl := Except.ok.inj hprogram
        have hok := (hs.model hm).programs q (List.mem_of_getElem? hp)
        exact Action.Keeps.bind_at (sessionOK_addProgram hafter hok) fun _ => .pure _

variable [DecidableEq α]

theorem keeps_runGraph (g : Nat) (c : GraphCommand α NodeId) :
    Action.Keeps SessionOK (Session.runGraph g c) := by
  cases c with
  | build call =>
    exact .bind (keeps_onBuilder fun _ _ => keeps_call builderOK_keptByAdding call) fun _ => .pure _
  | atLeast lhs rhs | atMost lhs rhs =>
    exact .bind (keeps_onBuilder fun _ _ => .bind (keeps_slack builderOK_keptByAdding lhs rhs)
      fun _ => .pure _) fun _ => .pure _
  | evaluate node x y =>
    exact .bind (keeps_onGraph fun _ _ => Graph.keeps_evaluate graphOK_ignoresCaches node x y)
      fun _ => .pure _
  | evaluateScalar node x y =>
    exact .bind (keeps_onGraph fun _ _ => Graph.keeps_evaluateScalar graphOK_ignoresCaches node x y)
      fun _ => .pure _
  | fulfilled c x y =>
    exact .bind (keeps_onGraph fun _ _ => Graph.keeps_fulfilled graphOK_ignoresCaches c x y)
      fun _ => .pure _
  | compile extraction root constraints =>
    intro s hs
    have hafter :=
      keeps_onBuilder (g := g) (fun _ _ => keeps_compile extraction root constraints) s hs
    unfold Session.runGraph
    rw [Action.after_bind]
    cases h : (Session.onBuilder g (Build.compile extraction root constraints)).answer s with
    | error e => exact hafter
    | ok p =>
      obtain ⟨m, hm, hp⟩ := answer_onModel h
      rw [Action.answer_focus] at hp
      refine Action.Keeps.bind_at (sessionOK_addProgram hafter ⟨m.graph.settings, ?_⟩)
        fun _ => .pure _
      unfold Action.answer Build.compile at hp
      cases hcompile : m.graph.compile extraction root constraints with
      | error e => simp [hcompile] at hp
      | ok q =>
        simp only [hcompile, Except.ok.injEq] at hp
        exact hp ▸ (compile_spec (hs.model hm).graph.arena hcompile).ok
  | duplicate =>
    intro s hs
    have hafter := keeps_onGraph (g := g) (fun _ _ => .get) s hs
    unfold Session.runGraph
    rw [Action.after_bind]
    cases h : (Session.onGraph g get).answer s with
    | error e => exact hafter
    | ok graph =>
      obtain ⟨m, hm, hgraph⟩ := answer_onModel h
      rw [Action.answer_focus, Action.answer_focus] at hgraph
      -- the copy is the graph that was there, reading it left it as it was
      obtain rfl := Except.ok.inj hgraph
      refine Action.Keeps.bind_at (hafter.add ⟨?_, by simp⟩) fun _ => .pure _
      unfold Session.onGraph Session.onBuilder
      rw [after_onModel hm, Action.after_focus, Action.after_focus]
      exact (hs.model hm).graph

/-- **Every command keeps the models well formed.** -/
theorem keeps_run (c : Command α NodeId) : Action.Keeps SessionOK (Session.run c) := by
  cases c with
  | freshId => exact fun s hs m hm => (hs m hm).mono (Nat.le_succ _) (List.Subset.refl _)
  | newGraph settings => exact fun s hs => hs.add ⟨graphOK_empty settings s.nextId s.log, by simp⟩
  | graph g c => exact keeps_runGraph g c
  | program g p c => exact keeps_runProgram g p c

/-- What every command keeps holds after any sequence of commands. -/
theorem runAll_induction {I : Session α → Prop} (hI : ∀ c, Action.Keeps I (Session.run c))
    (commands : List (Command α NodeId)) : ∀ s, I s → I (Session.runAll commands s) := by
  unfold Session.runAll
  induction commands with
  | nil => exact fun s hs => hs
  | cons c commands ih => exact fun s hs => ih _ (hI c s hs)

/-- **Every reachable session is well formed.** -/
theorem sessionOK_runAll (commands : List (Command α NodeId)) :
    SessionOK (Session.runAll commands {}) :=
  runAll_induction keeps_run commands {} (by simp [SessionOK])

/-! ## Scripts -/

namespace Script

/-- What became of a call with this answer. -/
def Outcome.of : Except (Error α) (Reply α) → Outcome α
  | .ok r => .answered r
  | .error e => .refused e

section Step

variable {c : Command α Nat} {outcomes : List (Outcome α)} {s : Session α}

theorem step_of_none (h : c.resolve (lookup outcomes) = none) :
    step c outcomes s = (.unresolved, s) := by
  rw [step, h]

/-- A step whose references are all found is the call. -/
theorem step_of_some {d : Command α NodeId} (h : c.resolve (lookup outcomes) = some d) :
    step c outcomes s = (.of ((Session.run d).answer s), (Session.run d).after s) := by
  unfold step Action.answer Action.after
  rw [h]
  dsimp only
  cases Session.run d s <;> rfl

end Step

/-- What a script leaves is left by commands that name nodes by handles. -/
theorem exists_runAll (script : List (Command α Nat)) :
    ∀ (outcomes : List (Outcome α)) (s : Session α), ∃ commands,
      (run script outcomes s).2 = Session.runAll commands s := by
  induction script with
  | nil => exact fun _ s => ⟨[], rfl⟩
  | cons c script ih =>
    intro outcomes s
    obtain ⟨commands, hrest⟩ := ih (outcomes ++ [(step c outcomes s).1]) (step c outcomes s).2
    have hrun : (run (c :: script) outcomes s).2 = Session.runAll commands (step c outcomes s).2 :=
      hrest
    rw [hrun]
    cases hd : c.resolve (lookup outcomes) with
    | none => exact ⟨commands, by rw [step_of_none hd]⟩
    | some d =>
      refine ⟨d :: commands, ?_⟩
      rw [step_of_some hd]
      rfl

end Script

/-! ## Reachable graphs and programs -/

section Reachable

variable {commands : List (Command α NodeId)} {g : Nat} {G : Graph α}

theorem graphOK_runAll (hG : (Session.runAll commands {}).graph? g = some G) :
    GraphOK (Session.runAll commands {}).nextId (Session.runAll commands {}).log G := by
  obtain ⟨m, hm, rfl⟩ := Option.map_eq_some_iff.1 hG
  exact ((sessionOK_runAll commands).model hm).graph

theorem programOK_runAll {p : Nat} {P : Program α}
    (hP : (Session.runAll commands {}).program? g p = some P) : ∃ s, ProgramOK s P := by
  obtain ⟨m, hm, hp⟩ := Option.bind_eq_some_iff.1 hP
  exact ((sessionOK_runAll commands).model hm).programs P (List.mem_of_getElem? hp)

/-- Points as long as all variables of a graph are accepted. -/
theorem evaluable_of_all (hG : (Session.runAll commands {}).graph? g = some G) {id : NodeId}
    {x y : List α} {i : Nat} (hid : G.arena.position? id = some i)
    (hall : ∀ n ∈ G.nodes, n.isVariable = true → x.length = n.dimension ∧ y.length = n.dimension)
    (hlen : x.length = y.length) : G.evaluable id x y = .ok i :=
  (Graph.evaluable_eq_ok (graphOK_runAll hG).arena).2
    ⟨hid, fun _ n _ hn => hall n (List.mem_of_getElem? hn), hlen⟩

end Reachable

/-- **What is answered is the pure value, whatever happened before.** The pure value is given by
recursion on the operands from the nodes as they were when they were added: nothing that an
evaluation has left enters it. Every accepted evaluation of a reachable graph or program is
answered with it. -/
theorem answer_is_pure_value (commands : List (Command α NodeId)) {g : Nat} {G : Graph α}
    (hG : (Session.runAll commands {}).graph? g = some G) :
    (FollowsOperands G.blank.nodes (denote G.blank.nodes) ∧
      ∀ id x y i, G.evaluable id x y = .ok i →
        (Graph.evaluate id x y).answer G = .ok (denote G.blank.nodes i ⟨x, y⟩)) ∧
    ∀ p P, (Session.runAll commands {}).program? g p = some P →
      FollowsOperands P.blank.nodes (denote P.blank.nodes) ∧
        ∀ id x y i, P.evaluable id x y = .ok i →
          (Program.evaluate id x y).answer P = .ok (denote P.blank.nodes i ⟨x, y⟩) := by
  refine ⟨⟨?_, ?_⟩, fun p P hP => ⟨?_, ?_⟩⟩
  · have hok := (graphOK_runAll hG).nodes.alike (alike_map_blank G.nodes)
    exact denote_followsOperands hok.operands_lt
  · intro id x y i h
    obtain ⟨G', hrun, -⟩ := Graph.evaluate_spec (graphOK_runAll hG).arena h
    have hblank : denote G.blank.nodes = denote G.nodes :=
      (denote_alike (alike_map_blank G.nodes)).symm
    rw [hblank]
    exact Action.answer_eq_ok.2 ⟨G', hrun⟩
  · obtain ⟨s, hok⟩ := programOK_runAll hP
    exact denote_followsOperands (hok.nodes.alike (alike_map_blank P.nodes)).operands_lt
  · intro id x y i h
    obtain ⟨s, hok⟩ := programOK_runAll hP
    obtain ⟨P', hrun, -⟩ := Program.evaluate_spec hok h
    have hblank : denote P.blank.nodes = denote P.nodes :=
      (denote_alike (alike_map_blank P.nodes)).symm
    rw [hblank]
    exact Action.answer_eq_ok.2 ⟨P', hrun⟩

/-- The quotient of a variable by itself, compiled, and evaluated before, once in vain. -/
def quotientCommands : List (Command ℚ NodeId) :=
  [.newGraph {}, .graph 0 (.build (.taggedVariable 1 .nonneg)), .graph 0 (.build (.div ⟨1⟩ ⟨1⟩)),
    .graph 0 (.compile .everything ⟨2⟩ []), .program 0 0 (.evaluate ⟨2⟩ [1, 1] [1]),
    .program 0 0 (.objective [4] [9])]

/-- The shared operand is read along both routes, in the graph and in the program alike. -/
theorem answer_is_pure_value_div : ∃ G P, (Session.runAll quotientCommands {}).graph? 0 = some G ∧
    (Session.runAll quotientCommands {}).program? 0 0 = some P ∧
    (Graph.evaluate ⟨2⟩ [6] [2]).answer G = .ok [3] ∧
    (Program.evaluate ⟨2⟩ [6] [2]).answer P = .ok [3] := by
  let G := ((Session.runAll quotientCommands {}).graph? 0).getD {}
  let P := ((Session.runAll quotientCommands {}).program? 0 0).getD ⟨{}, 0, [], none, .rejectZero⟩
  have hG : (Session.runAll quotientCommands {}).graph? 0 = some G := by decide +kernel
  have hP : (Session.runAll quotientCommands {}).program? 0 0 = some P := by decide +kernel
  have hgraph : G.evaluable ⟨2⟩ [6] [2] = .ok 1 :=
    evaluable_of_all hG (by decide +kernel) (by decide +kernel) rfl
  have hprogram : P.evaluable ⟨2⟩ [6] [2] = .ok 1 := by decide +kernel
  have hvalue : denote G.blank.nodes 1 ⟨[6], [2]⟩ = [3] := by decide +kernel
  have hvalue' : denote P.blank.nodes 1 ⟨[6], [2]⟩ = [3] := by decide +kernel
  obtain ⟨⟨-, hanswer⟩, hprograms⟩ := answer_is_pure_value quotientCommands hG
  refine ⟨G, P, hG, hP, ?_, ?_⟩
  · rw [hanswer ⟨2⟩ [6] [2] 1 hgraph, hvalue]
  · rw [(hprograms 0 P hP).2 ⟨2⟩ [6] [2] 1 hprogram, hvalue']

end MixedMonotone
