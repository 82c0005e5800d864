import Mathlib
import MixedMonotone.Proofs.Growth
import MixedMonotone.Proofs.Ledgers

/-!
# What the log tells

All graphs of a session report into one log. Kept apart by graph, the reports are ledgers: **each
replays to its graph**.

* `Builder.Entered`, `Session.Entered`: what was reported since then is what was done to one graph.
* `entered_runGraph`, `entered_runProgram`: this is so for **every command on a graph**
  or on a program of it.
* `call_answers_new`: a builder call answers a new handle, or that of a constant which is shared.
* `log_silent`, `log_refused`, `run_compile`: evaluations and refused commands report nothing, and a
  compilation reports the program.
* `Session.emitted`, `Session.ledgers`: the reports of a command, and those of a sequence
  of commands by graph.
* `Session.kept_run`: every command keeps the ledgers; `Session.ReportsDuly`: what a
  single command reports.
* `log_replays`: the ledgers of a reachable session **replay to its graphs**.
-/

namespace MixedMonotone

variable {α β γ : Type}

/-! ## The log on the way -/

section Logs

variable {s : Session α} {g : Nat}

/-- The log is left by what leaves it on a model that is there. -/
theorem log_onModel {act : Model α → Action α (Session α) β}
    (h : ∀ m, s.models[g]? = some m → ((act m).after s).log = s.log) :
    ((Session.onModel g act).after s).log = s.log :=
  onModel_after (I := fun t => t.log = s.log) rfl h

/-- The log is left by two calls that leave it. -/
theorem log_bind {act : Action α (Session α) β} {next : β → Action α (Session α) γ}
    (h : (act.after s).log = s.log) (hnext : ∀ b (t : Session α), ((next b).after t).log = t.log) :
    ((act >>= next).after s).log = s.log := by
  rw [Action.after_bind]
  cases act.answer s with
  | ok b => exact (hnext b _).trans h
  | error e => exact h

theorem log_onGraph (act : Action α (Graph α) β) :
    ((Session.onGraph g act).after s).log = s.log := by
  refine log_onModel fun m _ => ?_
  rw [Action.after_focus, Action.after_focus]

theorem log_onProgram (p : Nat) (act : Action α (Program α) β) :
    ((Session.onProgram g p act).after s).log = s.log := by
  refine log_onModel fun m _ => ?_
  cases m.programs[p]? with
  | none => rfl
  | some program =>
    rw [Action.after_focus]
    rfl

theorem log_addProgram (p : Program α) : ((Session.addProgram g p).after s).log = s.log :=
  log_onModel fun _ _ => rfl

/-- A refused builder call reports nothing. -/
theorem log_refused_onBuilder {act : Build α β} {e : Error α}
    (hact : ∀ m, s.models[g]? = some m → act.Atomic ⟨m.graph, s.nextId, s.log⟩)
    (h : (Session.onBuilder g act).answer s = .error e) :
    ((Session.onBuilder g act).after s).log = s.log := by
  refine log_onModel fun m hm => ?_
  unfold Session.onBuilder at h
  rw [answer_onModel_eq hm, Action.answer_focus] at h
  obtain ⟨t, ht⟩ := Action.answer_eq_error.1 h
  obtain rfl := hact m hm e t ht
  rw [Action.after_focus, Action.after, ht]

/-- An answer put into another form is refused where the call is. -/
theorem log_refused_map {act : Action α (Session α) β} {f : β → γ} {e : Error α}
    (hact : ∀ e, act.answer s = .error e → (act.after s).log = s.log)
    (h : (do return f (← act) : Action α (Session α) γ).answer s = .error e) :
    ((do return f (← act) : Action α (Session α) γ).after s).log = s.log := by
  rw [Action.after_return]
  rw [Action.answer_return] at h
  cases hanswer : act.answer s with
  | ok b =>
    rw [hanswer] at h
    cases h
  | error e' => exact hact e' hanswer

theorem atomic_compile (extraction : Extraction) (root : NodeId) (constraints : List Constraint)
    (b : Builder α) : (Build.compile extraction root constraints).Atomic b := by
  cases hp : b.graph.compile extraction root constraints with
  | ok p => exact .of_ok (by rw [Build.compile, hp])
  | error e => exact .of_error (by rw [Build.compile, hp])

/-- A program is answered where the graph can be compiled. -/
theorem compiled_of_answer {extraction : Extraction} {root : NodeId} {constraints : List Constraint}
    {p : Program α}
    (h : (Session.onBuilder g (Build.compile extraction root constraints)).answer s = .ok p) :
    ∃ m, s.models[g]? = some m ∧ m.graph.compile extraction root constraints = .ok p := by
  obtain ⟨m, hm, hp⟩ := answer_onModel h
  rw [Action.answer_focus, answer_compile] at hp
  exact ⟨m, hm, hp⟩

end Logs

/-- What is worked out and then added is answered with the next handle. -/
theorem place_answers_new (draft : Graph α → Except (Error α) (Draft α)) {b b' : Builder α}
    {id : NodeId} (h : Build.place draft b = .ok id b') :
    b.nextId ≤ id.number := by
  unfold Build.place at h
  cases hd : draft b.graph with
  | ok d =>
    rw [hd] at h
    cases h
    exact le_rfl
  | error e =>
    rw [hd] at h
    cases h

variable [Scalar α]

/-! ## What was done to one graph -/

/-- Since `b₀`, **what was reported accounts for what was added**. -/
structure Builder.Entered (b₀ b : Builder α) : Prop where
  ok : BuilderOK b₀.nextId b₀.log b
  entries : ∃ new, b.log = b₀.log ++ new ∧ ∀ log, b₀.graph.Ledger log → b.graph.Ledger (log ++ new)

theorem entered_keptByAdding (b₀ : Builder α) : Builder.KeptByAdding b₀.Entered where
  nodes _ hb := hb.ok.graph.nodes
  append b d hb hd := by
    obtain ⟨new, hlog, hentries⟩ := hb.entries
    have hdue : (b.nodeOf d).dueReports b.graph.settings b.graph.nodes = d.notices :=
      hd.notices b.next
    refine ⟨hb.ok.append hd, new ++ (d.notices ++ [(b.nodeOf d).creation]), ?_, fun log h => ?_⟩
    · rw [← List.append_assoc, ← hlog, ← List.append_assoc]
      rfl
    · rw [← List.append_assoc, ← hdue]
      exact .node (hentries log h) (hd.node b.next)
  record b values id hb := ⟨builderOK_keptByAdding.record b values id hb.ok, hb.entries⟩

/-- From `s` to `t`, **what was reported accounts for what was done to the graph `g`**; of all other
graphs the nodes have stayed. -/
structure Session.Entered (s : Session α) (g : Nat) (t : Session α) : Prop where
  length : t.models.length = s.models.length
  entries : ∃ new, t.log = s.log ++ new ∧ ∀ (k : Nat) (m m' : Model α), s.models[k]? = some m →
    t.models[k]? = some m' →
    ∀ log, m.graph.Ledger log → m'.graph.Ledger (if k = g then log ++ new else log)

namespace Session.Entered

variable {s t u : Session α} {g : Nat}

/-- Nothing was reported, and no node added. -/
theorem of_graphs (hlog : t.log = s.log) (hlength : t.models.length = s.models.length)
    (h : ∀ (k : Nat) (m m' : Model α), s.models[k]? = some m → t.models[k]? = some m' →
      ∀ log, m.graph.Ledger log → m'.graph.Ledger log) : s.Entered g t := by
  refine ⟨hlength, [], by rw [hlog, List.append_nil], fun k m m' hm hm' log hentries => ?_⟩
  rw [List.append_nil, ite_self]
  exact h k m m' hm hm' log hentries

theorem refl : s.Entered g s := by
  refine of_graphs rfl rfl fun k m m' hm hm' log h => ?_
  obtain rfl := Option.some.inj (hm.symm.trans hm')
  exact h

theorem trans (h : s.Entered g t) (h' : t.Entered g u) : s.Entered g u := by
  obtain ⟨new, hlog, hentries⟩ := h.entries
  obtain ⟨new', hlog', hentries'⟩ := h'.entries
  refine ⟨h'.length.trans h.length, new ++ new', by rw [hlog', hlog, List.append_assoc], ?_⟩
  intro k m m'' hm hm'' log hledger
  have hk : k < t.models.length := by
    rw [h.length]
    exact (List.getElem?_eq_some_iff.1 hm).1
  have hm' : t.models[k]? = some t.models[k] := List.getElem?_eq_getElem hk
  have hnext := hentries' k _ m'' hm' hm'' _ (hentries k m _ hm hm' log hledger)
  by_cases hkg : k = g
  · rw [if_pos hkg, if_pos hkg, List.append_assoc] at hnext
    rwa [if_pos hkg]
  · rw [if_neg hkg, if_neg hkg] at hnext
    rwa [if_neg hkg]

/-- Replacing the model of the graph. -/
theorem put {m m' : Model α} (hm : s.models[g]? = some m) {nextId : Nat} {log new : List Event}
    (hlog : log = s.log ++ new) (h : ∀ log, m.graph.Ledger log → m'.graph.Ledger (log ++ new)) :
    s.Entered g { s.putModel g m' with nextId, log } := by
  refine ⟨List.length_set, new, hlog, fun k n n' hn hn' log hledger => ?_⟩
  by_cases hk : k = g
  · subst hk
    have hself : ({ s.putModel k m' with nextId, log := s.log ++ new } : Session α).models[k]? =
        some m' :=
      Session.models_put hm nextId _
    obtain rfl := Option.some.inj (hn.symm.trans hm)
    obtain rfl := Option.some.inj (hself.symm.trans hn')
    rw [if_pos rfl]
    exact h log hledger
  · have hother : (s.models.set g m')[k]? = s.models[k]? := List.getElem?_set_ne (Ne.symm hk)
    have hsame := hother.symm.trans hn'
    obtain rfl := Option.some.inj (hn.symm.trans hsame)
    rwa [if_neg hk]

end Session.Entered

section Entered

variable {s : Session α} {g : Nat}

/-- A call that goes on with an answer. -/
theorem entered_bind {act : Action α (Session α) β} {next : β → Action α (Session α) γ}
    (h : s.Entered g (act.after s)) (hnext : ∀ b (t : Session α), t.Entered g ((next b).after t)) :
    s.Entered g ((act >>= next).after s) := by
  rw [Action.after_bind]
  cases act.answer s with
  | ok b => exact h.trans (hnext b _)
  | error e => exact h

/-- A call on a model that is there. -/
theorem entered_onModel {act : Model α → Action α (Session α) β}
    (h : ∀ m, s.models[g]? = some m → s.Entered g ((act m).after s)) :
    s.Entered g ((Session.onModel g act).after s) :=
  onModel_after (I := s.Entered g) .refl h

theorem entered_addProgram (p : Program α) : s.Entered g ((Session.addProgram g p).after s) := by
  refine entered_onModel fun m hm => ?_
  exact .put hm (List.append_nil _).symm fun log h => by rwa [List.append_nil]

theorem entered_onBuilder (hs : SessionOK s) {act : Build α β}
    (hact : ∀ b₀ : Builder α, Action.Keeps b₀.Entered act) :
    s.Entered g ((Session.onBuilder g act).after s) := by
  refine entered_onModel fun m hm => ?_
  have hstart : BuilderOK s.nextId s.log (⟨m.graph, s.nextId, s.log⟩ : Builder α) :=
    ⟨(hs.model hm).graph, le_rfl, List.Subset.refl _⟩
  have hb := hact ⟨m.graph, s.nextId, s.log⟩ _ ⟨hstart, [], (List.append_nil _).symm,
    fun log h => by rwa [List.append_nil]⟩
  obtain ⟨new, hlog, hentries⟩ := hb.entries
  rw [Action.after_focus]
  exact .put hm hlog hentries

/-- An evaluation of a graph. -/
theorem entered_onGraph (hs : SessionOK s) {act : Action α (Graph α) β}
    (hact : ∀ P : Graph α → Prop, Graph.IgnoresCaches P → Action.Keeps P act) :
    s.Entered g ((Session.onGraph g act).after s) := by
  refine entered_onModel fun m hm => ?_
  have hblank := Graph.blank_after hact (hs.model hm).graph.arena
  obtain ⟨harena, hsettings, -⟩ := Graph.blank_eq_iff.1 hblank
  rw [Action.after_focus, Action.after_focus]
  refine .put hm (List.append_nil _).symm fun log h => ?_
  rw [List.append_nil]
  unfold Graph.Ledger at h ⊢
  rw [← hsettings]
  exact h.alike (Arena.blank_eq_iff.1 harena).1

/-- A call on a program leaves the graph. -/
theorem entered_onProgram (p : Nat) (act : Action α (Program α) β) :
    s.Entered g ((Session.onProgram g p act).after s) := by
  refine entered_onModel fun m hm => ?_
  cases hp : m.programs[p]? with
  | none => exact .refl
  | some program =>
    rw [Action.after_focus]
    exact .put hm (List.append_nil _).symm fun log h => by rwa [List.append_nil]

theorem entered_runProgram (p : Nat) (c : ProgramCommand α NodeId) :
    s.Entered g ((Session.runProgram g p c).after s) := by
  cases c with
  | duplicate =>
    refine entered_bind (entered_onProgram p _) fun program t => ?_
    exact entered_bind (entered_addProgram program) fun _ _ => .refl
  | _ => exact entered_bind (entered_onProgram p _) fun _ _ => .refl

theorem entered_compile (extraction : Extraction) (root : NodeId) (constraints : List Constraint)
    (b₀ : Builder α) : Action.Keeps b₀.Entered (Build.compile extraction root constraints) := by
  intro b hb
  obtain ⟨new, hlog, hentries⟩ := hb.entries
  refine ⟨keeps_compile extraction root constraints b hb.ok, ?_⟩
  unfold Action.after Build.compile
  cases b.graph.compile extraction root constraints with
  | error e => exact ⟨new, hlog, hentries⟩
  | ok p =>
    refine ⟨new ++
      [.programCompiled p.nodes.length b.graph.nodes.length p.constraints.length p.inputDimension],
      ?_, fun log h => ?_⟩
    · rw [← List.append_assoc, ← hlog]
      rfl
    · rw [← List.append_assoc]
      exact .program (hentries log h) _ _ _ _

variable [DecidableEq α]

/-- **Every command on a graph reports what it did to it.** A copy is another graph. -/
theorem entered_runGraph (hs : SessionOK s) {c : GraphCommand α NodeId} (hc : c ≠ .duplicate) :
    s.Entered g ((Session.runGraph g c).after s) := by
  cases c with
  | build call =>
    exact entered_bind (entered_onBuilder hs fun b => keeps_call (entered_keptByAdding b) call)
      fun _ _ => .refl
  | atLeast lhs rhs | atMost lhs rhs =>
    refine entered_bind (entered_onBuilder hs fun b => .bind ?_ fun _ => .pure _) fun _ _ => .refl
    exact keeps_slack (entered_keptByAdding b) lhs rhs
  | evaluate node x y =>
    exact entered_bind (entered_onGraph hs fun P hP => Graph.keeps_evaluate hP node x y) fun _ _ =>
      .refl
  | evaluateScalar node x y =>
    exact entered_bind (entered_onGraph hs fun P hP => Graph.keeps_evaluateScalar hP node x y)
      fun _ _ => .refl
  | fulfilled c x y =>
    exact entered_bind (entered_onGraph hs fun P hP => Graph.keeps_fulfilled hP c x y) fun _ _ =>
      .refl
  | compile extraction root constraints =>
    refine entered_bind (entered_onBuilder hs fun b =>
      entered_compile extraction root constraints b) ?_
    exact fun p t => entered_bind (entered_addProgram p) fun _ _ => .refl
  | duplicate => exact absurd rfl hc

end Entered

/-! ## What a command reports -/

/-- A command that neither adds a node nor compiles: an evaluation of a graph or of a program, a
copy of one, the beginning of a graph, or a handle without a node. -/
def Command.Silent {ρ : Type} : Command α ρ → Prop
  | .graph _ (.build _) | .graph _ (.atLeast ..) | .graph _ (.atMost ..) | .graph _ (.compile ..) =>
    False
  | _ => True

section Calls

variable [DecidableEq α] {b b' : Builder α} {id : NodeId}

theorem constant_answers_new {values : List α} (h : Build.constant values b = .ok id b') :
    b' = b ∨ b.nextId ≤ id.number := by
  unfold Build.constant at h
  cases hid : b.graph.interned? values with
  | some shared =>
    rw [hid] at h
    cases h
    exact .inl rfl
  | none =>
    rw [hid] at h
    cases h
    exact .inr le_rfl

theorem parameter_answers_new {values : List α} (h : Build.parameter values b = .ok id b') :
    b' = b ∨ b.nextId ≤ id.number := by
  unfold Build.parameter at h
  split at h
  · cases h
  · exact constant_answers_new h

/-- **A builder call answers a new handle, or nothing has changed**: it is then the handle of a
constant that is shared. -/
theorem call_answers_new (hb : GraphOK b.nextId b.log b.graph) {c : Call α NodeId}
    (h : c.run b = .ok id b') : b' = b ∨ b.nextId ≤ id.number := by
  cases c with
  | parameter values => exact parameter_answers_new h
  | scalar v => exact constant_answers_new h
  | ones dimension => exact parameter_answers_new h
  | sub x y =>
    obtain ⟨l, r, d, -, -, -, rfl, -⟩ := sub_eq_ok hb h
    exact .inr (Nat.le_succ _)
  | matrixParameter m => exact .inr (place_answers_new (fun g => .ok (g.draftMatrix m)) h)
  | taggedVariable | boundedVariable | declare => exact .inr (place_answers_new (fun _ => _) h)
  | _ => exact .inr (place_answers_new _ h)

end Calls

section Emitted

variable {s : Session α} {g : Nat}

variable [DecidableEq α]

/-- **Evaluations report nothing**, and copies neither. -/
theorem log_silent {c : Command α NodeId} (hc : c.Silent) :
    ((Session.run c).after s).log = s.log := by
  cases c with
  | freshId | newGraph => rfl
  | graph g c =>
    cases c with
    | build | atLeast | atMost | compile => exact hc.elim
    | evaluate | evaluateScalar | fulfilled => exact log_bind (log_onGraph _) fun _ _ => rfl
    | duplicate => exact log_bind (log_onGraph _) fun _ _ => rfl
  | program g p c =>
    cases c with
    | duplicate =>
      refine log_bind (log_onProgram p _) fun program t => ?_
      exact log_bind (log_addProgram program) fun _ _ => rfl
    | _ => exact log_bind (log_onProgram p _) fun _ _ => rfl

/-- **A program that was compiled is reported**, and nothing else. -/
theorem run_compile {m : Model α} (hm : s.models[g]? = some m) {extraction : Extraction}
    {root : NodeId} {constraints : List Constraint} {p : Program α}
    (hp : m.graph.compile extraction root constraints = .ok p) :
    Session.run (.graph g (.compile extraction root constraints)) s =
      .ok (.program m.programs.length)
        { s.putModel g { m with programs := m.programs ++ [p] } with
          log := s.log ++ [.programCompiled p.nodes.length m.graph.nodes.length p.constraints.length
            p.inputDimension] } := by
  let report : Event :=
    .programCompiled p.nodes.length m.graph.nodes.length p.constraints.length p.inputDimension
  let t : Session α := { s.putModel g m with log := s.log ++ [report] }
  have hbuild : Session.onBuilder g (Build.compile extraction root constraints) s = .ok p t := by
    unfold Session.onBuilder Session.onModel
    rw [hm]
    dsimp only
    unfold Action.focus Build.compile
    dsimp only
    rw [hp]
    rfl
  have hthere : t.models[g]? = some m := Session.models_put hm _ _
  have hadd : Session.addProgram g p t =
      .ok m.programs.length (t.putModel g { m with programs := m.programs ++ [p] }) := by
    unfold Session.addProgram Session.onModel
    rw [hthere]
  have hset : t.putModel g { m with programs := m.programs ++ [p] } =
      { s.putModel g { m with programs := m.programs ++ [p] } with log := s.log ++ [report] } := by
    unfold Session.putModel
    exact congrArg (Session.mk s.nextId · (s.log ++ [report])) (List.set_set _)
  change (Session.onBuilder g (Build.compile extraction root constraints) >>= fun program =>
    (do return Reply.program (← Session.addProgram g program) :
      Action α (Session α) (Reply α))) s = _
  rw [Action.bind_of_ok hbuild, Action.bind_of_ok hadd, hset]
  rfl

/-- **A refused command reports nothing.** -/
theorem log_refused (hs : SessionOK s) {c : Command α NodeId} {e : Error α}
    (h : (Session.run c).answer s = .error e) : ((Session.run c).after s).log = s.log := by
  have hbuilder : ∀ {g : Nat} {act : Build α NodeId} {f : NodeId → Constraint},
      (∀ m, s.models[g]? = some m → act.Atomic ⟨m.graph, s.nextId, s.log⟩) → ∀ e,
        (Session.onBuilder g (do return f (← act))).answer s = .error e →
        ((Session.onBuilder g (do return f (← act))).after s).log = s.log :=
    fun hact _ => log_refused_onBuilder fun m hm => (hact m hm).map _
  cases c with
  | graph g c =>
    cases c with
    | build call =>
      refine log_refused_map (fun e => log_refused_onBuilder fun m hm => ?_) h
      exact atomic_call (hs.model hm).graph call
    | atLeast lhs rhs =>
      exact log_refused_map (hbuilder fun m hm => atomic_slack (hs.model hm).graph lhs rhs) h
    | atMost lhs rhs =>
      exact log_refused_map (hbuilder fun m hm => atomic_slack (hs.model hm).graph lhs rhs) h
    | compile extraction root constraints =>
      cases hanswer :
          (Session.onBuilder g (Build.compile extraction root constraints)).answer s with
      | ok p =>
        obtain ⟨m, hm, hp⟩ := compiled_of_answer hanswer
        rw [Action.answer, run_compile hm hp] at h
        cases h
      | error e' =>
        unfold Session.run Session.runGraph
        rw [Action.after_bind, hanswer]
        exact log_refused_onBuilder (fun m _ => atomic_compile extraction root constraints _)
          hanswer
    | evaluate | evaluateScalar | fulfilled | duplicate => exact log_silent trivial
  | freshId | newGraph | program => exact log_silent trivial

end Emitted

/-! ## Ledgers of a session -/

namespace Session

variable [DecidableEq α]

/-- The reports of a command. -/
def emitted (s : Session α) (c : Command α NodeId) : List Event :=
  ((run c).after s).log.drop s.log.length

/-- The ledgers of the graphs after a command: its reports belong to the graph that it is about, or
whose program it is about. **A copy takes over the ledger of its original.** -/
def enter (s : Session α) (c : Command α NodeId) (ledgers : List (List Event)) :
    List (List Event) :=
  match c with
  | .freshId => ledgers
  | .newGraph _ => ledgers ++ [[]]
  | .graph g .duplicate => ledgers ++ ledgers[g]?.toList
  | .graph g _ | .program g _ _ => ledgers.modify g (· ++ s.emitted c)

/-- A session with its ledgers, after a command. -/
def record (kept : Session α × List (List Event)) (c : Command α NodeId) :
    Session α × List (List Event) :=
  ((run c).after kept.1, kept.1.enter c kept.2)

/-- **The ledgers after a sequence of commands**, one for each graph. -/
def ledgers (commands : List (Command α NodeId)) : List (List Event) :=
  (commands.foldl record ({}, [])).2

theorem record_fst (commands : List (Command α NodeId)) (kept : Session α × List (List Event)) :
    (commands.foldl record kept).1 = runAll commands kept.1 := by
  induction commands generalizing kept with
  | nil => rfl
  | cons c commands ih => exact ih (record kept c)

/-- The ledgers account for the graphs, each for its own. -/
def Kept (s : Session α) (ledgers : List (List Event)) : Prop :=
  List.Forall₂ (fun m log => m.graph.Ledger log) s.models ledgers

theorem Entered.emitted {s : Session α} {g : Nat} {c : Command α NodeId}
    (h : s.Entered g ((run c).after s)) : ((run c).after s).log = s.log ++ s.emitted c := by
  obtain ⟨new, hlog, -⟩ := h.entries
  rw [Session.emitted, hlog, List.drop_left]

/-- A command that is about one graph. -/
theorem Entered.kept {s : Session α} {g : Nat} {c : Command α NodeId}
    (h : s.Entered g ((run c).after s)) {ledgers : List (List Event)} (hkept : s.Kept ledgers) :
    ((run c).after s).Kept (ledgers.modify g (· ++ s.emitted c)) := by
  obtain ⟨new, hlog, hentries⟩ := h.entries
  have hnew : s.emitted c = new := by rw [Session.emitted, hlog, List.drop_left]
  have hlength := hkept.length_eq
  refine forall₂_of_getElem? (by rw [h.length, hlength, List.length_modify])
    fun k m' log' hm' hlog' => ?_
  rw [List.getElem?_modify] at hlog'
  obtain ⟨log, hat, rfl⟩ := Option.map_eq_some_iff.1 hlog'
  obtain ⟨m, hm, hledger⟩ := forall₂_getElem?_right hkept hat
  have hnext := hentries k m m' hm hm' log hledger
  by_cases hk : k = g
  · rw [if_pos hk] at hnext
    rw [if_pos hk.symm, hnew]
    exact hnext
  · rw [if_neg hk] at hnext
    rw [if_neg (Ne.symm hk)]
    exact hnext

theorem enter_graph (s : Session α) (g : Nat) {c : GraphCommand α NodeId} (hc : c ≠ .duplicate)
    (ledgers : List (List Event)) :
    s.enter (.graph g c) ledgers = ledgers.modify g (· ++ s.emitted (.graph g c)) := by
  cases c with
  | duplicate => exact absurd rfl hc
  | _ => rfl

/-- A copy is added if there is an original. -/
theorem models_duplicate (s : Session α) (g : Nat) :
    ((run (.graph g .duplicate)).after s).models = s.models ++
      ((s.graph? g).map fun G => { graph := G }).toList := by
  change ((onGraph g get >>= fun graph =>
    (do return Reply.graph (← addGraph graph) : Action α (Session α) (Reply α))).after s).models = _
  rw [Action.after_bind]
  cases hm : s.models[g]? with
  | none =>
    have hrun : (onGraph g get : Action α (Session α) (Graph α)) s = .error .outOfRange s := by
      unfold onGraph onBuilder onModel
      rw [hm]
    rw [Action.answer, Action.after, hrun, graph?, hm]
    exact (List.append_nil _).symm
  | some m =>
    have hanswer : (onGraph g get : Action α (Session α) (Graph α)).answer s = .ok m.graph := by
      unfold onGraph onBuilder
      rw [answer_onModel_eq hm, Action.answer_focus, Action.answer_focus]
      rfl
    obtain ⟨hgraph, hafter⟩ := get_graph hanswer
    rw [hanswer, hafter, hgraph]
    rfl

/-- **Every command keeps the ledgers.** -/
theorem kept_run {s : Session α} (hs : SessionOK s) (c : Command α NodeId)
    {ledgers : List (List Event)} (hkept : s.Kept ledgers) :
    ((run c).after s).Kept (s.enter c ledgers) := by
  cases c with
  | freshId => exact hkept
  | newGraph settings => exact List.rel_append hkept (.cons .nil .nil)
  | program g p c => exact (entered_runProgram p c).kept hkept
  | graph g c =>
    by_cases hc : c = .duplicate
    · subst hc
      have hsame := forall₂_rel_getElem? hkept g
      unfold Kept
      rw [models_duplicate]
      refine List.rel_append hkept ?_
      unfold graph?
      generalize s.models[g]? = m?, ledgers[g]? = log? at hsame
      cases hsame with
      | none => exact .nil
      | some h => exact .cons h .nil
    · rw [enter_graph s g hc]
      exact (entered_runGraph hs hc).kept hkept

/-- The ledgers of a reachable session are kept. -/
theorem kept_ledgers (commands : List (Command α NodeId)) :
    (runAll commands {}).Kept (ledgers commands) := by
  have hrun : ∀ (commands : List (Command α NodeId)) (kept : Session α × List (List Event)),
      SessionOK kept.1 →
      kept.1.Kept kept.2 → (commands.foldl record kept).1.Kept (commands.foldl record kept).2 := by
    intro commands
    induction commands with
    | nil => exact fun kept _ h => h
    | cons c commands ih => exact fun kept hs h => ih _ (keeps_run c _ hs) (kept_run hs c h)
  have h := hrun commands ({}, []) (by simp [SessionOK]) .nil
  rwa [record_fst] at h

end Session

/-- **What a single command reports.** All it reports is appended to the log. It reports nothing if
it is refused, if it is an evaluation or copies something, and if a builder call is answered with a
node that was there. If it compiles, it reports the program that it answers. -/
structure Session.ReportsDuly (s : Session α) [DecidableEq α] (c : Command α NodeId) : Prop where
  appends : ((Session.run c).after s).log = s.log ++ s.emitted c
  refused : ∀ e, (Session.run c).answer s = .error e → s.emitted c = []
  silent : c.Silent → s.emitted c = []
  reused : ∀ g call G id, c = .graph g (.build call) → s.graph? g = some G →
    (Session.run c).answer s = .ok (.node id) → (∃ n ∈ G.nodes, n.id = id) → s.emitted c = []
  compiled : ∀ g extraction root constraints reply,
    c = .graph g (.compile extraction root constraints) → (Session.run c).answer s = .ok reply →
    ∃ G p P, s.graph? g = some G ∧ reply = .program p ∧
      ((Session.run c).after s).program? g p = some P ∧
      s.emitted c =
        [.programCompiled P.nodes.length G.nodes.length P.constraints.length P.inputDimension]

/-- A command that leaves the log has reported nothing. -/
theorem Session.emitted_eq_nil [DecidableEq α] {s : Session α} {c : Command α NodeId}
    (h : ((Session.run c).after s).log = s.log) : s.emitted c = [] := by
  rw [emitted, h, List.drop_length]

section Duly

variable [DecidableEq α] {s : Session α}

/-- Whatever a command reports is added at the end. -/
theorem SessionOK.log_appends (hs : SessionOK s) (c : Command α NodeId) :
    ((Session.run c).after s).log = s.log ++ s.emitted c := by
  have hsilent : ((Session.run c).after s).log = s.log →
      ((Session.run c).after s).log = s.log ++ s.emitted c := by
    intro h
    rw [Session.emitted_eq_nil h, h, List.append_nil]
  cases c with
  | freshId | newGraph => exact hsilent rfl
  | program g p c => exact (entered_runProgram p c).emitted
  | graph g c =>
    by_cases hc : c = .duplicate
    · subst hc
      exact hsilent (log_silent trivial)
    · exact (entered_runGraph hs hc).emitted

/-- A call that answers a node which is there already reports nothing. -/
theorem SessionOK.emitted_reused (hs : SessionOK s) {g : Nat} {G : Graph α}
    (hG : s.graph? g = some G) {call : Call α NodeId} {n : Node α} (hn : n ∈ G.nodes)
    (hanswer : (Session.run (.graph g (.build call))).answer s = .ok (.node n.id)) :
    s.emitted (.graph g (.build call)) = [] := by
  obtain ⟨m, hm, rfl⟩ := Option.map_eq_some_iff.1 hG
  have hgraph := (hs.model hm).graph
  refine Session.emitted_eq_nil ?_
  unfold Session.run Session.runGraph at hanswer ⊢
  rw [Action.answer_return] at hanswer
  rw [Action.after_return]
  unfold Session.onBuilder at hanswer ⊢
  rw [answer_onModel_eq hm, Action.answer_focus] at hanswer
  rw [after_onModel hm, Action.after_focus]
  cases hrun : call.run ⟨m.graph, s.nextId, s.log⟩ with
  | error e b =>
    rw [Action.answer, hrun] at hanswer
    cases hanswer
  | ok id b =>
    rw [Action.answer, hrun] at hanswer
    cases hanswer
    rw [Action.after, hrun]
    rcases call_answers_new hgraph hrun with rfl | hnew
    · rfl
    · exact absurd (hgraph.issued n hn) (not_lt.2 hnew)

/-- A compilation reports how much it has kept. -/
theorem emitted_compiled {g : Nat} {extraction : Extraction} {root : NodeId}
    {constraints : List Constraint} {reply : Reply α}
    (hreply : (Session.run (.graph g (.compile extraction root constraints))).answer s =
      .ok reply) :
    ∃ G p P, s.graph? g = some G ∧ reply = .program p ∧
      ((Session.run (.graph g (.compile extraction root constraints))).after s).program? g p =
        some P ∧
      s.emitted (.graph g (.compile extraction root constraints)) =
        [.programCompiled P.nodes.length G.nodes.length P.constraints.length P.inputDimension] := by
  cases hanswer : (Session.onBuilder g (Build.compile extraction root constraints)).answer s with
  | error e =>
    unfold Session.run Session.runGraph at hreply
    rw [Action.answer_bind, hanswer] at hreply
    cases hreply
  | ok p =>
    obtain ⟨m, hm, hp⟩ := compiled_of_answer hanswer
    have hrun := run_compile hm hp
    rw [Action.answer, hrun] at hreply
    cases hreply
    refine ⟨m.graph, m.programs.length, p, ?_, rfl, ?_, ?_⟩
    · rw [Session.graph?, hm, Option.map_some]
    · have hput : (s.putModel g { m with programs := m.programs ++ [p] }).models[g]? =
          some { m with programs := m.programs ++ [p] } := Session.models_put hm s.nextId s.log
      rw [Action.after, hrun]
      change (s.putModel g _).models[g]? >>= _ = _
      rw [hput]
      exact List.getElem?_concat_length
    · rw [Session.emitted, Action.after, hrun, List.drop_left]

theorem SessionOK.reportsDuly (hs : SessionOK s) (c : Command α NodeId) : s.ReportsDuly c where
  appends := hs.log_appends c
  refused _ he := Session.emitted_eq_nil (log_refused hs he)
  silent hsilent := Session.emitted_eq_nil (log_silent hsilent)
  reused := by
    rintro g call G id rfl hG hanswer ⟨n, hn, rfl⟩
    exact hs.emitted_reused hG hn hanswer
  compiled := by
    rintro g extraction root constraints reply rfl hreply
    exact emitted_compiled hreply

end Duly

/-- **The log replays to the graph.** Let any commands be carried out, refused ones among them.
The ledger of each graph, which holds what the commands on it and on its programs reported, and
before that the ledger of the original if the graph is a copy, replays to the graph: its creations
are the nodes in order, and disagreeing tagging rules and inner products of mixed signs are
reported right before the nodes concerned, and exactly for these. And whatever command comes next
reports what it should. -/
theorem log_replays [DecidableEq α] (commands : List (Command α NodeId)) :
    (∀ g G, (Session.runAll commands {}).graph? g = some G →
      ∃ log, (Session.ledgers commands)[g]? = some log ∧ G.Replays log) ∧
    ∀ c, (Session.runAll commands {}).ReportsDuly c := by
  refine ⟨fun g G hG => ?_, fun c => (sessionOK_runAll commands).reportsDuly c⟩
  obtain ⟨m, hm, rfl⟩ := Option.map_eq_some_iff.1 hG
  obtain ⟨log, hlog, hledger⟩ := forall₂_getElem? (Session.kept_ledgers commands) hm
  exact ⟨log, hlog, hledger.replays (graphOK_runAll hG).arena⟩

/-- A graph whose settings give the last component and inner products of mixed signs their own
rules: a constant on which the rules disagree, asked for twice; two variables of opposite sign and
their inner product; a sum that is refused; and a program. -/
def oddCommands : List (Command ℚ NodeId) :=
  [.newGraph { parameterSign := .lastComponent, dotSign := .nonnegative },
    .graph 0 (.build (.parameter [1, -1])), .graph 0 (.build (.taggedVariable 2 .nonneg)),
    .newGraph {}, .graph 1 (.build (.scalar 3)), .graph 0 (.build (.taggedVariable 2 .nonpos)),
    .graph 0 (.build (.parameter [1, -1])), .graph 0 (.build (.add ⟨1⟩ ⟨3⟩)),
    .graph 0 (.build (.dot ⟨2⟩ ⟨4⟩)), .graph 0 (.compile .everything ⟨5⟩ [])]

/-- The handle `3` is one of another graph; its creation stands in that graph's ledger. -/
theorem log_replays_odd : ∃ G, (Session.runAll oddCommands {}).graph? 0 = some G ∧ G.Replays
    [.signRulesDisagree .unknown .nonpos .lastComponent, .nodeCreated ⟨1⟩ "parameter" 2 .nonpos,
      .nodeCreated ⟨2⟩ "variable" 2 .nonneg, .nodeCreated ⟨4⟩ "variable" 2 .nonpos,
      .mixedDotTagged .nonneg .nonpos, .nodeCreated ⟨5⟩ "dot" 1 .nonneg,
        .programCompiled 4 4 0 (some 2)] := by
  let G := ((Session.runAll oddCommands {}).graph? 0).getD {}
  have hG : (Session.runAll oddCommands {}).graph? 0 = some G := by decide +kernel
  obtain ⟨log, hlog, hreplays⟩ := (log_replays oddCommands).1 0 G hG
  have hledger : (Session.ledgers oddCommands)[0]? = some
      [.signRulesDisagree .unknown .nonpos .lastComponent, .nodeCreated ⟨1⟩ "parameter" 2 .nonpos,
        .nodeCreated ⟨2⟩ "variable" 2 .nonneg, .nodeCreated ⟨4⟩ "variable" 2 .nonpos,
        .mixedDotTagged .nonneg .nonpos, .nodeCreated ⟨5⟩ "dot" 1 .nonneg,
        .programCompiled 4 4 0 (some 2)] := by decide +kernel
  obtain rfl := Option.some.inj (hledger.symm.trans hlog)
  exact ⟨G, hG, hreplays⟩

end MixedMonotone
