import Mathlib
import MixedMonotone.Proofs.Growth

/-!
# What persists

Between two looks at a session, commands of all kinds are carried out on it.

* `builderCalls`: the builder calls among commands.
* `Graph.Persists`: a property of graphs that holds of those without nodes, that the given builder
  calls keep, and to which caches make no difference.
* `Session.PassesTo`: what persists of the graphs has been kept, and **every program is where it
  was**, but for its caches; `passes_run`: every command does so.
* `Graph.Persists.of_runAll`: what persists holds of **every reachable graph**.
* `program_stays`: a program stays, **whatever commands come next**.
-/

namespace MixedMonotone

variable {α β γ : Type} [Scalar α] [DecidableEq α]

/-- The builder call that a command is. -/
def Command.call? {ρ : Type} : Command α ρ → Option (Call α ρ)
  | .graph _ (.build call) => some call
  | _ => none

/-- The builder calls among commands. -/
def builderCalls (commands : List (Command α NodeId)) : List (Call α NodeId) :=
  commands.filterMap Command.call?

/-- A property of graphs that **persists under the given builder calls**: graphs without nodes
have it, these calls keep it, answered or refused, and what evaluations leave makes no
difference to it. -/
structure Graph.Persists (calls : List (Call α NodeId)) (I : Graph α → Prop) : Prop where
  empty : ∀ settings, I { settings }
  call : ∀ c ∈ calls, Action.Keeps (fun b => I b.graph) c.run
  slack : ∀ lhs rhs, Action.Keeps (fun b : Builder α => I b.graph) (Build.slack lhs rhs)
  blank : ∀ g g', I g → g.blank = g'.blank → I g'

/-- **From `s` to `t`, what persists of the graphs was kept**, and every program
stayed, caches apart. -/
structure Session.PassesTo (calls : List (Call α NodeId)) (s t : Session α) : Prop where
  graphs : ∀ I, Graph.Persists calls I → (∀ m ∈ s.models, I m.graph) → ∀ m ∈ t.models, I m.graph
  programs : ∀ g p P, s.program? g p = some P → ∃ Q, t.program? g p = some Q ∧ P.blank = Q.blank

namespace Session.PassesTo

variable {calls : List (Call α NodeId)} {s t u : Session α} {g : Nat}

theorem refl : s.PassesTo calls s := ⟨fun _ _ h => h, fun _ _ P hP => ⟨P, hP, rfl⟩⟩

theorem trans (h : s.PassesTo calls t) (h' : t.PassesTo calls u) : s.PassesTo calls u := by
  refine ⟨fun I hI hs => h'.graphs I hI (h.graphs I hI hs), fun g p P hP => ?_⟩
  obtain ⟨Q, hQ, hPQ⟩ := h.programs g p P hP
  obtain ⟨R, hR, hQR⟩ := h'.programs g p Q hQ
  exact ⟨R, hR, hPQ.trans hQR⟩

/-- Replacing a model by one with a graph that has kept what persists, and with the programs it
had. -/
theorem put {m m' : Model α} (hm : s.models[g]? = some m)
    (hgraph : ∀ I, Graph.Persists calls I → I m.graph → I m'.graph)
    (hprograms : ∀ (p : Nat) (P : Program α), m.programs[p]? = some P →
      ∃ Q, m'.programs[p]? = some Q ∧ P.blank = Q.blank)
    (nextId : Nat) (log : List Event) : s.PassesTo calls { s.putModel g m' with nextId, log } := by
  refine ⟨fun I hI hs n hn => ?_, fun k p P hP => ?_⟩
  · rcases List.mem_or_eq_of_mem_set hn with hn | rfl
    · exact hs n hn
    · exact hgraph I hI (hs m (List.mem_of_getElem? hm))
  · obtain ⟨n, hn, hp⟩ := Option.bind_eq_some_iff.1 hP
    by_cases hk : k = g
    · subst hk
      obtain rfl := Option.some.inj (hm.symm.trans hn)
      obtain ⟨Q, hQ, hblank⟩ := hprograms p P hp
      exact ⟨Q, Option.bind_eq_some_iff.2 ⟨m', Session.models_put hm nextId log, hQ⟩, hblank⟩
    · have hother : (s.models.set g m')[k]? = some n := (List.getElem?_set_ne (Ne.symm hk)).trans hn
      exact ⟨P, Option.bind_eq_some_iff.2 ⟨n, hother, hp⟩, rfl⟩

end Session.PassesTo

/-! ## Calls on a part of a session -/

section Parts

variable {calls : List (Call α NodeId)} {s : Session α} {g : Nat}

/-- A call that goes on with an answer. -/
theorem passes_bind {act : Action α (Session α) β} {next : β → Action α (Session α) γ}
    (h : s.PassesTo calls (act.after s))
    (hnext : ∀ b, act.answer s = .ok b →
      (act.after s).PassesTo calls ((next b).after (act.after s))) :
    s.PassesTo calls ((act >>= next).after s) := by
  rw [Action.after_bind]
  cases hact : act.answer s with
  | ok b => exact h.trans (hnext b hact)
  | error e => exact h

/-- An answer put into another form. -/
theorem passes_map {act : Action α (Session α) β} (h : s.PassesTo calls (act.after s)) (f : β → γ) :
    s.PassesTo calls ((do return f (← act) : Action α (Session α) γ).after s) := by
  rwa [Action.after_return]

/-- A call on a model that is there. -/
theorem passes_onModel {act : Model α → Action α (Session α) β}
    (h : ∀ m, s.models[g]? = some m → s.PassesTo calls ((act m).after s)) :
    s.PassesTo calls ((Session.onModel g act).after s) :=
  onModel_after (I := s.PassesTo calls) .refl h

theorem passes_onBuilder {act : Build α β}
    (hact : ∀ I, Graph.Persists calls I → Action.Keeps (fun b : Builder α => I b.graph) act) :
    s.PassesTo calls ((Session.onBuilder g act).after s) := by
  refine passes_onModel fun m hm => ?_
  rw [Action.after_focus]
  refine .put hm (fun I hI h => ?_) (fun p P hP => ⟨P, ?_, rfl⟩) _ _
  · exact hact I hI ⟨m.graph, s.nextId, s.log⟩ h
  · exact hP

/-- An evaluation of a graph leaves it, but for its caches. -/
theorem passes_onGraph (hs : SessionOK s) {act : Action α (Graph α) β}
    (hact : ∀ P : Graph α → Prop, Graph.IgnoresCaches P → Action.Keeps P act) :
    s.PassesTo calls ((Session.onGraph g act).after s) := by
  refine passes_onModel fun m hm => ?_
  have hblank := Graph.blank_after hact (hs.model hm).graph.arena
  rw [Action.after_focus, Action.after_focus]
  refine .put hm (fun I hI h => ?_) (fun p P hP => ⟨P, ?_, rfl⟩) _ _
  · exact hI.blank m.graph _ h hblank
  · exact hP

/-- An evaluation of a program leaves it, but for its caches. -/
theorem passes_onProgram (hs : SessionOK s) {p : Nat} {act : Action α (Program α) β}
    (hact : ∀ P : Program α → Prop, Program.IgnoresCaches P → Action.Keeps P act) :
    s.PassesTo calls ((Session.onProgram g p act).after s) := by
  refine passes_onModel fun m hm => ?_
  cases hp : m.programs[p]? with
  | none => exact .refl
  | some program =>
    obtain ⟨settings, hok⟩ := (hs.model hm).programs program (List.mem_of_getElem? hp)
    have hblank := Program.blank_after hact hok
    rw [Action.after_focus]
    refine .put hm (fun _ _ h => ?_) (fun q P hP => ?_) s.nextId s.log
    · exact h
    · by_cases hq : q = p
      · subst hq
        obtain rfl := Option.some.inj (hp.symm.trans hP)
        exact ⟨_, List.getElem?_set_self (List.getElem?_eq_some_iff.1 hp).1, hblank⟩
      · exact ⟨P, (List.getElem?_set_ne (Ne.symm hq)).trans hP, rfl⟩

theorem passes_addProgram (P : Program α) :
    s.PassesTo calls ((Session.addProgram g P).after s) := by
  refine passes_onModel fun m hm =>
    .put hm (fun _ _ h => ?_) (fun p Q hQ => ⟨Q, ?_, rfl⟩) s.nextId s.log
  · exact h
  · exact getElem?_append_of_eq_some hQ _

/-- A graph may be added that has what all others have. -/
theorem passes_addGraph {G : Graph α}
    (hG : ∀ I, Graph.Persists calls I → (∀ m ∈ s.models, I m.graph) → I G) :
    s.PassesTo calls ((Session.addGraph G).after s) := by
  refine ⟨fun I hI hs n hn => ?_, fun g p P hP => ?_⟩
  · rcases List.mem_append.1 hn with hn | hn
    · exact hs n hn
    · obtain rfl := List.mem_singleton.1 hn
      exact hG I hI hs
  · obtain ⟨m, hm, hp⟩ := Option.bind_eq_some_iff.1 hP
    have hkept : (s.models ++ [{ graph := G }])[g]? = some m :=
      getElem?_append_of_eq_some hm _
    exact ⟨P, Option.bind_eq_some_iff.2 ⟨m, hkept, hp⟩, rfl⟩

end Parts

/-! ## Commands -/

section Commands

variable {calls : List (Call α NodeId)} {s : Session α}

theorem passes_runProgram (hs : SessionOK s) (g p : Nat) (c : ProgramCommand α NodeId) :
    s.PassesTo calls ((Session.runProgram g p c).after s) := by
  cases c with
  | objective x y =>
    exact passes_map (passes_onProgram hs fun P hP => Program.keeps_objective hP x y) _
  | evaluate node x y =>
    exact passes_map (passes_onProgram hs fun P hP => Program.keeps_evaluate hP node x y) _
  | fulfilled index x y =>
    exact passes_map (passes_onProgram hs fun P hP => Program.keeps_fulfilled hP index x y) _
  | constraintsHold x y =>
    exact passes_map (passes_onProgram hs fun P hP => Program.keeps_constraintsHold hP x y) _
  | duplicate =>
    exact passes_bind (passes_onProgram hs fun P _ => .get) fun P _ =>
      passes_map (passes_addProgram P) _

theorem passes_runGraph (hs : SessionOK s) (g : Nat) (c : GraphCommand α NodeId)
    (hc : ∀ call, c = .build call → call ∈ calls) :
    s.PassesTo calls ((Session.runGraph g c).after s) := by
  cases c with
  | build call => exact passes_map (passes_onBuilder fun I hI => hI.call call (hc call rfl)) _
  | atLeast lhs rhs | atMost lhs rhs =>
    exact passes_map (passes_onBuilder fun I hI => .bind (hI.slack lhs rhs) fun _ => .pure _) _
  | evaluate node x y =>
    exact passes_map (passes_onGraph hs fun P hP => Graph.keeps_evaluate hP node x y) _
  | evaluateScalar node x y =>
    exact passes_map (passes_onGraph hs fun P hP => Graph.keeps_evaluateScalar hP node x y) _
  | fulfilled c x y =>
    exact passes_map (passes_onGraph hs fun P hP => Graph.keeps_fulfilled hP c x y) _
  | compile extraction root constraints =>
    refine passes_bind (passes_onBuilder fun I hI b hb => ?_) fun P _ =>
      passes_map (passes_addProgram P) _
    dsimp only
    rwa [(compile_leaves extraction root constraints b).1]
  | duplicate =>
    refine passes_bind (passes_onGraph hs fun P _ => .get) fun G hG =>
      passes_map (passes_addGraph ?_) _
    obtain ⟨hgraph, hafter⟩ := get_graph hG
    obtain ⟨m, hm, rfl⟩ := Option.map_eq_some_iff.1 hgraph
    rw [hafter]
    exact fun I _ hall => hall m (List.mem_of_getElem? hm)

/-- **Every command passes on what persists**, refused or not. -/
theorem passes_run (hs : SessionOK s) (c : Command α NodeId) (hc : ∀ call ∈ c.call?, call ∈ calls) :
    s.PassesTo calls ((Session.run c).after s) := by
  cases c with
  | freshId => exact ⟨fun _ _ h => h, fun _ _ P hP => ⟨P, hP, rfl⟩⟩
  | newGraph settings => exact passes_map (passes_addGraph fun I hI _ => hI.empty settings) _
  | graph g c =>
    refine passes_runGraph hs g c fun call hcall => hc call ?_
    subst hcall
    rfl
  | program g p c => exact passes_runProgram hs g p c

/-- So does every sequence of commands. -/
theorem passes_runAll (commands : List (Command α NodeId)) (hs : SessionOK s) :
    s.PassesTo (builderCalls commands) (Session.runAll commands s) := by
  have hall : ∀ c ∈ commands, ∀ call ∈ c.call?, call ∈ builderCalls commands :=
    fun c hc call hcall => List.mem_filterMap.2 ⟨c, hc, hcall⟩
  -- the calls stay those of all commands while these are carried out
  generalize builderCalls commands = calls at hall ⊢
  induction commands generalizing s with
  | nil => exact .refl
  | cons c commands ih =>
    exact (passes_run hs c (hall c List.mem_cons_self)).trans
      (ih (keeps_run c s hs) fun d hd => hall d (List.mem_cons_of_mem c hd))

end Commands

/-- **What persists holds of every reachable graph.** -/
theorem Graph.Persists.of_runAll {I : Graph α → Prop} {commands : List (Command α NodeId)}
    (hI : Graph.Persists (builderCalls commands) I) {g : Nat} {G : Graph α}
    (hG : (Session.runAll commands {}).graph? g = some G) : I G := by
  obtain ⟨m, hm, rfl⟩ := Option.map_eq_some_iff.1 hG
  have hempty : SessionOK ({} : Session α) := by simp [SessionOK]
  exact (passes_runAll commands hempty).graphs I hI (by simp) m (List.mem_of_getElem? hm)

/-- **A program stays**, whatever commands come next: nothing but its caches can change. -/
theorem program_stays {commands : List (Command α NodeId)} {g p : Nat} {P : Program α}
    (hP : (Session.runAll commands {}).program? g p = some P) (later : List (Command α NodeId)) :
    ∃ Q, (Session.runAll (commands ++ later) {}).program? g p = some Q ∧ P.blank = Q.blank := by
  rw [Session.runAll, List.foldl_append]
  exact (passes_runAll later (sessionOK_runAll commands)).programs g p P hP

end MixedMonotone
