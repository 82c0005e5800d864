import Mathlib
import MixedMonotone.Proofs.Acceptance
import MixedMonotone.Proofs.Lockstep

/-!
# A program simulates its graph

A program can be asked for its objective, for a node and for a constraint, and so can the graph it
was compiled from. The graph knows other nodes besides, and finds the operands at other positions.

* `Query`: what both can be asked; `Action.trace` is what a sequence of calls answers and leaves.
* `Program.Simulates`: the program is a copy, **caches included**, and its constraints are the
  graph's.
* `Simulates.ask`: one query is answered alike, and leaves the program a copy of the graph.
* `program_simulates_graph`: so **every sequence of queries** that the program accepts is accepted
  by the graph, is answered alike call by call, and leaves equal caches after every call.
-/

namespace MixedMonotone

variable {α : Type}

/-! ## Queries -/

/-- What both a program and the graph it was compiled from can be asked. -/
inductive Query (α : Type) where
  /-- The objective. -/
  | objective (x y : List α)
  /-- A node. -/
  | evaluate (id : NodeId) (x y : List α)
  /-- Whether the constraint with an index holds. -/
  | fulfilled (index : Nat) (x y : List α)

/-- The program accepts the query. -/
def Query.AcceptedBy (p : Program α) : Query α → Prop
  | objective x y => p.checkInput x y = .ok ()
  | evaluate id x y => ∃ k, p.evaluable id x y = .ok k
  | fulfilled index x y => ∃ c, p.checkable index x y = .ok c

theorem Query.AcceptedBy.of_blank_eq [Zero α] {p p' : Program α} {q : Query α} (h : q.AcceptedBy p)
    (heq : p.blank = p'.blank) : q.AcceptedBy p' := by
  obtain ⟨harena, -, hchecks, hinput, -⟩ := Program.blank_eq_iff.1 heq
  have hpos : p.arena.positions = p'.arena.positions := (Arena.blank_eq_iff.1 harena).2
  cases q with
  | objective x y => simpa only [AcceptedBy, Program.checkInput, hinput] using h
  | evaluate id x y =>
    simpa only [AcceptedBy, Program.evaluable, Program.checkInput, Arena.position,
      Arena.position?, hpos, hinput] using h
  | fulfilled index x y =>
    simpa only [AcceptedBy, Program.checkable, Program.checkInput, hchecks, hinput] using h

/-- A program answers to points of one length only. -/
theorem Program.length_of_checkInput {p : Program α} {x y : List α}
    (h : p.checkInput x y = .ok ()) : x.length = y.length := by
  unfold Program.checkInput at h
  dsimp only at h
  split at h
  · rename_i hlen
    exact hlen.1.trans hlen.2.symm
  · cases h

/-- What a sequence of calls answers and leaves, call by call. -/
def Action.trace {σ β ι : Type} (act : ι → Action α σ β) : List ι → σ →
    List (Except (Error α) β × σ)
  | [], _ => []
  | q :: rest, s => ((act q).answer s, (act q).after s) :: trace act rest ((act q).after s)

section Ask

variable [Scalar α]

/-- The query put to a program. -/
def Query.ofProgram : Query α → Action α (Program α) (Reply α)
  | objective x y => return .number (← Program.objective x y)
  | evaluate id x y => return .vector (← Program.evaluate id x y)
  | fulfilled index x y => return .verdict (← Program.fulfilled index x y)

/-- The query put to a graph, where the objective is the node `root`. -/
def Query.ofGraph (root : NodeId) (constraints : List Constraint) :
    Query α → Action α (Graph α) (Reply α)
  | objective x y => return .number (← Graph.evaluateScalar root x y)
  | evaluate id x y => return .vector (← Graph.evaluate id x y)
  | fulfilled index x y =>
    match constraints[index]? with
    | some c => return .verdict (← Graph.fulfilled c x y)
    | none => throw (.unknownConstraint index constraints.length)

/-! ## One evaluation -/

variable {s : Settings}

theorem Arena.evaluateAt_of_ok {a b : Arena α} {i : Nat} {points : Points α} {v : List α}
    (h : Arena.evaluate i points a = .ok v b) : evaluateAt i points a.nodes = some b.nodes := by
  unfold Arena.evaluate at h
  cases hrun : evaluateAt i points a.nodes with
  | none => simp [hrun] at h
  | some nodes =>
    cases hn : nodes[i]? with
    | none => simp [hrun, hn] at h
    | some n =>
      simp only [hrun, hn, EStateM.Result.ok.injEq] at h
      rw [← h.2]

/-- A node and its copy **answer the same and leave a copy**. -/
theorem Copies.arena_evaluate {a a' : Arena α} (h : Copies a.nodes a'.nodes) (hok : ArenaOK s a)
    (hok' : ArenaOK s a') {i k : Nat} (hik : SameHandle a.nodes a'.nodes i k) {points : Points α}
    (hin : InputsFit a'.nodes k points) :
    ∃ b b', Arena.evaluate i points a = .ok (denote a'.nodes k points) b ∧
      Arena.evaluate k points a' = .ok (denote a'.nodes k points) b' ∧
      a.blank = b.blank ∧ a'.blank = b'.blank ∧ Copies b.nodes b'.nodes := by
  obtain ⟨n, m, hn, hm, -⟩ := h.copy hok.ids hik
  obtain ⟨b, hrun, hblank⟩ := Arena.evaluate_spec hok.nodes (List.getElem?_eq_some_iff.1 hn).1
    (h.inputsFit hok.ids hik hin)
  obtain ⟨b', hrun', hblank'⟩ :=
    Arena.evaluate_spec hok'.nodes (List.getElem?_eq_some_iff.1 hm).1 hin
  rw [← denote_copy h hok.ids hok.nodes hok'.nodes hik] at hrun
  refine ⟨b, b', hrun, hrun', hblank, hblank', ?_⟩
  exact h.of_evaluateAt hok.ids hok'.ids hok.nodes hok'.nodes hik (Arena.evaluateAt_of_ok hrun)
    (Arena.evaluateAt_of_ok hrun') (Arena.blank_eq_iff.1 hblank).1 (Arena.blank_eq_iff.1 hblank').1

/-! ## The program and its graph -/

/-- **The program is a copy of its graph, caches included**, and so are its constraints. -/
structure Program.Simulates (s : Settings) (p : Program α) (g : Graph α) (root : NodeId)
    (constraints : List Constraint) : Prop where
  graph : ArenaOK s g.arena
  compiled : p.CompiledFrom s g root
  checks : List.Forall₂ (fun (c : Constraint) (k : Check) => k.relation = c.relation ∧
    ∃ i, g.arena.position? c.node = some i ∧ SameHandle g.nodes p.nodes i k.position)
    constraints p.constraints
  zeroRule : p.zeroRule = g.settings.zeroRule

/-- A program that has just been compiled. -/
theorem compile_simulates {g : Graph α} (hok : ArenaOK s g.arena) {extraction : Extraction}
    {root : NodeId} {constraints : List Constraint} {p : Program α}
    (h : g.compile extraction root constraints = .ok p) : p.Simulates s g root constraints := by
  have hcompiled := compile_spec hok h
  obtain ⟨roots, hroots, h⟩ := bind_eq_ok.1 h
  obtain ⟨a, -, h⟩ := bind_eq_ok.1 h
  obtain ⟨d, -, h⟩ := bind_eq_ok.1 h
  obtain ⟨k, -, h⟩ := bind_eq_ok.1 h
  obtain ⟨checks, hchecks, h⟩ := bind_eq_ok.1 h
  obtain rfl := Except.ok.inj h
  -- every constraint's node was looked up in the graph, before it was looked up in the copy
  obtain ⟨o, -, hroots⟩ := bind_eq_ok.1 hroots
  split at hroots
  · cases hroots
  obtain ⟨os, hos, -⟩ := bind_eq_ok.1 hroots
  refine ⟨hok, hcompiled, ?_, rfl⟩
  refine ((List.forall₂_and_left (p := (· ∈ constraints)) _ _).2
    ⟨fun _ hc => hc, mapM_eq_ok hchecks⟩).imp ?_
  rintro c k ⟨hc, hk⟩
  obtain ⟨l, hl, hk⟩ := bind_eq_ok.1 hk
  obtain rfl := Except.ok.inj hk
  obtain ⟨o', -, ho'⟩ := forall₂_mem_left (mapM_eq_ok hos) hc
  have hpos := (Arena.find_eq_ok (Arena.operand_eq_ok ho').1).1
  exact ⟨rfl, o'.position, hpos, hok.sameHandle hcompiled.ok.arena hpos (locate_eq_ok.1 hl)⟩

namespace Program.Simulates

variable {p p' : Program α} {g g' : Graph α} {root : NodeId} {constraints : List Constraint}

/-- What evaluations leave makes no difference, as long as it is the same on both sides. -/
theorem of_blank_eq (h : p.Simulates s g root constraints) (hg : g.blank = g'.blank)
    (hp : p.blank = p'.blank) (hcopies : Copies g'.nodes p'.nodes) :
    p'.Simulates s g' root constraints := by
  obtain ⟨hgarena, hsettings, -⟩ := Graph.blank_eq_iff.1 hg
  obtain ⟨hparena, hroot, hchecks, -, hzero⟩ := Program.blank_eq_iff.1 hp
  obtain ⟨hgalike, hpositions⟩ := Arena.blank_eq_iff.1 hgarena
  have hpalike := (Arena.blank_eq_iff.1 hparena).1
  have hsame : ∀ i k, SameHandle g.nodes p.nodes i k →
      SameHandle g'.nodes p'.nodes i k := fun i k =>
    SameHandle.alike hgalike hpalike
  have hpos : ∀ id, g'.arena.position? id = g.arena.position? id := fun id => by
    rw [Arena.position?, Arena.position?, hpositions]
  obtain ⟨i, hi, hik⟩ := h.compiled.root
  refine ⟨h.graph.of_blank_eq hgarena, ⟨h.compiled.ok.of_blank_eq hp, hcopies, i, ?_, ?_⟩, ?_, ?_⟩
  · rw [hpos, hi]
  · exact hroot ▸ hsame i p.root hik
  · rw [← hchecks]
    refine h.checks.imp ?_
    rintro c k ⟨hrel, j, hj, hjk⟩
    exact ⟨hrel, j, by rw [hpos, hj], hsame j k.position hjk⟩
  · rw [← hzero, h.zeroRule, hsettings]

/-- **One evaluation**: the graph accepts it, both answer the same, and the program is a copy
still. -/
theorem evaluate (h : p.Simulates s g root constraints) {id : NodeId} {i k : Nat}
    (hi : g.arena.position? id = some i) (hik : SameHandle g.nodes p.nodes i k) {x y : List α}
    (hcheck : p.checkInput x y = .ok ()) :
    ∃ g' p', Graph.evaluate id x y g = .ok (denote p.nodes k ⟨x, y⟩) g' ∧
      onArena (Arena.evaluate k ⟨x, y⟩) p = .ok (denote p.nodes k ⟨x, y⟩) p' ∧
      p.blank = p'.blank ∧ p'.Simulates s g' root constraints := by
  have hok := h.compiled.ok
  have hin := hok.inputsFit hcheck k
  have haccepted : g.evaluable id x y = .ok i := (Graph.evaluable_eq_ok h.graph).2
    ⟨hi, h.compiled.copies.inputsFit h.graph.ids hik hin, length_of_checkInput hcheck⟩
  obtain ⟨b, b', hrun, hrun', hblank, hblank', hcopies⟩ :=
    h.compiled.copies.arena_evaluate h.graph hok.arena hik hin
  have hp : p.blank = Program.blank { p with arena := b' } :=
    Program.blank_eq_iff.2 ⟨hblank', rfl, rfl, rfl, rfl⟩
  exact ⟨{ g with arena := b }, { p with arena := b' }, Graph.evaluate_of_arena haccepted hrun,
    onArena_of_arena hrun', hp, h.of_blank_eq (Graph.blank_eq_iff.2 ⟨hblank, rfl, rfl⟩) hp hcopies⟩

/-- The objective has one component, in the graph as in the program. -/
theorem checkScalar (h : p.Simulates s g root constraints) : g.checkScalar root = .ok () := by
  obtain ⟨i, hi, hik⟩ := h.compiled.root
  obtain ⟨n, hn, rfl⟩ := (h.graph.table root i).1 hi
  obtain ⟨n', m, hn', hm, hcopy⟩ := h.compiled.copies.copy h.graph.ids hik
  obtain rfl := Option.some.inj (hn.symm.trans hn')
  obtain ⟨m', hm', hdim⟩ := h.compiled.ok.root
  obtain rfl := Option.some.inj (hm.symm.trans hm')
  exact bind_eq_ok.2 ⟨n, h.graph.node_eq hn, if_pos (hcopy.dimension_eq.symm.trans hdim)⟩

/-- A handle that the program knows is known to the graph. -/
theorem position (h : p.Simulates s g root constraints) {id : NodeId} {k : Nat}
    (hk : p.arena.position? id = some k) :
    ∃ i, g.arena.position? id = some i ∧ SameHandle g.nodes p.nodes i k := by
  obtain ⟨m, hm, rfl⟩ := (h.compiled.ok.arena.table id k).1 hk
  obtain ⟨i, n, hn, hcopy⟩ := h.compiled.copies k m hm
  have hi := (h.graph.table m.id i).2 ⟨n, hn, hcopy.id.symm⟩
  exact ⟨i, hi, h.graph.sameHandle h.compiled.ok.arena hi hk⟩

/-- The caches agree: what a node of the program holds is what the node with its handle holds in the
graph. -/
theorem value_eq (h : p.Simulates s g root constraints) :
    ∀ m ∈ p.nodes, g.arena.value m.id = .ok m.value := by
  intro m hm
  obtain ⟨k, hk⟩ := List.mem_iff_getElem?.1 hm
  obtain ⟨i, n, hn, hcopy⟩ := h.compiled.copies k m hk
  rw [hcopy.id, hcopy.value]
  exact bind_eq_ok.2 ⟨n, h.graph.node_eq hn, rfl⟩

/-- **One query is answered alike**, and leaves the program a copy of the graph. -/
theorem ask (h : p.Simulates s g root constraints) {q : Query α} (hq : q.AcceptedBy p) :
    ∃ r g' p', q.ofGraph root constraints g = .ok r g' ∧ q.ofProgram p = .ok r p' ∧
      p.blank = p'.blank ∧ p'.Simulates s g' root constraints := by
  cases q with
  | objective x y =>
    obtain ⟨i, hi, hik⟩ := h.compiled.root
    obtain ⟨g', p', hg, hp, hblank, hsim⟩ := h.evaluate hi hik hq
    obtain ⟨v, -, -, hv, -⟩ := objective_spec h.compiled.ok hq
    rw [hv] at hg hp
    have hgraph : Graph.evaluateScalar root x y g = .ok v g' :=
      Graph.evaluateScalar_of_evaluate h.checkScalar hg
    exact ⟨.number v, g', p', Action.bind_of_ok hgraph,
      Action.bind_of_ok (objective_of_onArena hq hp), hblank, hsim⟩
  | evaluate id x y =>
    obtain ⟨k, hk⟩ := hq
    obtain ⟨hpos, hcheck⟩ := evaluable_eq_ok.1 hk
    obtain ⟨i, hi, hik⟩ := h.position hpos
    obtain ⟨g', p', hg, hp, hblank, hsim⟩ := h.evaluate hi hik hcheck
    exact ⟨.vector _, g', p', Action.bind_of_ok hg, Action.bind_of_ok (evaluate_of_onArena hk hp),
      hblank, hsim⟩
  | fulfilled index x y =>
    obtain ⟨k, hk⟩ := hq
    obtain ⟨hindex, hcheck⟩ := checkable_eq_ok hk
    obtain ⟨c, hc, hrel, i, hi, hik⟩ := forall₂_getElem?_right h.checks hindex
    obtain ⟨g', p', hg, hp, hblank, hsim⟩ := h.evaluate hi hik hcheck
    have hgraph : Graph.fulfilled c x y g =
        .ok (k.relation.holds (denote p.nodes k.position ⟨x, y⟩) p.zeroRule) g' := by
      rw [Graph.fulfilled, Action.get_bind, Action.bind_of_ok hg, hrel, h.zeroRule]
      rfl
    refine ⟨.verdict _, g', p', ?_, Action.bind_of_ok (fulfilled_of_onArena hk hp), hblank, hsim⟩
    simp only [Query.ofGraph, hc]
    exact Action.bind_of_ok hgraph

/-- **Every sequence of queries** that the program accepts is answered alike, call by call, and the
caches agree after every call. -/
theorem trace (queries : List (Query α)) :
    ∀ {p : Program α} {g : Graph α}, p.Simulates s g root constraints →
      (∀ q ∈ queries, q.AcceptedBy p) → List.Forall₂ (fun a b => (∃ r, a.1 = .ok r ∧ b.1 = .ok r) ∧
          ∀ m ∈ b.2.nodes, a.2.arena.value m.id = .ok m.value)
        (Action.trace (Query.ofGraph root constraints) queries g)
        (Action.trace Query.ofProgram queries p) := by
  induction queries with
  | nil => exact fun _ _ => .nil
  | cons q queries ih =>
    intro p g h haccepted
    obtain ⟨r, g', p', hg, hp, hblank, hsim⟩ := h.ask (haccepted q List.mem_cons_self)
    have hrest : ∀ q ∈ queries, q.AcceptedBy p' := fun q hq =>
      (haccepted q (List.mem_cons_of_mem _ hq)).of_blank_eq hblank
    rw [Action.trace, Action.trace, Action.after_eq_of_ok hg, Action.after_eq_of_ok hp]
    exact .cons ⟨⟨r, Action.answer_eq_ok.2 ⟨g', hg⟩, Action.answer_eq_ok.2 ⟨p', hp⟩⟩, hsim.value_eq⟩
      (ih hsim hrest)

end Program.Simulates

variable [DecidableEq α]

/-- **A compiled program simulates its graph.** Whatever the caches of the graph hold when it is
compiled, whatever is left out, and however long the sequence of queries is: the graph accepts every
query that the program accepts, the answers are equal, and after every query each node of the
program holds what the node with its handle holds in the graph. -/
theorem program_simulates_graph (commands : List (Command α NodeId)) {g : Nat} {G : Graph α}
    (hG : (Session.runAll commands {}).graph? g = some G) {extraction : Extraction} {root : NodeId}
    {constraints : List Constraint} {P : Program α}
    (hP : G.compile extraction root constraints = .ok P) (queries : List (Query α))
    (haccepted : ∀ q ∈ queries, q.AcceptedBy P) :
    List.Forall₂
      (fun onGraph onProgram =>
        (∃ r, onGraph.1 = .ok r ∧ onProgram.1 = .ok r) ∧
          ∀ m ∈ onProgram.2.nodes, onGraph.2.arena.value m.id = .ok m.value)
      (Action.trace (Query.ofGraph root constraints) queries G)
      (Action.trace Query.ofProgram queries P) :=
  (compile_simulates (graphOK_runAll hG).arena hP).trace queries haccepted

/-- The quotient of two components, the logarithms of both, and the difference of a constraint. -/
def ratioCommands : List (Command ℚ NodeId) :=
  [.newGraph {}, .graph 0 (.build (.taggedVariable 2 .nonneg)),
    .graph 0 (.build (.component ⟨1⟩ 0)), .graph 0 (.build (.component ⟨1⟩ 1)),
    .graph 0 (.build (.log2 ⟨1⟩)), .graph 0 (.build (.div ⟨2⟩ ⟨3⟩)),
    .graph 0 (.atLeast ⟨5⟩ ⟨3⟩)]

/-- The quotient as the objective, asked twice, with the constraint and a shared
operand in between. -/
def ratioQueries : List (Query ℚ) :=
  [.objective [6, 4] [1, 2], .fulfilled 0 [6, 4] [1, 2], .evaluate ⟨3⟩ [5, 7] [1, 1],
    .objective [3, 9] [3, 9]]

/-- What the program of a quotient answers, its graph answers. -/
theorem program_simulates_graph_div : ∃ G, (Session.runAll ratioCommands {}).graph? 0 = some G ∧
    (Action.trace (Query.ofGraph ⟨5⟩ [⟨⟨7⟩, .nonPositive⟩]) ratioQueries G).map Prod.fst =
      [.ok (.number 3), .ok (.verdict false), .ok (.vector [7]), .ok (.number (1 / 3))] := by
  let G := ((Session.runAll ratioCommands {}).graph? 0).getD {}
  let P := ((G.compile .everything ⟨5⟩ [⟨⟨7⟩, .nonPositive⟩]).toOption).getD
    ⟨{}, 0, [], none, .rejectZero⟩
  have hG : (Session.runAll ratioCommands {}).graph? 0 = some G := by decide +kernel
  have hP : G.compile .everything ⟨5⟩ [⟨⟨7⟩, .nonPositive⟩] = .ok P := by decide +kernel
  have haccepted : ∀ q ∈ ratioQueries, q.AcceptedBy P := by
    intro q hq
    simp only [ratioQueries, List.mem_cons, List.not_mem_nil, or_false] at hq
    rcases hq with rfl | rfl | rfl | rfl
    · exact (by decide +kernel : P.checkInput [6, 4] [1, 2] = .ok ())
    · exact ⟨⟨6, .nonPositive⟩, by decide +kernel⟩
    · exact ⟨2, by decide +kernel⟩
    · exact (by decide +kernel : P.checkInput [3, 9] [3, 9] = .ok ())
  have hsame := program_simulates_graph ratioCommands hG hP ratioQueries haccepted
  have hprogram : (Action.trace Query.ofProgram ratioQueries P).map Prod.fst =
      [.ok (.number 3), .ok (.verdict false), .ok (.vector [7]), .ok (.number (1 / 3))] := by
    decide +kernel
  refine ⟨G, hG, hprogram ▸ map_eq_of_forall₂ hsame ?_⟩
  rintro a b ⟨⟨r, ha, hb⟩, -⟩
  rw [ha, hb]

end Ask

end MixedMonotone
