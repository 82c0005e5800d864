import Mathlib
import MixedMonotone.Session.Script
import MixedMonotone.Proofs.Retagging
import MixedMonotone.Proofs.Signs

/-!
# Tags choose a faster path, never another value

Two scripts that build the same expressions and declare their variables with other tags go through
the same calls. Where the points have the signs that both of them declare, the values are the same:
a path that reads one route and the general one that reads both compute one bound.

* `Command.Retags`: builder commands that differ in declared tags at most; scripts of such commands
  have **the same outcomes** (`Script.agree_run`).
* `denote_retagged`: under truthful settings, nodes that differ in tags **denote the same**.
* `retagged_answers_same`: so every accepted evaluation is answered alike after both scripts.
-/

namespace MixedMonotone

variable {α ρ σ : Type}

/-! ## Scripts that declare other tags -/

/-- The same builder call, a variable's declared tag apart. -/
inductive Call.Retags : Call α ρ → Call α ρ → Prop
  | taggedVariable (dimension : Nat) (tag tag' : Tag) :
      Retags (.taggedVariable dimension tag) (.taggedVariable dimension tag')
  | declare (v : VariableSpec α) (tag : Tag) : Retags (.declare v) (.declare (v.withTag tag))
  | same (c : Call α ρ) : Retags c c

/-- The same builder command, a variable's declared tag apart. -/
inductive Command.Retags : Command α ρ → Command α ρ → Prop
  | freshId : Retags .freshId .freshId
  | newGraph (settings : Settings) : Retags (.newGraph settings) (.newGraph settings)
  | build (g : Nat) {c c' : Call α ρ} (hc : c.Retags c') : Retags (.graph g (.build c))
      (.graph g (.build c'))
  | atLeast (g : Nat) (lhs rhs : ρ) : Retags (.graph g (.atLeast lhs rhs))
      (.graph g (.atLeast lhs rhs))
  | atMost (g : Nat) (lhs rhs : ρ) : Retags (.graph g (.atMost lhs rhs))
      (.graph g (.atMost lhs rhs))
  | duplicate (g : Nat) : Retags (.graph g .duplicate) (.graph g .duplicate)

theorem Call.Retags.resolve {c c' : Call α ρ} (h : c.Retags c') (env : ρ → Option σ) :
    Option.Rel Call.Retags (c.resolve env) (c'.resolve env) := by
  cases h with
  | taggedVariable dimension tag tag' => exact .some (.taggedVariable dimension tag tag')
  | declare v tag => exact .some (.declare v tag)
  | same c =>
    cases c.resolve env with
    | none => exact .none
    | some c => exact .some (.same c)

/-- References are looked up alike. -/
theorem Command.Retags.resolve {c c' : Command α ρ} (h : c.Retags c') (env : ρ → Option σ) :
    Option.Rel Command.Retags (c.resolve env) (c'.resolve env) := by
  cases h with
  | freshId => exact .some .freshId
  | newGraph settings => exact .some (.newGraph settings)
  | @build g c c' hc =>
    have hcall := hc.resolve env
    simp only [Command.resolve, GraphCommand.resolve]
    generalize c.resolve env = x, c'.resolve env = x' at hcall
    cases hcall with
    | none => exact .none
    | some hc => exact .some (.build g hc)
  | atLeast g lhs rhs | atMost g lhs rhs =>
    simp only [Command.resolve, GraphCommand.resolve]
    cases env lhs with
    | none => exact .none
    | some l =>
      cases env rhs with
      | none => exact .none
      | some r => exact .some (by constructor)
  | duplicate g => exact .some (.duplicate g)

/-! ## Sessions -/

/-- Sessions whose graphs differ in tags at most. What they report may differ. -/
structure Session.Retagged (s s' : Session α) : Prop where
  nextId : s'.nextId = s.nextId
  models : List.Forall₂ (fun m m' : Model α => m.graph.Retagged m'.graph) s.models s'.models

section Sessions

variable {β β' : Type} {A : β → β' → Prop}

/-- A call on a model is made on both sides, or there is no such model on either. -/
theorem agree_onModel {act : Model α → Action α (Session α) β}
    {act' : Model α → Action α (Session α) β'}
    (h : ∀ m m', m.graph.Retagged m'.graph → Action.Agree Eq Session.Retagged A (act m) (act' m'))
    (g : Nat) :
    Action.Agree Eq Session.Retagged A (Session.onModel g act) (Session.onModel g act') := by
  intro s s' hs
  have hmodels := forall₂_rel_getElem? hs.models g
  unfold Action.answer Action.after Session.onModel
  generalize s.models[g]? = x, s'.models[g]? = x' at hmodels
  cases hmodels with
  | none => exact ⟨.error rfl, hs⟩
  | @some m m' hgraph => exact h m m' hgraph s s' hs

theorem agree_onBuilder {act : Build α β} {act' : Build α β'}
    (h : Action.Agree Eq Builder.Retagged A act act') (g : Nat) :
    Action.Agree Eq Session.Retagged A (Session.onBuilder g act) (Session.onBuilder g act') :=
  agree_onModel (fun _ _ hm => .focus (fun _ _ hs => ⟨hm, hs.nextId⟩)
    (fun _ _ _ _ hs hb => ⟨hb.nextId, forall₂_set_set hs.models g hb.graph⟩) h) g

/-- A graph read off on both sides. -/
theorem agree_onGraph_get (g : Nat) : Action.Agree (α := α) Eq Session.Retagged Graph.Retagged
    (Session.onGraph g get) (Session.onGraph g get) := by
  unfold Session.onGraph
  refine agree_onBuilder (.focus (S := Graph.Retagged) ?_ ?_ .get) g
  · exact fun _ _ hb => hb.graph
  · exact fun _ _ _ _ hb hg => ⟨hg, hb.nextId⟩

theorem agree_addGraph {G G' : Graph α} (h : G.Retagged G') :
    Action.Agree Eq Session.Retagged Eq (Session.addGraph G) (Session.addGraph G') := fun _ _ hs =>
  ⟨.ok hs.models.length_eq, hs.nextId, List.rel_append hs.models (.cons h .nil)⟩

theorem agree_freshId :
    Action.Agree (α := α) Eq Session.Retagged Eq Session.freshId Session.freshId :=
  fun _ _ hs => ⟨.ok (congrArg NodeId.mk hs.nextId.symm), congrArg (· + 1) hs.nextId, hs.models⟩

end Sessions

variable [Scalar α] [DecidableEq α]

theorem Call.Retags.agree {c c' : Call α NodeId} (h : c.Retags c') :
    Action.Agree Eq Builder.Retagged Eq c.run c'.run := by
  cases h with
  | taggedVariable dimension tag tag' => exact agree_place (VariableSpec.drafted _ tag')
  | declare v tag => exact agree_place (v.drafted tag)
  | same c => exact agree_call c

/-- **A builder command that declares another tag** is answered alike, or refused for the same
reason. -/
theorem Command.Retags.agree {c c' : Command α NodeId} (h : c.Retags c') :
    Action.Agree Eq Session.Retagged Eq (Session.run c) (Session.run c') := by
  cases h with
  | freshId => exact .bind agree_freshId fun _ _ hid => .pure (congrArg Reply.node hid)
  | newGraph settings =>
    exact .bind (agree_addGraph ⟨.nil, rfl, rfl, rfl⟩) fun _ _ hg => .pure (congrArg Reply.graph hg)
  | build g hc =>
    exact .bind (agree_onBuilder hc.agree g) fun _ _ hid => .pure (congrArg Reply.node hid)
  | atLeast g lhs rhs | atMost g lhs rhs =>
    refine .bind (agree_onBuilder (.bind (agree_slack lhs rhs) ?_) g) fun _ _ hc =>
      .pure (congrArg Reply.constraint hc)
    rintro node _ rfl
    exact .pure rfl
  | duplicate g =>
    exact .bind (agree_onGraph_get g) fun _ _ hG => .bind (agree_addGraph hG) fun _ _ hg =>
      .pure (congrArg Reply.graph hg)

namespace Script

section Step

variable {c c' : Command α Nat} {outcomes : List (Outcome α)} {s s' : Session α}

/-- One step has the same outcome. -/
theorem agree_step (h : c.Retags c') (outcomes : List (Outcome α)) (hs : s.Retagged s') :
    (step c outcomes s).1 = (step c' outcomes s').1 ∧
      (step c outcomes s).2.Retagged (step c' outcomes s').2 := by
  have hresolved := h.resolve (lookup outcomes)
  generalize hd : c.resolve (lookup outcomes) = x,
    hd' : c'.resolve (lookup outcomes) = x' at hresolved
  cases hresolved with
  | none =>
    rw [step_of_none hd, step_of_none hd']
    exact ⟨rfl, hs⟩
  | some hretags =>
    obtain ⟨hanswer, hafter⟩ := hretags.agree s s' hs
    rw [step_of_some hd, step_of_some hd']
    exact ⟨congrArg Outcome.of hanswer.eq, hafter⟩

end Step

/-- **A script that declares other tags has the same outcomes**, and leaves graphs that
differ in tags at most. -/
theorem agree_run {script script' : List (Command α Nat)}
    (h : List.Forall₂ Command.Retags script script') :
    ∀ (outcomes : List (Outcome α)) {s s' : Session α}, s.Retagged s' →
      (run script outcomes s).1 = (run script' outcomes s').1 ∧
        (run script outcomes s).2.Retagged (run script' outcomes s').2 := by
  induction h with
  | nil => exact fun _ _ _ hs => ⟨rfl, hs⟩
  | cons hc _ ih =>
    intro outcomes s s' hs
    obtain ⟨houtcome, hstep⟩ := agree_step hc outcomes hs
    simp only [run]
    rw [houtcome]
    exact ih _ hstep

end Script

/-! ## Nodes that differ in tags -/

variable {K : Type} [Field K] [LinearOrder K] [Logarithms K] {nodes nodes' : List (Node K)}

/-- The coefficients of a matrix-vector product do not enter its bound, the matrix does. -/
theorem Op.SameUpToKernel.bound_eq {op op' : Op K} (h : op.SameUpToKernel op') :
    op'.bound = op.bound := by
  cases h with
  | same => rfl
  | matvec kernel kernel' =>
    funext matrix? vs d
    rcases vs with _ | ⟨l, _ | ⟨r, _ | ⟨v, vs⟩⟩⟩ <;> rfl

variable [IsStrictOrderedRing K] {s s' : Settings}

/-- **Nodes that differ in tags denote the same**, at points that have the signs that the variables
below them declare on both sides. Whichever path the tags have chosen, it computes the bound of the
operator, and no tag enters that. -/
theorem denote_retagged (hsign : s.parameterSign = .reduced) (hdot : s.dotSign = .nonpositive)
    (hsign' : s'.parameterSign = .reduced) (hdot' : s'.dotSign = .nonpositive)
    (hok : NodesOK s nodes) (hok' : NodesOK s' nodes') (h : List.Forall₂ Node.Retagged nodes nodes')
    (i : Nat) :
    ∀ n points, nodes[i]? = some n → InputsFit nodes i points → RespectsSigns nodes i points →
      RespectsSigns nodes' i points → denote nodes' i points = denote nodes i points := by
  induction i using Nat.strong_induction_on with
  | _ i ih =>
    intro n points hn hin hsigns hsigns'
    obtain ⟨n', hn', hnode⟩ := forall₂_getElem? h hn
    obtain ⟨-, hvalue, hkind⟩ := hnode
    have hdim : n'.dimension = n.dimension := congrArg List.length hvalue
    have hops := hok.before hn
    have hops' := hok'.before hn'
    generalize hk : n.kind = k, hk' : n'.kind = k' at hkind
    cases hkind with
    | leaf k hleaf =>
      rw [denote_eq hn hops, denote_eq hn' hops', Node.denotes, Node.denotes, hk, hk', hvalue]
      cases k with
      | function f => exact absurd rfl (hleaf f)
      | _ => rfl
    | function hop plan plan' operands scratch =>
      obtain ⟨hlt, σs, hσs, hfits, -⟩ := hok.application hn hk
      obtain ⟨-, σs', hσs', hfits', -⟩ := hok'.application hn' hk'
      have hin' := hin.retagged h
      rw [denote_eq_bound hsign hdot hok hn hk hin hsigns hσs hfits,
        denote_eq_bound hsign' hdot' hok' hn' hk' hin' hsigns' hσs' hfits', hop.bound_eq,
        firstMatrix?_retagged h hσs hσs', hdim]
      -- the operands denote the same along both routes
      have hoperands : operands.map (denoteBoth nodes' points) =
          operands.map (denoteBoth nodes points) := by
        refine List.map_congr_left fun k hkmem => ?_
        have hmem := mem_operandsAt hn hk hkmem
        have hmem' := mem_operandsAt hn' hk' hkmem
        have hlen := lt_trans (hlt k hkmem) (List.getElem?_eq_some_iff.1 hn).1
        have hkn := List.getElem?_eq_getElem hlen
        have hkin := hin.operand hmem
        have hksigns := hsigns.operand hmem
        have hksigns' := hsigns'.operand hmem'
        unfold denoteBoth
        rw [ih k (hlt k hkmem) _ points hkn hkin hksigns hksigns',
          ih k (hlt k hkmem) _ points.flip hkn hkin.flip hksigns.flip hksigns'.flip]
      exact congrArg (fun vs => Op.bound _ _ vs _) hoperands

/-! ## Reachable graphs -/

/-- **Tags choose a faster path, never another value.** Two scripts of builder commands differ in
the tags that variables are declared with. They have the same outcomes, step by step, and every
graph of the one has a counterpart in the other. If the graph has the settings under which tags
follow the signs of values, every accepted evaluation is accepted and answered alike in both, at
points that have the signs which the variables below the node declare in either. A quotient by zero,
which is zero here, does no harm. -/
theorem retagged_answers_same {script script' : List (Command K Nat)}
    (h : List.Forall₂ Command.Retags script script') :
    (Script.run script [] {}).1 = (Script.run script' [] {}).1 ∧
    ∀ g G, (Script.run script [] {}).2.graph? g = some G →
      ∃ G', (Script.run script' [] {}).2.graph? g = some G' ∧ G'.settings = G.settings ∧
        (G.settings.parameterSign = .reduced → G.settings.dotSign = .nonpositive →
          ∀ id x y i, G.evaluable id x y = .ok i → RespectsSigns G.nodes i ⟨x, y⟩ →
            RespectsSigns G'.nodes i ⟨x, y⟩ → G'.evaluable id x y = .ok i ∧
              ∃ v, (Graph.evaluate id x y).answer G = .ok v ∧
                (Graph.evaluate id x y).answer G' = .ok v) := by
  have hstart : Session.Retagged ({} : Session K) {} := ⟨rfl, .nil⟩
  obtain ⟨houtcomes, -, hmodels⟩ := Script.agree_run h [] hstart
  obtain ⟨commands, hrun⟩ := Script.exists_runAll script [] {}
  obtain ⟨commands', hrun'⟩ := Script.exists_runAll script' [] {}
  refine ⟨houtcomes, fun g G hG => ?_⟩
  obtain ⟨m, hm, rfl⟩ := Option.map_eq_some_iff.1 hG
  obtain ⟨m', hm', hgraph⟩ := forall₂_getElem? hmodels hm
  have hG' : (Script.run script' [] {}).2.graph? g = some m'.graph := by
    rw [Session.graph?, hm', Option.map_some]
  refine ⟨m'.graph, hG', hgraph.settings, fun hsign hdot id x y i haccept hsigns hsigns' => ?_⟩
  have hok := (graphOK_runAll (hrun ▸ hG)).arena
  have hok' := (graphOK_runAll (hrun' ▸ hG')).arena
  obtain ⟨hpos, hin, hlen⟩ := (Graph.evaluable_eq_ok hok).1 haccept
  obtain ⟨n, hn, -⟩ := (hok.table id i).1 hpos
  have hpos' : m'.graph.arena.position? id = some i := by
    rw [Arena.position?, hgraph.positions]
    exact hpos
  have haccept' : m'.graph.evaluable id x y = .ok i :=
    (Graph.evaluable_eq_ok hok').2 ⟨hpos', hin.retagged hgraph.nodes, hlen⟩
  obtain ⟨G₁, hrun₁, -⟩ := Graph.evaluate_spec hok haccept
  obtain ⟨G₂, hrun₂, -⟩ := Graph.evaluate_spec hok' haccept'
  have hsame : denote m'.graph.nodes i ⟨x, y⟩ = denote m.graph.nodes i ⟨x, y⟩ :=
    denote_retagged hsign hdot (hgraph.settings ▸ hsign) (hgraph.settings ▸ hdot)
      hok.nodes hok'.nodes hgraph.nodes i n ⟨x, y⟩ hn hin hsigns hsigns'
  rw [hsame] at hrun₂
  exact ⟨haccept', _, Action.answer_eq_ok.2 ⟨G₁, hrun₁⟩, Action.answer_eq_ok.2 ⟨G₂, hrun₂⟩⟩

/-- A product less a quotient of two components of a variable with the given tag; one step is
refused. -/
def ratioScript (tag : Tag) : List (Command ℚ Nat) :=
  [.newGraph { dotSign := .nonpositive }, .graph 0 (.build (.taggedVariable 2 tag)),
    .graph 0 (.build (.component 1 0)), .graph 0 (.build (.component 1 1)),
    .graph 0 (.build (.component 1 2)), .graph 0 (.build (.mul 2 3)), .graph 0 (.build (.div 2 3)),
    .graph 0 (.build (.sub 5 6))]

theorem ratioScript_retags (tag tag' : Tag) :
    List.Forall₂ Command.Retags (ratioScript tag) (ratioScript tag') :=
  .cons (.newGraph _) <| .cons (.build 0 (.taggedVariable 2 tag tag')) <|
    .cons (.build 0 (.same _)) <|
    .cons (.build 0 (.same _)) <| .cons (.build 0 (.same _)) <| .cons (.build 0 (.same _)) <|
    .cons (.build 0 (.same _)) <| .cons (.build 0 (.same _)) .nil

/-- The direct path of nonnegative operands and the general one answer the same. -/
theorem retagged_answers_same_div : ∃ G G',
    (Script.run (ratioScript .nonneg) [] {}).2.graph? 0 = some G ∧
    (Script.run (ratioScript .unknown) [] {}).2.graph? 0 = some G' ∧
    G.nodes.map Node.tag ≠ G'.nodes.map Node.tag ∧
    (Graph.evaluate ⟨7⟩ [6, 1] [2, 3]).answer G = .ok [4] ∧
    (Graph.evaluate ⟨7⟩ [6, 1] [2, 3]).answer G' = .ok [4] := by
  let G := ((Script.run (ratioScript .nonneg) [] {}).2.graph? 0).getD {}
  let G₁ := ((Script.run (ratioScript .unknown) [] {}).2.graph? 0).getD {}
  have hG : (Script.run (ratioScript .nonneg) [] {}).2.graph? 0 = some G := by decide +kernel
  have hG₁ : (Script.run (ratioScript .unknown) [] {}).2.graph? 0 = some G₁ := by decide +kernel
  obtain ⟨commands, hrun⟩ := Script.exists_runAll (ratioScript .nonneg) [] {}
  have haccept : G.evaluable ⟨7⟩ [6, 1] [2, 3] = .ok 6 :=
    evaluable_of_all (hrun ▸ hG) (by decide +kernel) (by decide +kernel) rfl
  obtain ⟨-, hgraphs⟩ := retagged_answers_same (ratioScript_retags .nonneg .unknown)
  obtain ⟨G', hG', -, hsame⟩ := hgraphs 0 G hG
  obtain rfl := Option.some.inj (hG₁.symm.trans hG')
  obtain ⟨-, v, hv, hv'⟩ := hsame (by decide +kernel) (by decide +kernel)
    ⟨7⟩ [6, 1] [2, 3] 6 haccept (.of_all (by decide +kernel)) (.of_all (by decide +kernel))
  obtain ⟨G₂, hanswer, -⟩ := Graph.evaluate_spec (graphOK_runAll (hrun ▸ hG)).arena haccept
  have hvalue : denote G.nodes 6 ⟨[6, 1], [2, 3]⟩ = [4] := by decide +kernel
  rw [hvalue] at hanswer
  obtain rfl := Except.ok.inj ((Action.answer_eq_ok.2 ⟨G₂, hanswer⟩).symm.trans hv)
  exact ⟨G, G₁, hG, hG₁, by decide +kernel, hv, hv'⟩

end MixedMonotone
