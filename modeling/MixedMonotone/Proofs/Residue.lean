import Mathlib
import MixedMonotone.Proofs.Acceptance
import MixedMonotone.Proofs.LastVisit

/-!
# What an evaluation leaves

Every pass overwrites the nodes that it comes by, so a node keeps what the last pass by it left.

* `Leaves`: what a run leaves behind, given in which order each node was visited last; runs one
  after the other, along a route, and with the node's own value set in the end.
* `evaluateAt_leaves`: one pass, all passes, one node, and **by induction the whole evaluation**
  leaves what `lastVisit` says.
* `LeavesLastVisits`: the same read off the graph: what is not reached is untouched, and what is
  reached holds its pure value in the order of its last visit.
* `evaluations_leave_last_visits`: it is so for **every reachable graph and program**.
-/

namespace MixedMonotone

variable {α : Type}

/-! ## Constants -/

/-- The node is a constant vector or matrix. -/
def Node.IsConstant (n : Node α) : Prop :=
  match n.kind with
  | .parameter | .matrixParameter _ => True
  | _ => False

theorem Node.IsConstant.of_matrix {n : Node α} (h : n.isMatrix = true) : n.IsConstant := by
  unfold Node.isMatrix Node.matrix? at h
  unfold Node.IsConstant
  cases hkind : n.kind with
  | matrixParameter m => trivial
  | _ => simp [hkind, Kind.matrix?] at h

theorem Node.IsConstant.passes_eq {n : Node α} (h : n.IsConstant) : n.passes = [] := by
  unfold Node.IsConstant at h
  unfold Node.passes
  cases hkind : n.kind with
  | function f => simp [hkind] at h
  | _ => rfl

/-- Constants have no caches. -/
theorem Node.IsConstant.eq_of_blank_eq [Zero α] {n m : Node α} (h : n.IsConstant)
    (hblank : m.blank = n.blank) : m = n := by
  obtain ⟨id, tag, kind, value⟩ := n
  obtain ⟨id', tag', kind', value'⟩ := m
  unfold Node.IsConstant at h
  cases kind <;> cases kind' <;>
    simp_all [Node.blank, Kind.blank]

/-- What a pass runs: nothing for a matrix, or else the evaluation of its operand. -/
theorem runPass_cases {below : Nat → Evaluation α} {points : Points α}
    {before after : List (Node α)} {scratch scratch' : List (OperandValues α)} {q : Pass}
    (h : runPass below points (before, scratch) q = some (after, scratch')) :
    ∃ m, before[q.position]? = some m ∧ (m.isMatrix = true ∧ after = before ∨
      below q.position (points.along q.route) before = some after) := by
  obtain ⟨m, hm, h⟩ := Option.bind_eq_some_iff.1 h
  refine ⟨m, hm, ?_⟩
  by_cases hmatrix : m.isMatrix = true
  · rw [if_pos hmatrix] at h
    obtain ⟨rfl, -⟩ := Prod.mk.inj (Option.some.inj h)
    exact .inl ⟨hmatrix, rfl⟩
  · rw [if_neg hmatrix] at h
    obtain ⟨after', hrun, h⟩ := Option.bind_eq_some_iff.1 h
    obtain ⟨o, -, h⟩ := Option.bind_eq_some_iff.1 h
    obtain ⟨stored, -, h⟩ := Option.bind_eq_some_iff.1 h
    obtain ⟨rfl, -⟩ := Prod.mk.inj (Option.some.inj h)
    exact .inr hrun

variable [Scalar α] {nodes : List (Node α)}

theorem Node.IsConstant.denote_eq {n : Node α} (h : n.IsConstant) {i : Nat}
    (hn : nodes[i]? = some n) (hlt : ∀ k ∈ n.operands, k < i) (points : Points α) :
    denote nodes i points = n.value := by
  rw [MixedMonotone.denote_eq hn hlt, Node.denotes]
  unfold Node.IsConstant at h
  cases hkind : n.kind with
  | parameter | matrixParameter m => rfl
  | _ => simp [hkind] at h

/-! ## Runs -/

/-- **What a run leaves behind**: a node that was visited holds its pure value in the order of its
last visit, and any other node is as it was. -/
structure Leaves (nodes : List (Node α)) (visit : NodeId → Option Route) (points : Points α)
    (before after : List (Node α)) : Prop where
  alike : Alike before after
  missed : ∀ (j : Nat) (n : Node α), before[j]? = some n → visit n.id = none → after[j]? = some n
  visited : ∀ (j : Nat) (n : Node α) (r : Route), after[j]? = some n → visit n.id = some r →
    n.value = denote nodes j (points.along r)

namespace Leaves

variable {visit visit' : NodeId → Option Route} {points : Points α}
    {before middle after : List (Node α)}

theorem refl (nodes : List (Node α)) (points : Points α) (before : List (Node α)) :
    Leaves nodes (fun _ => none) points before before :=
  ⟨.refl before, fun _ _ hn _ => hn, fun _ _ _ _ h => by cases h⟩

/-- Of two runs the later one **takes precedence**. -/
theorem trans (h : Leaves nodes visit points before middle)
    (h' : Leaves nodes visit' points middle after) :
    Leaves nodes (fun id => (visit' id).or (visit id)) points before after := by
  refine ⟨h.alike.trans h'.alike, ?_, ?_⟩
  · intro j n hn hnone
    obtain ⟨hnone', hnone⟩ := Option.or_eq_none_iff.1 hnone
    exact h'.missed j n (h.missed j n hn hnone) hnone'
  · intro j n r hn hr
    cases hvisit' : visit' n.id with
    | some r' =>
      rw [hvisit', Option.some_or] at hr
      obtain rfl := Option.some.inj hr
      exact h'.visited j n _ hn hvisit'
    -- the later run has left the node as the earlier one did
    | none =>
      rw [hvisit', Option.none_or] at hr
      obtain ⟨m, hm, hid, -⟩ := h'.alike.before hn
      have hmn := h'.missed j m hm (hid ▸ hvisit')
      obtain rfl := Option.some.inj (hmn.symm.trans hn)
      exact h.visited j m r hm hr

/-- A run at the points as seen along a route. -/
theorem along {r : Route} (h : Leaves nodes visit (points.along r) before after) :
    Leaves nodes (fun id => (visit id).map r.compose) points before after := by
  refine ⟨h.alike, ?_, ?_⟩
  · intro j n hn hnone
    exact h.missed j n hn (Option.map_eq_none_iff.1 hnone)
  · intro j n r' hn hr
    obtain ⟨q, hq, rfl⟩ := Option.map_eq_some_iff.1 hr
    rw [← Dual.along_along]
    exact h.visited j n q hn hq

/-- Caches do not matter for what is denoted. -/
theorem of_alike {nodes' : List (Node α)} (h : Leaves nodes' visit points before after)
    (halike : Alike nodes nodes') : Leaves nodes visit points before after := by
  refine ⟨h.alike, h.missed, ?_⟩
  rw [denote_alike halike]
  exact h.visited

/-- A run that in the end sets the value of one node. -/
theorem set {i : Nat} {n n' : Node α} (hinc : Increasing nodes)
    (h : Leaves nodes visit points nodes middle) (hn : nodes[i]? = some n)
    (hafter : Alike nodes (middle.set i n')) (hvalue : n'.value = denote nodes i points) :
    Leaves nodes (fun id => if n.id = id then some .own else visit id) points nodes
      (middle.set i n') := by
  have hi : i < middle.length := h.alike.length_eq ▸ (List.getElem?_eq_some_iff.1 hn).1
  refine ⟨hafter, ?_, ?_⟩
  · intro j m hm hnone
    have hid : n.id ≠ m.id := fun hid => by rw [if_pos hid] at hnone; cases hnone
    have hne : i ≠ j := by
      rintro rfl
      exact hid (congrArg Node.id (Option.some.inj (hn.symm.trans hm)))
    rw [if_neg hid] at hnone
    rw [List.getElem?_set_ne hne]
    exact h.missed j m hm hnone
  · intro j m r hm hr
    -- ids are as they were, and no two nodes have the same
    obtain ⟨m', hm', hid, -⟩ := hafter.before hm
    by_cases hij : i = j
    · subst hij
      obtain rfl := Option.some.inj (hn.symm.trans hm')
      rw [if_pos hid] at hr
      rw [List.getElem?_set_self hi] at hm
      obtain rfl := Option.some.inj hm
      obtain rfl := Option.some.inj hr
      exact hvalue
    · have hne : n.id ≠ m.id := fun h => hij (hinc.position_unique hn hm' (h.trans hid.symm))
      rw [if_neg hne] at hr
      rw [List.getElem?_set_ne hij] at hm
      exact h.visited j m r hm hr

/-- A constant is visited in vain. -/
theorem constant {i : Nat} {n : Node α} (hinc : Increasing nodes) (halike : Alike nodes before)
    (hn : nodes[i]? = some n) (hlt : ∀ k ∈ n.operands, k < i) (hconstant : n.IsConstant) :
    Leaves nodes (lastVisit nodes i) points before before := by
  refine ⟨.refl before, fun _ _ hm _ => hm, fun j m r hm hr => ?_⟩
  by_cases hid : n.id = m.id
  · obtain ⟨m', hm', hid', hblank⟩ := halike.before hm
    obtain rfl := hinc.position_unique hn hm' (hid.trans hid'.symm)
    obtain rfl := Option.some.inj (hn.symm.trans hm')
    rw [hconstant.eq_of_blank_eq hblank.symm, hconstant.denote_eq hn hlt]
  · rw [lastVisit_eq hn hlt, if_neg hid, hconstant.passes_eq] at hr
    cases hr

end Leaves

/-! ## Evaluations -/

/-- Evaluation at smaller positions leaves what `lastVisit` says, in whatever state the caches
are. -/
def LeavesBelow (nodes : List (Node α)) (below : Nat → Evaluation α) (i : Nat) : Prop :=
  ∀ k < i, ∀ before after points, Alike nodes before → k < nodes.length → InputsFit nodes k points →
    below k points before = some after → Leaves nodes (lastVisit nodes k) points before after

section Passes

variable {s : Settings} {below : Nat → Evaluation α} {i : Nat} {f : Application α}
    {points : Points α}

variable (hok : NodesOK s nodes) (hinc : Increasing nodes) (hi : i < nodes.length)
  (hlt : ∀ k ∈ f.operands, k < i) (hbelow : LeavesBelow nodes below i)
  (hin : ∀ k ∈ f.operands, InputsFit nodes k points)

include hok hinc hi hlt hbelow hin

/-- **One pass.** -/
theorem runPass_leaves {before after : List (Node α)} {scratch scratch' : List (OperandValues α)}
    {q : Pass} (halike : Alike nodes before) (hq : q ∈ f.passes)
    (h : runPass below points (before, scratch) q = some (after, scratch')) :
    Leaves nodes (visitOf nodes [q]) points before after := by
  obtain ⟨hpos, -⟩ := mem_passes.1 hq
  have hmem : q.position ∈ f.operands := List.mem_of_getElem? hpos
  have hk : q.position < i := hlt _ hmem
  have hvisit : visitOf nodes [q] = fun id => (lastVisit nodes q.position id).map q.route.compose :=
    funext fun id => visitOf_singleton q
  obtain ⟨m, hm, ⟨hmatrix, rfl⟩ | hrun⟩ := runPass_cases h
  · obtain ⟨n, hn, hblank⟩ := halike.symm.getElem? hm
    have hconstant : n.IsConstant := by
      refine .of_matrix ?_
      rw [Node.isMatrix, Node.eq_of_blank Node.blank_matrix? hblank]
      exact hmatrix
    rw [hvisit]
    exact (Leaves.constant hinc halike hn (hok.before hn) hconstant).along
  · rw [hvisit]
    exact (hbelow _ hk before after _ halike (hk.trans hi) ((hin _ hmem).along q.route) hrun).along

/-- **All passes**, one after the other. -/
theorem runPasses_leaves {passes : List Pass} :
    ∀ {before after : List (Node α)} {scratch scratch' : List (OperandValues α)},
      Alike nodes before → (∀ q ∈ passes, q ∈ f.passes) →
      passes.foldlM (runPass below points) (before, scratch) = some (after, scratch') →
      Leaves nodes (visitOf nodes passes) points before after := by
  induction passes with
  | nil =>
    intro before after scratch scratch' _ _ h
    obtain ⟨rfl, -⟩ := Prod.mk.inj (Option.some.inj h)
    exact .refl nodes points before
  | cons q passes ih =>
    intro before after scratch scratch' halike hpasses h
    rw [List.foldlM_cons] at h
    obtain ⟨⟨middle, scratch₁⟩, hfirst, hrest⟩ := Option.bind_eq_some_iff.1 h
    have hq :=
      runPass_leaves hok hinc hi hlt hbelow hin halike (hpasses q List.mem_cons_self) hfirst
    have hrest :=
      ih (halike.trans hq.alike) (fun q hq => hpasses q (List.mem_cons_of_mem _ hq)) hrest
    have hvisit : visitOf nodes (q :: passes) =
        fun id => (visitOf nodes passes id).or (visitOf nodes [q] id) :=
      funext fun id => visitOf_append [q] passes
    rw [hvisit]
    exact hq.trans hrest

end Passes

/-- **One node.** -/
theorem evaluateNode_leaves {s : Settings} (hok : NodesOK s nodes) (hinc : Increasing nodes)
    {below : Nat → Evaluation α} {i : Nat} (hpure : EvaluatesBelow nodes below i)
    (hbelow : LeavesBelow nodes below i) {points : Points α} {n : Node α} (hn : nodes[i]? = some n)
    (hin : InputsFit nodes i points) {after : List (Node α)}
    (h : evaluateNode below i points nodes = some after) :
    Leaves nodes (lastVisit nodes i) points nodes after := by
  have hi : i < nodes.length := (List.getElem?_eq_some_iff.1 hn).1
  have hops := hok.before hn
  obtain ⟨after', hrun, halike, m, hm, hvalue⟩ := evaluateNode_spec hok hpure hn hin
  obtain rfl := Option.some.inj (h.symm.trans hrun)
  -- the node itself is set last, after what its passes leave
  have hvisit : lastVisit nodes i = fun id => if n.id = id then some .own
      else visitOf nodes n.passes id :=
    funext (lastVisit_eq hn hops)
  cases hkind : n.kind with
  | parameter | matrixParameter _ =>
    have hconstant : n.IsConstant := by rw [Node.IsConstant, hkind]; trivial
    obtain rfl : nodes = after := by simpa [evaluateNode, hn, hkind] using h
    exact .constant hinc (.refl nodes) hn hops hconstant
  | «variable» bounds =>
    have hpasses : n.passes = [] := by rw [Node.passes, hkind]
    obtain ⟨-, rfl⟩ : n.value.length = points.own.length ∧
        nodes.set i { n with value := points.own } = after := by
          simpa [evaluateNode, hn, hkind] using h
    rw [List.getElem?_set_self hi] at hm
    obtain rfl := Option.some.inj hm
    rw [hvisit, hpasses]
    exact (Leaves.refl nodes points nodes).set hinc hn halike hvalue
  | function f =>
    have hlt := (hok.application hn hkind).before
    have hins : ∀ k ∈ f.operands, InputsFit nodes k points := fun k hk =>
      hin.operand (mem_operandsAt hn hkind hk)
    obtain ⟨n', hn', h⟩ := Option.bind_eq_some_iff.1 h
    obtain rfl := Option.some.inj (hn.symm.trans hn')
    rw [hkind] at h
    obtain ⟨⟨middle, scratch⟩, hpasses, h⟩ := Option.bind_eq_some_iff.1 h
    obtain ⟨value, -, h⟩ := Option.bind_eq_some_iff.1 h
    obtain rfl := Option.some.inj h
    have hleaves :=
      runPasses_leaves hok hinc hi hlt hbelow hins (.refl nodes) (fun q hq => hq) hpasses
    rw [List.getElem?_set_self (hleaves.alike.length_eq ▸ hi)] at hm
    obtain rfl := Option.some.inj hm
    rw [hvisit, Node.passes_function hkind]
    exact hleaves.set hinc hn halike hvalue

/-- **An evaluation leaves what the last visits say.** -/
theorem evaluateAt_leaves {s : Settings} (i : Nat) :
    ∀ {nodes after : List (Node α)} {points : Points α}, NodesOK s nodes → Increasing nodes →
      i < nodes.length → InputsFit nodes i points → evaluateAt i points nodes = some after →
      Leaves nodes (lastVisit nodes i) points nodes after := by
  induction i using Nat.strong_induction_on with
  | _ i ih =>
    intro nodes after points hok hinc hi hin h
    rw [evaluateAt_eq] at h
    refine evaluateNode_leaves hok hinc ?_ ?_ (List.getElem?_eq_getElem hi) hin h
    · intro k hk before points' halike hkl hkin
      rw [evaluateBelow_of_lt hk]
      obtain ⟨after', hrun, halike', hvalue⟩ := evaluateAt_spec k (hok.alike halike)
        (halike.length_eq ▸ hkl) (hkin.alike halike)
      exact ⟨after', hrun, halike.trans halike', denote_alike halike ▸ hvalue⟩
    -- earlier passes have changed the caches, and those only
    · intro k hk before after' points' halike hkl hkin hrun
      rw [evaluateBelow_of_lt hk] at hrun
      have hleaves := ih k hk (hok.alike halike) (hinc.alike halike) (halike.length_eq ▸ hkl)
        (hkin.alike halike) hrun
      rw [← lastVisit_alike halike] at hleaves
      exact hleaves.of_alike halike

/-! ## Read off the graph -/

/-- **Every node holds what its last visit left**, after the evaluation of the node at a
position. -/
structure LeavesLastVisits (nodes after : List (Node α)) (i : Nat) (points : Points α) : Prop where
  /-- What is not reached is as it was. -/
  unreached : ∀ j, ¬ Reaches nodes i j → after[j]? = nodes[j]?
  constants : ∀ (j : Nat) (n : Node α), nodes[j]? = some n → n.IsConstant → after[j]? = some n
  /-- What is reached holds its pure value in the order of its last visit. -/
  reached : ∀ (j : Nat) (n : Node α), nodes[j]? = some n → Reaches nodes i j →
    after[j]?.map Node.value = some (denote nodes j (lastOrder nodes i n.id points))

theorem Leaves.leavesLastVisits {s : Settings} {after : List (Node α)} {i : Nat} {points : Points α}
    (h : Leaves nodes (lastVisit nodes i) points nodes after) (hok : NodesOK s nodes)
    (hinc : Increasing nodes) (hi : i < nodes.length) : LeavesLastVisits nodes after i points := by
  have hvisited : ∀ {j m}, nodes[j]? = some m →
      ((lastVisit nodes i m.id).isSome ↔ Reaches nodes i j) :=
    fun hm => lastVisit_isSome_iff hok.operands_lt hinc hm i _ (List.getElem?_eq_getElem hi)
  refine ⟨?_, ?_, ?_⟩
  · intro j hij
    cases hm : nodes[j]? with
    | none =>
      rw [List.getElem?_eq_none_iff] at hm ⊢
      rwa [← h.alike.length_eq]
    | some m =>
      refine h.missed j m hm ?_
      rwa [← Option.not_isSome_iff_eq_none, hvisited hm]
  · intro j m hm hconstant
    obtain ⟨m', hm', hblank⟩ := h.alike.getElem? hm
    rw [hm', hconstant.eq_of_blank_eq hblank]
  · intro j m hm hij
    obtain ⟨m', hm', hid, -⟩ := h.alike.symm.before hm
    obtain ⟨r, hr⟩ := Option.isSome_iff_exists.1 ((hvisited hm).2 hij)
    rw [lastOrder, hr, hm', Option.map_some, h.visited j m' r hm' (hid ▸ hr)]
    rfl

/-- An accepted evaluation of an arena leaves the last visits, **and changes caches only**. -/
theorem Arena.evaluate_leaves {s : Settings} {a : Arena α} (hok : ArenaOK s a) {i : Nat}
    (hi : i < a.nodes.length) {points : Points α} (hin : InputsFit a.nodes i points) :
    ∃ a', Arena.evaluate i points a = .ok (denote a.nodes i points) a' ∧ a.blank = a'.blank ∧
      LeavesLastVisits a.nodes a'.nodes i points := by
  obtain ⟨after, hrun, halike, n, hn, hvalue⟩ := evaluateAt_spec i hok.nodes hi hin
  have hleaves := evaluateAt_leaves i hok.nodes hok.ids hi hin hrun
  refine ⟨{ a with nodes := after }, ?_, Arena.blank_eq_iff.2 ⟨halike, rfl⟩,
    hleaves.leavesLastVisits hok.nodes hok.ids hi⟩
  simp only [Arena.evaluate, hrun, hn, hvalue]

/-! ## Graphs and programs -/

/-- **Evaluations of a graph leave what the last visits say**, and change caches only. -/
structure Graph.LeavesLastVisits (g : Graph α) : Prop where
  order : FollowsLastVisit g.nodes (lastOrder (β := α) g.nodes)
  evaluate : ∀ id x y, g.Accepts id x y → ∃ i v g', g.nodes[i]?.map Node.id = some id ∧
    Graph.evaluate id x y g = .ok v g' ∧ g.blank = g'.blank ∧
    MixedMonotone.LeavesLastVisits g.nodes g'.nodes i ⟨x, y⟩

/-- **Evaluations of a program leave what the last visits say**, and change caches only. -/
structure Program.LeavesLastVisits (p : Program α) : Prop where
  order : FollowsLastVisit p.nodes (lastOrder (β := α) p.nodes)
  evaluate : ∀ id x y, (∃ n ∈ p.nodes, n.id = id) → p.Takes x y → ∃ i v p',
    p.nodes[i]?.map Node.id = some id ∧ Program.evaluate id x y p = .ok v p' ∧ p.blank = p'.blank ∧
    MixedMonotone.LeavesLastVisits p.nodes p'.nodes i ⟨x, y⟩
  objective : ∀ x y, p.Takes x y → ∃ v p', Program.objective x y p = .ok v p' ∧ p.blank = p'.blank ∧
    MixedMonotone.LeavesLastVisits p.nodes p'.nodes p.root ⟨x, y⟩
  fulfilled : ∀ index c x y, p.constraints[index]? = some c → p.Takes x y → ∃ b p',
    Program.fulfilled index x y p = .ok b p' ∧ p.blank = p'.blank ∧
    MixedMonotone.LeavesLastVisits p.nodes p'.nodes c.position ⟨x, y⟩

theorem ArenaOK.leavesLastVisits {s : Settings} {g : Graph α} (hok : ArenaOK s g.arena) :
    g.LeavesLastVisits := by
  refine ⟨lastVisit_follows hok.nodes.operands_lt hok.ids, fun id x y haccepts => ?_⟩
  obtain ⟨i, hi⟩ := (Graph.exists_evaluable_iff hok).2 haccepts
  obtain ⟨hpos, hin, -⟩ := (Graph.evaluable_eq_ok hok).1 hi
  obtain ⟨a, hrun, hblank, hleaves⟩ := Arena.evaluate_leaves hok (hok.position_lt hpos) hin
  exact ⟨i, _, { g with arena := a }, hok.position?_eq_some_iff.1 hpos,
    Graph.evaluate_of_arena hi hrun, Graph.blank_eq_iff.2 ⟨hblank, rfl, rfl⟩, hleaves⟩

theorem ProgramOK.onArena_leaves {s : Settings} {p : Program α} (hok : ProgramOK s p) {i : Nat}
    (hi : i < p.nodes.length) {x y : List α} (htakes : p.Takes x y) :
    ∃ p', Program.onArena (Arena.evaluate i ⟨x, y⟩) p = .ok (denote p.nodes i ⟨x, y⟩) p' ∧
      p.blank = p'.blank ∧ LeavesLastVisits p.nodes p'.nodes i ⟨x, y⟩ := by
  have hin := hok.inputsFit (Program.checkInput_eq_ok_iff.2 htakes) i
  obtain ⟨a, hrun, hblank, hleaves⟩ := Arena.evaluate_leaves hok.arena hi hin
  exact ⟨{ p with arena := a }, Program.onArena_of_arena hrun,
    Program.blank_eq_iff.2 ⟨hblank, rfl, rfl, rfl, rfl⟩, hleaves⟩

theorem ProgramOK.leavesLastVisits {s : Settings} {p : Program α} (hok : ProgramOK s p) :
    p.LeavesLastVisits := by
  refine ⟨lastVisit_follows hok.nodes.operands_lt hok.arena.ids, ?_, ?_, ?_⟩
  · intro id x y hknown htakes
    obtain ⟨i, hpos⟩ := hok.arena.exists_position?_iff.2 hknown
    have hi : p.evaluable id x y = .ok i :=
      Program.evaluable_eq_ok.2 ⟨hpos, Program.checkInput_eq_ok_iff.2 htakes⟩
    obtain ⟨p', hrun, hblank, hleaves⟩ := hok.onArena_leaves (hok.arena.position_lt hpos) htakes
    exact ⟨i, _, p', hok.arena.position?_eq_some_iff.1 hpos, Program.evaluate_of_onArena hi hrun,
      hblank, hleaves⟩
  · intro x y htakes
    have hcheck := Program.checkInput_eq_ok_iff.2 htakes
    obtain ⟨v, -, -, hv, -⟩ := Program.objective_spec hok hcheck
    obtain ⟨p', hrun, hblank, hleaves⟩ := hok.onArena_leaves hok.root_lt htakes
    rw [hv] at hrun
    exact ⟨v, p', Program.objective_of_onArena hcheck hrun, hblank, hleaves⟩
  · intro index c x y hc htakes
    have hcheckable : p.checkable index x y = .ok c :=
      Program.checkable_eq_ok_iff.2 ⟨hc, Program.checkInput_eq_ok_iff.2 htakes⟩
    have hlt := hok.checks c (List.mem_of_getElem? hc)
    obtain ⟨p', hrun, hblank, hleaves⟩ := hok.onArena_leaves hlt htakes
    exact ⟨_, p', Program.fulfilled_of_onArena hcheckable hrun, hblank, hleaves⟩

variable [DecidableEq α]

/-- **What every accepted evaluation of a reachable graph or program leaves in the caches**: nodes
that it did not reach, and constants, are as they were; every other one holds its pure value in the
order of the points in which it was visited last. Nothing else changes. -/
theorem evaluations_leave_last_visits (commands : List (Command α NodeId)) {g : Nat} {G : Graph α}
    (hG : (Session.runAll commands {}).graph? g = some G) :
    G.LeavesLastVisits ∧
      ∀ p P, (Session.runAll commands {}).program? g p = some P → P.LeavesLastVisits := by
  refine ⟨(graphOK_runAll hG).arena.leavesLastVisits, fun p P hP => ?_⟩
  obtain ⟨s, hok⟩ := programOK_runAll hP
  exact hok.leavesLastVisits

/-- A quotient of a variable and its negative, and another variable, all of it compiled. -/
def sharedCommands : List (Command ℚ NodeId) :=
  [.newGraph {}, .graph 0 (.build (.taggedVariable 1 .unknown)), .graph 0 (.build (.neg ⟨1⟩)),
    .graph 0 (.build (.div ⟨1⟩ ⟨2⟩)), .graph 0 (.build (.taggedVariable 1 .unknown)),
    .graph 0 (.compile .everything ⟨3⟩ [])]

/-- The divisor is visited last with the points exchanged, and exchanges them again for the
variable. -/
theorem evaluations_leave_last_visits_shared : ∃ G v G' P w P',
    (Session.runAll sharedCommands {}).graph? 0 = some G ∧ Graph.evaluate ⟨3⟩ [6] [2] G = .ok v G' ∧
    G'.nodes[0]?.map Node.value = some [(6 : ℚ)] ∧ G'.nodes[1]?.map Node.value = some [(-6 : ℚ)] ∧
    G'.nodes[3]? = G.nodes[3]? ∧
    (Session.runAll sharedCommands {}).program? 0 0 = some P ∧
    Program.objective [6] [2] P = .ok w P' ∧ P'.nodes[1]?.map Node.value = some [(-6 : ℚ)] := by
  obtain ⟨G, hG, hvars, hops, ⟨q, hq, hqid⟩, ⟨n, hn, hleft⟩, m, hm, hright⟩ :
      ∃ G, (Session.runAll sharedCommands {}).graph? 0 = some G ∧
        (∀ n ∈ G.nodes, n.isVariable = true → n.dimension = 1) ∧ operandsAt G.nodes 2 = [0, 1] ∧
        (∃ q, G.nodes[2]? = some q ∧ q.id = ⟨3⟩) ∧
        (∃ n, G.nodes[0]? = some n ∧ denote G.nodes 0 (lastOrder G.nodes 2 n.id ⟨[6], [2]⟩) = [6]) ∧
        ∃ m, G.nodes[1]? = some m ∧ denote G.nodes 1 (lastOrder G.nodes 2 m.id ⟨[6], [2]⟩) = [-6] :=
    ⟨((Session.runAll sharedCommands {}).graph? 0).getD {}, by decide +kernel⟩
  obtain ⟨P, hP, hcheck, hroot, k, hk, hdivisor⟩ :
      ∃ P, (Session.runAll sharedCommands {}).program? 0 0 = some P ∧
      P.checkInput [6] [2] = .ok () ∧
        1 ∈ operandsAt P.nodes P.root ∧
        ∃ k, P.nodes[1]? = some k ∧
        denote P.nodes 1 (lastOrder P.nodes P.root k.id ⟨[6], [2]⟩) = [-6] :=
    ⟨((Session.runAll sharedCommands {}).program? 0 0).getD ⟨{}, 0, [], none, .rejectZero⟩,
      by decide +kernel⟩
  have hok := (graphOK_runAll hG).arena
  have hplace : G.nodes[2]?.map Node.id = some ⟨3⟩ := by rw [hq, Option.map_some, hqid]
  have haccepts : G.Accepts ⟨3⟩ [6] [2] :=
    ⟨2, hplace, rfl, fun j k _ hk hv => hvars k (List.mem_of_getElem? hk) hv⟩
  obtain ⟨hgraph, hprograms⟩ := evaluations_leave_last_visits sharedCommands hG
  obtain ⟨i, v, G', hi, hrun, -, hleaves⟩ := hgraph.evaluate ⟨3⟩ [6] [2] haccepts
  obtain ⟨q', hq', hqid'⟩ := Option.map_eq_some_iff.1 hi
  obtain rfl : i = 2 := Increasing.position_unique hok.ids hq' hq (hqid'.trans hqid.symm)
  obtain ⟨w, P', hobjective, -, hleft'⟩ :=
    (hprograms 0 P hP).objective [6] [2] (Program.checkInput_eq_ok_iff.1 hcheck)
  refine ⟨G, v, G', P, w, P', hG, hrun, ?_, ?_, ?_, hP, hobjective, ?_⟩
  · rw [hleaves.reached 0 n hn (.head (by rw [hops]; decide) (.refl 0)), hleft]
  · rw [hleaves.reached 1 m hm (.head (by rw [hops]; decide) (.refl 1)), hright]
  · refine hleaves.unreached 3 fun hreach => ?_
    have hle : 3 ≤ 2 := hreach.le hok.nodes.operands_lt
    omega
  · rw [hleft'.reached 1 k hk (.head hroot (.refl 1)), hdivisor]

end MixedMonotone
