import Mathlib
import MixedMonotone.Proofs.Handles
import MixedMonotone.Proofs.Histories

/-!
# Compacting a graph

A program holds the nodes below its objective and its constraints, or all. Their operands are among
them, and stand before them, so an operand has been copied when its parent is.

* `keptNodes`, `compact_copies`: compacting copies **the marked nodes, each once and in order**.
* `compact_total`: it **never misses an operand**, where the marks are closed under operands.
* `Graph.Keeps`, `mem_keptNodes_marks`: which nodes the marks are on, read off the graph.
* `roots_compact`: so compacting what a graph's roots mark always succeeds, with every root kept.
-/

namespace MixedMonotone

variable {α : Type}

/-! ## Compacting -/

/-- The marked nodes, in order. -/
def keptNodes (nodes : List (Node α)) (marks : List Bool) : List (Node α) :=
  ((nodes.zip marks).filter (·.2)).map Prod.fst

theorem keptNodes_sublist (nodes : List (Node α)) (marks : List Bool) :
    (keptNodes nodes marks).Sublist nodes :=
  (List.filter_sublist.map _).trans (map_fst_zip_sublist ..)

theorem mem_keptNodes {nodes : List (Node α)} {marks : List Bool} {n : Node α} :
    n ∈ keptNodes nodes marks ↔ ∃ i, nodes[i]? = some n ∧ Marked marks i := by
  constructor
  · intro h
    obtain ⟨⟨m, marked⟩, hmem, rfl⟩ := List.mem_map.1 h
    obtain ⟨hzip, hmarked⟩ := List.mem_filter.1 hmem
    obtain rfl : marked = true := hmarked
    obtain ⟨i, hi⟩ := List.mem_iff_getElem?.1 hzip
    exact ⟨i, List.getElem?_zip_eq_some.1 hi⟩
  · rintro ⟨i, hn, hmark⟩
    have hzip : (n, true) ∈ nodes.zip marks :=
      List.mem_of_getElem? (List.getElem?_zip_eq_some.2 ⟨hn, hmark⟩)
    exact List.mem_map.2 ⟨(n, true), List.mem_filter.2 ⟨hzip, rfl⟩, rfl⟩

/-- Compacting goes through the marked nodes. -/
theorem Arena.compact_eq (a : Arena α) (marks : List Bool) :
    a.compact marks = (keptNodes a.nodes marks).foldlM
      (fun copied n => do return copied.push (← rebind a.nodes copied n)) {} := by
  rw [keptNodes, List.foldlM_map]
  rfl

theorem rebind_id {nodes : List (Node α)} {copied : Arena α} {n m : Node α}
    (h : rebind nodes copied n = .ok m) : m.id = n.id := by
  unfold rebind at h
  cases hkind : n.kind with
  | function f =>
    rw [hkind] at h
    obtain ⟨operands, -, h⟩ := bind_eq_ok.1 h
    obtain rfl := Except.ok.inj h
    rfl
  | _ =>
    rw [hkind] at h
    obtain rfl := Except.ok.inj h
    rfl

/-- The loop appends one node per kept node, under its handle. -/
theorem ids_of_foldlM {nodes kept : List (Node α)} :
    ∀ {copied result : Arena α},
      kept.foldlM (fun copied n => do return copied.push (← rebind nodes copied n)) copied =
        .ok result →
      result.nodes.map Node.id = copied.nodes.map Node.id ++ kept.map Node.id := by
  induction kept with
  | nil =>
    intro copied result h
    obtain rfl := Except.ok.inj h
    simp
  | cons n kept ih =>
    intro copied result h
    rw [List.foldlM_cons] at h
    obtain ⟨copied', hstep, h⟩ := bind_eq_ok.1 h
    obtain ⟨m, hm, hstep⟩ := bind_eq_ok.1 hstep
    obtain rfl := Except.ok.inj hstep
    have hrest := ih h
    rw [Arena.push, List.map_append, List.map_singleton, rebind_id hm] at hrest
    simpa using hrest

theorem Arena.position?_push (a : Arena α) (n : Node α) (id : NodeId) :
    (a.push n).position? id = if id = n.id then some a.nodes.length else a.position? id := by
  unfold Arena.position? Arena.push
  rw [List.lookup_cons]
  by_cases hid : id = n.id
  · simp [hid]
  · simp [hid, beq_eq_false_iff_ne.2 hid]

/-- A handle with a position keeps having one. -/
theorem Arena.exists_position?_push {a : Arena α} {id : NodeId} (h : ∃ k, a.position? id = some k)
    (n : Node α) : ∃ k, (a.push n).position? id = some k := by
  rw [Arena.position?_push]
  by_cases hid : id = n.id
  · exact ⟨_, if_pos hid⟩
  · rw [if_neg hid]
    exact h

/-- Rebinding succeeds where all operands have been copied. -/
theorem exists_rebind {nodes : List (Node α)} {copied : Arena α} {n : Node α}
    (h : ∀ k ∈ n.operands, ∃ o, nodes[k]? = some o ∧ ∃ j, copied.position? o.id = some j) :
    ∃ m, rebind nodes copied n = .ok m := by
  unfold rebind
  cases hkind : n.kind with
  | function f =>
    have hoperands : ∃ operands, f.operands.mapM (rebindOperand nodes copied n) = .ok operands := by
      refine exists_mapM_iff.2 fun k hk => ?_
      obtain ⟨o, ho, j, hj⟩ := h k (by rw [Node.operands, hkind]; exact hk)
      exact ⟨j, by rw [rebindOperand, ho]; dsimp only; rw [hj]⟩
    obtain ⟨operands, hoperands⟩ := hoperands
    exact ⟨_, by dsimp only; rw [hoperands]; rfl⟩
  | _ => exact ⟨n, rfl⟩

/-- The nodes are closed under operands, which are older. -/
def OperandsAmong (nodes kept : List (Node α)) : Prop :=
  ∀ n ∈ kept, ∀ k ∈ n.operands, ∃ o ∈ kept, nodes[k]? = some o ∧ o.id.number < n.id.number

/-- **The loop ends**: of nodes in order and closed under operands, those already copied have
positions, and all operands of the next one are among them. -/
theorem foldlM_total {nodes kept : List (Node α)} (hinc : Increasing kept)
    (hclosed : OperandsAmong nodes kept) (todo : List (Node α)) :
    ∀ {done : List (Node α)} {copied : Arena α}, kept = done ++ todo →
      (∀ m ∈ done, ∃ k, copied.position? m.id = some k) →
      ∃ result,
        todo.foldlM (fun copied n => do return copied.push (← rebind nodes copied n)) copied =
          .ok result ∧
        ∀ m ∈ kept, ∃ k, result.position? m.id = some k := by
  induction todo with
  | nil =>
    intro done copied hkept hdone
    rw [List.append_nil] at hkept
    exact ⟨copied, rfl, hkept ▸ hdone⟩
  | cons n todo ih =>
    intro done copied hkept hdone
    have hn : n ∈ kept := by rw [hkept]; simp
    -- an older node among those that are kept has been copied
    have hearlier : ∀ o ∈ kept, o.id.number < n.id.number → o ∈ done := by
      intro o ho hlt
      rw [hkept] at ho hinc
      rcases List.mem_append.1 ho with ho | ho
      · exact ho
      · rcases List.mem_cons.1 ho with rfl | ho
        · omega
        · have hgt := (List.pairwise_cons.1 (List.pairwise_append.1 hinc).2.1).1 o ho
          omega
    obtain ⟨m, hm⟩ : ∃ m, rebind nodes copied n = .ok m := by
      refine exists_rebind fun k hk => ?_
      obtain ⟨o, ho, hok, hlt⟩ := hclosed n hn k hk
      exact ⟨o, hok, hdone o (hearlier o ho hlt)⟩
    have hpush : ∀ m' ∈ done ++ [n], ∃ k, (copied.push m).position? m'.id = some k := by
      intro m' hm'
      rcases List.mem_append.1 hm' with hm' | hm'
      · exact Arena.exists_position?_push (hdone m' hm') m
      · obtain rfl := List.mem_singleton.1 hm'
        exact ⟨_, by rw [Arena.position?_push, if_pos (rebind_id hm).symm]⟩
    obtain ⟨result, hrest, hresult⟩ := ih (by rw [hkept, List.append_assoc]; rfl) hpush
    refine ⟨result, ?_, hresult⟩
    rw [List.foldlM_cons, hm]
    exact hrest

variable [Scalar α] {s : Settings}

/-- **Compacting never misses an operand** of marked nodes that are closed under operands. -/
theorem compact_total {a : Arena α} (hok : ArenaOK s a) {marks : List Bool}
    (hclosed : ∀ i, Marked marks i → ∀ k ∈ operandsAt a.nodes i, Marked marks k) :
    ∃ result, a.compact marks = .ok result ∧
      ∀ n ∈ keptNodes a.nodes marks, ∃ k, result.position? n.id = some k := by
  have hinc : Increasing (keptNodes a.nodes marks) := hok.ids.sublist (keptNodes_sublist ..)
  have hamong : OperandsAmong a.nodes (keptNodes a.nodes marks) := by
    intro n hn k hk
    obtain ⟨i, hi, hmark⟩ := mem_keptNodes.1 hn
    have hoperand : k ∈ operandsAt a.nodes i := by rwa [operandsAt, hi]
    have hlt : k < i := hok.nodes.operands_lt i k hoperand
    obtain ⟨hil, rfl⟩ := List.getElem?_eq_some_iff.1 hi
    have ho : a.nodes[k]? = some a.nodes[k] := List.getElem?_eq_getElem (by omega)
    exact ⟨a.nodes[k], mem_keptNodes.2 ⟨k, ho, hclosed i hmark k hoperand⟩, ho,
      List.pairwise_iff_getElem.1 hok.ids k i (by omega) hil hlt⟩
  rw [Arena.compact_eq]
  exact foldlM_total hinc hamong _ (List.nil_append _).symm (by simp)

/-- **Compacting copies the marked nodes**, one after the other. -/
theorem compact_copies {a result : Arena α} (hok : ArenaOK s a) {marks : List Bool}
    (h : a.compact marks = .ok result) :
    List.Forall₂ (Node.Copy a.nodes result.nodes) (keptNodes a.nodes marks) result.nodes := by
  obtain ⟨-, hcopies⟩ := compact_spec hok h
  rw [Arena.compact_eq] at h
  have hids : (keptNodes a.nodes marks).map Node.id = result.nodes.map Node.id := by
    rw [ids_of_foldlM h]
    rfl
  have hlen : (keptNodes a.nodes marks).length = result.nodes.length := by
    simpa using congrArg List.length hids
  refine forall₂_of_getElem? hlen fun k n m hn hm => ?_
  -- the node at `k` is a copy of some node, and the handle says of which
  obtain ⟨i, n', hn', hcopy⟩ := hcopies k m hm
  have hid : n.id = m.id := by
    have hk := congrArg (·[k]?) hids
    simpa [hn, hm] using hk
  have hmem : n ∈ a.nodes := (keptNodes_sublist ..).subset (List.mem_of_getElem? hn)
  obtain rfl := hok.eq_of_id hmem (List.mem_of_getElem? hn') (hid.trans hcopy.id)
  exact hcopy

/-! ## What is kept -/

/-- **A program keeps the node**: every node, or those to which paths of operands lead from the
objective or from the node of a constraint. -/
def Graph.Keeps (g : Graph α) (extraction : Extraction) (root : NodeId)
    (constraints : List Constraint) (n : Node α) : Prop :=
  ∃ i, g.nodes[i]? = some n ∧ (extraction = .everything ∨
    ∃ r m, g.nodes[r]? = some m ∧ m.id ∈ root :: constraints.map ConstraintOn.node ∧
    Reaches g.nodes r i)

section Kept

variable {g : Graph α} {extraction : Extraction} {root : NodeId} {constraints : List Constraint}
  {roots : List Nat}

/-- The objective and the constraints name nodes. -/
theorem exists_node_of_root (hok : ArenaOK s g.arena) (h : g.roots root constraints = .ok roots)
    {id : NodeId} (hid : id ∈ root :: constraints.map ConstraintOn.node) :
    ∃ (r : Nat) (m : Node α), g.nodes[r]? = some m ∧ m.id = id := by
  obtain ⟨o, os, ho, -, hos, -⟩ := Graph.roots_eq_ok h
  rcases List.mem_cons.1 hid with rfl | hid
  · obtain ⟨hat, hroot, -⟩ := hok.operand_eq_ok_iff.1 ho
    exact ⟨o.position, o.node, hat, hroot⟩
  · obtain ⟨c, hc, rfl⟩ := List.mem_map.1 hid
    obtain ⟨o', -, hoperand⟩ := forall₂_mem_left hos hc
    obtain ⟨hat, hnode, -⟩ := hok.operand_eq_ok_iff.1 hoperand
    exact ⟨o'.position, o'.node, hat, hnode⟩

/-- The search starts where the handles of the objective and of the constraints stand. -/
theorem mem_roots (hok : ArenaOK s g.arena) (h : g.roots root constraints = .ok roots) {r : Nat} :
    r ∈ roots ↔ ∃ m, g.nodes[r]? = some m ∧ m.id ∈ root :: constraints.map ConstraintOn.node := by
  obtain ⟨o, os, ho, -, hos, rfl⟩ := Graph.roots_eq_ok h
  obtain ⟨hat, hid, -⟩ := hok.operand_eq_ok_iff.1 ho
  constructor
  · intro hr
    rcases List.mem_cons.1 hr with rfl | hr
    · exact ⟨o.node, hat, hid ▸ List.mem_cons_self⟩
    · obtain ⟨o', ho', rfl⟩ := List.mem_map.1 hr
      obtain ⟨c, hc, hoperand⟩ := forall₂_mem_left hos.flip ho'
      obtain ⟨hat', hid', -⟩ := hok.operand_eq_ok_iff.1 hoperand
      exact ⟨o'.node, hat', List.mem_cons_of_mem _ (hid' ▸ List.mem_map_of_mem hc)⟩
  · rintro ⟨m, hm, hmem⟩
    rcases List.mem_cons.1 hmem with hroot | hmem
    · rw [Increasing.position_unique hok.ids hm hat (hroot.trans hid.symm)]
      exact List.mem_cons_self
    · obtain ⟨c, hc, hnode⟩ := List.mem_map.1 hmem
      obtain ⟨o', ho', hoperand⟩ := forall₂_mem_left hos hc
      obtain ⟨hat', hid', -⟩ := hok.operand_eq_ok_iff.1 hoperand
      rw [Increasing.position_unique hok.ids hm hat' (hnode.symm.trans hid'.symm)]
      exact List.mem_cons_of_mem _ (List.mem_map_of_mem ho')

theorem marked_marks (hok : ArenaOK s g.arena) (h : g.roots root constraints = .ok roots) {i : Nat}
    (hi : i < g.nodes.length) :
    Marked (g.marks extraction roots) i ↔ extraction = .everything ∨
      ∃ r m, g.nodes[r]? = some m ∧ m.id ∈ root :: constraints.map ConstraintOn.node ∧
        Reaches g.nodes r i := by
  cases extraction with
  | everything => simp [Graph.marks, Marked, hi]
  | reachable =>
    have hroots : ∀ r ∈ roots, r < g.nodes.length := by
      intro r hr
      obtain ⟨m, hm, -⟩ := (mem_roots hok h).1 hr
      exact (List.getElem?_eq_some_iff.1 hm).1
    have hlt : ∀ i, ∀ k ∈ operandsAt g.nodes i, k < i := hok.nodes.operands_lt
    rw [Graph.marks, reachable_iff hlt hroots]
    simp only [mem_roots hok h, reduceCtorEq, false_or]
    constructor
    · rintro ⟨r, ⟨m, hm, hmem⟩, hri⟩
      exact ⟨r, m, hm, hmem, hri⟩
    · rintro ⟨r, m, hm, hmem, hri⟩
      exact ⟨r, ⟨m, hm, hmem⟩, hri⟩

/-- **The marks are on the nodes that a program keeps.** -/
theorem mem_keptNodes_marks (hok : ArenaOK s g.arena) (h : g.roots root constraints = .ok roots)
    {n : Node α} :
    n ∈ keptNodes g.nodes (g.marks extraction roots) ↔ g.Keeps extraction root constraints n := by
  rw [mem_keptNodes]
  refine exists_congr fun i => and_congr_right fun hn => ?_
  exact marked_marks hok h (List.getElem?_eq_some_iff.1 hn).1

/-- **What a graph's roots mark can be compacted**, and every root is kept. -/
theorem roots_compact (hok : ArenaOK s g.arena) (h : g.roots root constraints = .ok roots)
    (extraction : Extraction) :
    ∃ a, g.arena.compact (g.marks extraction roots) = .ok a ∧
      ∀ id ∈ root :: constraints.map ConstraintOn.node, ∃ k, a.position? id = some k := by
  have hclosed : ∀ i, Marked (g.marks extraction roots) i → ∀ k ∈ operandsAt g.nodes i,
      Marked (g.marks extraction roots) k := by
    intro i hi k hk
    have hil : i < g.nodes.length := by
      by_contra hge
      rw [operandsAt, List.getElem?_eq_none (by omega)] at hk
      cases hk
    have hkl : k < g.nodes.length := lt_trans (hok.nodes.operands_lt i k hk) hil
    rw [marked_marks hok h hil] at hi
    rw [marked_marks hok h hkl]
    rcases hi with heverything | ⟨r, m, hm, hmem, hri⟩
    · exact .inl heverything
    · exact .inr ⟨r, m, hm, hmem, hri.operand hk⟩
  obtain ⟨a, hrun, hkept⟩ := compact_total hok hclosed
  refine ⟨a, hrun, fun id hid => ?_⟩
  obtain ⟨r, m, hm, rfl⟩ := exists_node_of_root hok h hid
  exact hkept m ((mem_keptNodes_marks hok h).2 ⟨r, hm, .inr ⟨r, m, hm, hid, .refl r⟩⟩)

end Kept

end MixedMonotone
