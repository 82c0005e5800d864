import Mathlib
import MixedMonotone.Session.Script
import MixedMonotone.Proofs.Atomicity
import MixedMonotone.Proofs.Rebinding

/-!
# A graph that shares constants and one that does not

Two builders make the same calls. One of them answers an equal constant with the node it has
already, the other one with a new node. So a node of the first one may stand for several of the
second one, and handles and positions drift apart, but what the handles name stays the same.

* `Builder.Unshares`: the second builder holds what the first one does, **with less shared**.
* `Unshares.append`, `Unshares.reuse`: adding a node on both sides, or on the second one only.
* `Parallel`: a call is refused alike on both sides and changes nothing, or is answered with the
  same node.
* `parallel_call`: so goes **every builder call**.
-/

namespace MixedMonotone

variable {α : Type}

/-! ## Corresponding positions -/

section Extended

variable {ρ σ : Type} {R : ρ → σ → Prop} {i : ρ} {k : σ}

/-- One more pair. -/
def Extended (R : ρ → σ → Prop) (i : ρ) (k : σ) : ρ → σ → Prop := fun j l => R j l ∨ (j = i ∧ l = k)

theorem Extended.old (j : ρ) (l : σ) (h : R j l) : Extended R i k j l := .inl h

theorem Extended.new : Extended R i k i k := .inr ⟨rfl, rfl⟩

end Extended

/-! ## Builders -/

/-- **The second builder holds what the first one does, with less shared**: every node of either one
stands for a node of the other one, and the second one shares no constants. -/
structure Builder.Unshares (R : Nat → Nat → Prop) (b b' : Builder α) : Prop where
  nodes : Corresponds (Node.Rebound R) R b.graph.nodes b'.graph.nodes
  left : ∀ i < b.graph.nodes.length, ∃ k, R i k
  right : ∀ k < b'.graph.nodes.length, ∃ i, R i k
  settings : b'.graph.settings = { b.graph.settings with internParameters := false }
  /-- What the table of shared constants leads to is such a constant. -/
  interned : ∀ e ∈ b.graph.interned, ∃ n ∈ b.graph.nodes, n.id = e.2 ∧
    n.kind = .parameter ∧ n.value = e.1

namespace Builder.Unshares

variable {R : Nat → Nat → Prop} {b b' : Builder α} {d d' : Draft α}

/-- The node that a draft becomes, on both sides. -/
theorem nodeOf (hd : d.Rebound R d') : (b.nodeOf d).Rebound R (b'.nodeOf d') :=
  ⟨hd.tag, hd.value, hd.kind⟩

/-- **Adding the same node** on both sides. -/
theorem append (h : b.Unshares R b') (hd : d.Rebound R d') :
    (b.append d).Unshares (Extended R b.graph.nodes.length b'.graph.nodes.length)
    (b'.append d') := by
  refine ⟨?_, ?_, ?_, h.settings, fun e he => ?_⟩
  · rw [b.nodes_append, b'.nodes_append]
    rintro i k (hik | ⟨rfl, rfl⟩)
    · obtain ⟨n, m, hn, hm, hnm, hops⟩ := h.nodes i k hik
      exact ⟨n, m, getElem?_append_of_eq_some hn _, getElem?_append_of_eq_some hm _,
        hnm.mono Extended.old, hops.imp Extended.old⟩
    · have hnode : (b.nodeOf d).Rebound R (b'.nodeOf d') := nodeOf hd
      exact ⟨_, _, List.getElem?_concat_length, List.getElem?_concat_length,
        hnode.mono Extended.old, hnode.operands.imp Extended.old⟩
  · intro i hi
    rw [b.nodes_append, List.length_append, List.length_singleton] at hi
    rcases Nat.lt_succ_iff_lt_or_eq.1 hi with hlt | rfl
    · obtain ⟨k, hik⟩ := h.left i hlt
      exact ⟨k, .inl hik⟩
    · exact ⟨_, Extended.new⟩
  · intro k hk
    rw [b'.nodes_append, List.length_append, List.length_singleton] at hk
    rcases Nat.lt_succ_iff_lt_or_eq.1 hk with hlt | rfl
    · obtain ⟨i, hik⟩ := h.right k hlt
      exact ⟨i, .inl hik⟩
    · exact ⟨_, Extended.new⟩
  · obtain ⟨n, hn, hentry⟩ := h.interned e he
    exact ⟨n, List.mem_append_left _ hn, hentry⟩

/-- Recording a constant that has just been added. -/
theorem record (h : b.Unshares R b') {values : List α} {n : Node α} (hn : n ∈ b.graph.nodes)
    (hkind : n.kind = .parameter) (hvalue : n.value = values) :
    (b.record values n.id).Unshares R b' := by
  refine ⟨h.nodes, h.left, h.right, h.settings, fun e he => ?_⟩
  rcases List.mem_cons.1 he with rfl | he
  · exact ⟨n, hn, rfl, hkind, hvalue⟩
  · exact h.interned e he

/-- **Adding a node on the second side only**, which the first one has already. -/
theorem reuse (h : b.Unshares R b') {i : Nat} {n : Node α} (hn : b.graph.nodes[i]? = some n)
    (hd : n.Rebound R (b'.nodeOf d')) :
    b.Unshares (Extended R i b'.graph.nodes.length) (b'.append d') := by
  refine ⟨?_, fun j hj => ?_, ?_, h.settings, h.interned⟩
  · rw [b'.nodes_append]
    rintro j l (hjl | ⟨rfl, rfl⟩)
    · obtain ⟨n, m, hn, hm, hnm, hops⟩ := h.nodes j l hjl
      exact ⟨n, m, hn, getElem?_append_of_eq_some hm _, hnm.mono Extended.old,
        hops.imp Extended.old⟩
    · have hnode := hd.mono (Extended.old (i := j) (k := b'.graph.nodes.length))
      exact ⟨n, _, hn, List.getElem?_concat_length, hnode, hnode.operands⟩
  · obtain ⟨k, hjk⟩ := h.left j hj
    exact ⟨k, .inl hjk⟩
  · intro k hk
    rw [b'.nodes_append, List.length_append, List.length_singleton] at hk
    rcases Nat.lt_succ_iff_lt_or_eq.1 hk with hlt | rfl
    · obtain ⟨j, hjk⟩ := h.right k hlt
      exact ⟨j, .inl hjk⟩
    · exact ⟨i, Extended.new⟩

end Builder.Unshares

/-- What a draft becomes on both sides, as an operand of the nodes to come. -/
theorem Draft.Rebound.operandOf {R : Nat → Nat → Prop} {d d' : Draft α} (hd : d.Rebound R d')
    (b b' : Builder α) :
    (b.operandOf d).Rebound (Extended R b.graph.nodes.length b'.graph.nodes.length)
    (b'.operandOf d') :=
  ⟨Extended.new, (Builder.Unshares.nodeOf hd).mono Extended.old⟩

/-! ## Calls -/

/-- A shared constant is found in the table. -/
theorem mem_of_interned? [DecidableEq α] {g : Graph α} {values : List α} {id : NodeId}
    (h : g.interned? values = some id) : (values, id) ∈ g.interned := by
  unfold Graph.interned? at h
  split at h
  · obtain ⟨⟨values', id'⟩, hfind, rfl⟩ := Option.map_eq_some_iff.1 h
    have hvalues : values' = values := by simpa using List.find?_some hfind
    exact hvalues ▸ List.mem_of_find?_eq_some hfind
  · cases h

/-- **A call goes the same way on both sides**: it is refused alike and changes nothing, or it is
answered with handles of the same node, and all handles that named the same node before still do. -/
inductive Parallel (H : NodeId → NodeId → Prop) (R : Nat → Nat → Prop) (b b' : Builder α) :
    EStateM.Result (Error α) (Builder α) NodeId → EStateM.Result (Error α) (Builder α) NodeId → Prop
  | answered {id id' : NodeId} {t t' : Builder α} (S : Nat → Nat → Prop) (h : t.Unshares S t')
      (hold : ∀ j j', NamesTogether R b.graph.nodes b'.graph.nodes j j' →
        NamesTogether S t.graph.nodes t'.graph.nodes j j')
      (hnew : NamesTogether S t.graph.nodes t'.graph.nodes id id') :
      Parallel H R b b' (.ok id t) (.ok id' t')
  | refused {e e' : Error α} (he : e.Renamed H e') : Parallel H R b b' (.error e b) (.error e' b')

section Calls

variable {H : NodeId → NodeId → Prop} {R : Nat → Nat → Prop} {b b' : Builder α}

/-- One node is added on both sides. -/
theorem parallel_append (h : b.Unshares R b') {d d' : Draft α} (hd : d.Rebound R d') :
    Parallel H R b b' (.ok b.next (b.append d)) (.ok b'.next (b'.append d')) :=
  .answered _ (h.append hd) (fun _ _ hj => hj.append Extended.old _ _)
    ⟨_, _, _, _, Extended.new, List.getElem?_concat_length, List.getElem?_concat_length, rfl, rfl⟩

/-- **What is worked out alike is added alike.** -/
theorem parallel_place (h : b.Unshares R b') {draft draft' : Graph α → Except (Error α) (Draft α)}
    (hd : Graph.Linked.Drafts H R (draft b.graph) (draft' b'.graph)) :
    Parallel H R b b' (Build.place draft b) (Build.place draft' b') := by
  unfold Build.place
  generalize draft b.graph = x, draft' b'.graph = x' at hd
  cases hd with
  | ok hd => exact parallel_append h hd
  | error he => exact .refused he

/-- A variable. -/
theorem parallel_declare [Scalar α] (h : b.Unshares R b') (v : VariableSpec α) :
    Parallel H R b b' (Build.declare v b) (Build.declare v b') := by
  unfold Build.declare
  exact parallel_place h (v.matched H R)

variable [Scalar α] (hok : GraphOK b.nextId b.log b.graph)
    (hok' : GraphOK b'.nextId b'.log b'.graph)
  (h : b.Unshares R b')
  (hH : ∀ id id', H id id' → NamesTogether R b.graph.nodes b'.graph.nodes id id')

include hok hok' h hH

/-- Handles of the same node are looked up alike. -/
theorem Builder.Unshares.linked : b.graph.Linked H R b'.graph := by
  refine ⟨fun id id' hid => ?_, ?_, ?_⟩
  · obtain ⟨i, k, n, m, hik, hn, hm, rfl, rfl⟩ := hH id id' hid
    obtain ⟨n', m', hn', hm', hnm, -⟩ := h.nodes i k hik
    obtain rfl := Option.some.inj (hn.symm.trans hn')
    obtain rfl := Option.some.inj (hm.symm.trans hm')
    rw [hok.arena.find_eq hn, hok'.arena.find_eq hm]
    exact .ok ⟨hik, hnm⟩
  · rw [h.settings]
  · rw [h.settings]

theorem parallel_sub {x y x' y' : NodeId} (hx : H x x') (hy : H y y') :
    Parallel H R b b' (Build.sub x y b) (Build.sub x' y' b') := by
  have hlinked := h.linked hok hok' hH
  have hmatched := hlinked.checkDifference hx hy
  generalize hcheck : b.graph.checkDifference x y = c,
    hcheck' : b'.graph.checkDifference x' y' = c' at hmatched
  cases hmatched with
  | error he =>
    rw [Build.sub, Build.sub, Action.inquire_bind_eq, Action.inquire_bind_eq, hcheck, hcheck']
    exact .refused he
  | ok _ =>
    obtain ⟨l, r, d, hl, hr, hd⟩ := Graph.checkDifference_eq_ok hcheck
    obtain ⟨l', r', d', hl', hr', hd'⟩ := Graph.checkDifference_eq_ok hcheck'
    have hll := hlinked.operand hx
    have hrr := hlinked.operand hy
    rw [hl, hl'] at hll
    rw [hr, hr'] at hrr
    cases hll with | ok hll => ?_
    cases hrr with | ok hrr => ?_
    obtain rfl : d = d' := by
      rw [hll.node.dimension_eq, hrr.node.dimension_eq, hd] at hd'
      exact Except.ok.inj hd'
    rw [sub_eq hok hl hr hd, sub_eq hok' hl' hr' hd']
    have hneg : (Draft.negation r).Rebound R (.negation r') := by
      unfold Draft.negation
      rw [hrr.node.dimension_eq, hrr.node.tag]
      exact rebound_function _ _ (.cons hrr .nil) _ _
    -- the sum reads the negation, which has just been added on both sides
    have hnegated := hneg.operandOf b b'
    have hsum : (Draft.sum l (b.operandOf (.negation r)) d).Rebound
        (Extended R b.graph.nodes.length b'.graph.nodes.length)
        (.sum l' (b'.operandOf (.negation r')) d) := by
      unfold Draft.sum
      rw [hll.node.tag, hnegated.node.tag]
      exact rebound_function _ _ (.cons (hll.mono Extended.old) (.cons hnegated .nil)) _ _
    refine .answered _ ((h.append hneg).append hsum) (fun _ _ hj => ?_)
      ⟨_, _, _, _, Extended.new, List.getElem?_concat_length, List.getElem?_concat_length, rfl, rfl⟩
    exact (hj.append Extended.old [b.nodeOf _] [b'.nodeOf _]).append Extended.old _ _

/-- The difference of a constraint. -/
theorem parallel_slack {x y x' y' : NodeId} (hx : H x x') (hy : H y y') :
    Parallel H R b b' (Build.slack x y b) (Build.slack x' y' b') := by
  have hmatched := (h.linked hok hok' hH).checkSameSize hx hy
  generalize hcheck : b.graph.checkSameSize x y = c,
    hcheck' : b'.graph.checkSameSize x' y' = c' at hmatched
  cases hmatched with
  | error he =>
    rw [Build.slack, Build.slack, Action.inquire_bind_eq, Action.inquire_bind_eq, hcheck, hcheck']
    exact .refused he
  | ok _ =>
    rw [Build.slack, Build.slack, Action.inquire_bind_eq, Action.inquire_bind_eq, hcheck, hcheck']
    exact parallel_sub hok hok' h hH hy hx

variable [DecidableEq α]

/-- **A constant**: the first side may have it already, the second one adds it. -/
theorem parallel_constant (values : List α) :
    Parallel H R b b' (Build.constant values b) (Build.constant values b') := by
  have hdraft := (h.linked hok hok' hH).parameter values
  have hnone : b'.graph.interned? values = none := by
    rw [Graph.interned?, h.settings]
    rfl
  have hunshared : Build.constant values b' =
      .ok b'.next (b'.append (b'.graph.draftParameter values)) := by
    rw [Build.constant, hnone, h.settings]
    rfl
  rw [hunshared]
  cases hinterned : b.graph.interned? values with
  | some id =>
    have hshared : Build.constant values b = .ok id b := by rw [Build.constant, hinterned]
    rw [hshared]
    obtain ⟨n, hn, rfl, hkind, hvalue⟩ := h.interned (values, id) (mem_of_interned? hinterned)
    obtain ⟨i, hi⟩ := List.mem_iff_getElem?.1 hn
    -- constants with the same components have the same tag
    have hnode : n.Rebound R (b'.nodeOf (b'.graph.draftParameter values)) := by
      have htag := hok.nodes i n hi
      rw [NodeOK, hkind] at htag
      refine ⟨?_, hvalue.symm, hkind ▸ .leaf .parameter (by simp)⟩
      change Tag.ofValues values b'.graph.settings.parameterSign = n.tag
      rw [h.settings, htag.2, hvalue]
    refine .answered _ (h.reuse hi hnode) (fun _ _ hj => ?_)
      ⟨i, _, n, _, Extended.new, hi, List.getElem?_concat_length, rfl, rfl⟩
    have hkept :=
      hj.append (S := Extended R i b'.graph.nodes.length) Extended.old
        [] [b'.nodeOf (b'.graph.draftParameter values)]
    rwa [List.append_nil] at hkept
  | none =>
    unfold Build.constant
    rw [hinterned]
    dsimp only
    split
    · have hrecorded := (h.append hdraft).record (n := b.nodeOf (b.graph.draftParameter values))
        List.mem_concat_self rfl rfl
      exact .answered _ hrecorded (fun _ _ hj => hj.append Extended.old _ _)
        ⟨_, _, _, _, Extended.new, List.getElem?_concat_length, List.getElem?_concat_length, rfl,
          rfl⟩
    · exact parallel_append h hdraft

theorem parallel_parameter (values : List α) :
    Parallel H R b b' (Build.parameter values b) (Build.parameter values b') := by
  unfold Build.parameter
  split
  · exact .refused (.refl rfl)
  · exact parallel_constant hok hok' h hH values

/-- **Every builder call goes the same way on both sides.** -/
theorem parallel_call {c c' : Call α NodeId} (hc : c.Renamed H c') :
    Parallel H R b b' (c.run b) (c'.run b') := by
  have hlinked := h.linked hok hok' hH
  cases hc with
  | taggedVariable | boundedVariable | declare => exact parallel_declare h _
  | parameter values => exact parallel_parameter hok hok' h hH values
  | scalar v => exact parallel_constant hok hok' h hH [v]
  | ones dimension => exact parallel_parameter hok hok' h hH _
  | matrixParameter m =>
    unfold Call.run Build.matrixParameter
    exact parallel_place h (hlinked.matrix m)
  | add ha hb | mul ha hb | div ha hb => exact parallel_place h (hlinked.arith _ ha hb)
  | sub ha hb => exact parallel_sub hok hok' h hH ha hb
  | dot ha hb => exact parallel_place h (hlinked.dot ha hb)
  | matvec ha hb => exact parallel_place h (hlinked.matvec ha hb)
  | neg ha | reciprocal ha | log2 ha | ln ha => exact parallel_place h (hlinked.unary _ _ _ ha)
  | sum ha => exact parallel_place h (hlinked.sum ha)
  | prod ha => exact parallel_place h (hlinked.prod ha)
  | list hitems => exact parallel_place h (hlinked.list hitems)
  | slice ha start length => exact parallel_place h (hlinked.slice ha start length .checked)
  | component ha i => exact parallel_place h (hlinked.slice ha i 1 .checked)

end Calls

end MixedMonotone
