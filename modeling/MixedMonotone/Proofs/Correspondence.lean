import Mathlib
import MixedMonotone.Proofs.Evaluation

/-!
# Arenas in correspondence

Two arenas may hold the same expressions at other positions, under other handles and shared in other
ways. A relation between positions says which of them belong together.

* `Corresponds`: related positions hold related nodes, and the operands are **related in order**.
* `Corresponds.byOperands_eq`: what is defined by recursion on operands is the same at related
  positions.
* `Corresponds.reaches`, `Corresponds.inputsFit`: what stands below one of two related positions
  stands below the other one as well.
* `NamesTogether`: handles that name nodes at related positions.
* `corresponds_append`: nodes to which others are added.
-/

namespace MixedMonotone

variable {α β : Type}

/-- **Related positions hold related nodes**, whose operands are related in order. -/
def Corresponds (P : Node α → Node α → Prop) (R : Nat → Nat → Prop)
    (nodes nodes' : List (Node α)) : Prop :=
  ∀ i k, R i k → ∃ n m, nodes[i]? = some n ∧ nodes'[k]? = some m ∧ P n m ∧
    List.Forall₂ R n.operands m.operands

namespace Corresponds

variable {P : Node α → Node α → Prop} {R : Nat → Nat → Prop} {nodes nodes' : List (Node α)}
    {i k : Nat}

theorem flip (h : Corresponds P R nodes nodes') : Corresponds (flip P) (flip R) nodes' nodes := by
  intro k i hik
  obtain ⟨n, m, hn, hm, hnm, hops⟩ := h i k hik
  exact ⟨m, n, hm, hn, hnm, hops.flip⟩

/-- What stands below the one stands below the other. -/
theorem reaches (h : Corresponds P R nodes nodes') (hik : R i k) {j : Nat}
    (hij : Reaches nodes i j) : ∃ l, R j l ∧ Reaches nodes' k l := by
  induction hij with
  | refl => exact ⟨k, hik, .refl k⟩
  | @operand j j' _ hj ih =>
    obtain ⟨l, hjl, hkl⟩ := ih
    obtain ⟨n, m, hn, hm, -, hops⟩ := h j l hjl
    simp only [operandsAt, hn, Option.map_some, Option.getD_some] at hj
    obtain ⟨l', hl', hjl'⟩ := forall₂_mem_left hops hj
    exact ⟨l', hjl',
      hkl.operand (by simpa only [operandsAt, hm, Option.map_some, Option.getD_some])⟩

/-- Points that fit the variables below the one **fit those below the other**. -/
theorem inputsFit (h : Corresponds P R nodes nodes')
    (hP : ∀ n m, P n m → m.isVariable = n.isVariable ∧ m.dimension = n.dimension) (hik : R i k)
    {points : Points α} (hin : InputsFit nodes' k points) : InputsFit nodes i points := by
  intro j n hij hn hv
  obtain ⟨l, hjl, hkl⟩ := h.reaches hik hij
  obtain ⟨n', m, hn', hm, hnm, -⟩ := h j l hjl
  obtain rfl := Option.some.inj (hn.symm.trans hn')
  obtain ⟨hvariable, hdim⟩ := hP n m hnm
  have hfit := hin l m hkl hm (hvariable.trans hv)
  rwa [hdim] at hfit

/-- Operands are no part of the caches: the same positions correspond whatever these hold. -/
theorem alike [Zero α] {Q : Node α → Node α → Prop} (h : Corresponds P R nodes nodes')
    {others others' : List (Node α)} (halike : Alike nodes others) (halike' : Alike nodes' others')
    (hPQ : ∀ n m n' m', P n m → n'.blank = n.blank → m'.blank = m.blank → Q n' m') :
    Corresponds Q R others others' := by
  intro i k hik
  obtain ⟨n, m, hn, hm, hnm, hops⟩ := h i k hik
  obtain ⟨n', hn', hblank⟩ := halike.getElem? hn
  obtain ⟨m', hm', hblank'⟩ := halike'.getElem? hm
  refine ⟨n', m', hn', hm', hPQ n m n' m' hnm hblank hblank', ?_⟩
  rwa [Node.eq_of_blank Node.blank_operands hblank, Node.eq_of_blank Node.blank_operands hblank']

/-- **What is defined by recursion on operands is the same** at related positions. -/
theorem byOperands_eq (h : Corresponds P R nodes nodes')
    (hlt : ∀ i, ∀ j ∈ operandsAt nodes i, j < i) (hlt' : ∀ k, ∀ l ∈ operandsAt nodes' k, l < k)
    {visit : Node α → List β → β} {missing : β} (hvisit : ∀ n m, P n m → visit m = visit n)
    (k : Nat) :
    ∀ i, R i k → byOperands visit missing nodes' k = byOperands visit missing nodes i := by
  induction k using Nat.strong_induction_on with
  | _ k ih =>
    intro i hik
    obtain ⟨n, m, hn, hm, hnm, hops⟩ := h i k hik
    have hbefore : ∀ j ∈ n.operands, j < i := by simpa [operandsAt, hn] using hlt i
    have hbefore' : ∀ l ∈ m.operands, l < k := by simpa [operandsAt, hm] using hlt' k
    rw [MixedMonotone.byOperands_eq visit missing hn hbefore,
      MixedMonotone.byOperands_eq visit missing hm hbefore', hvisit n m hnm]
    -- the operands stand before their parents, where the values are the same already
    refine congrArg (visit n) (List.forall₂_eq_eq_eq ▸ ?_)
    rw [List.forall₂_map_left_iff, List.forall₂_map_right_iff]
    have hmem : List.Forall₂ (fun l j => l ∈ m.operands ∧ R j l) m.operands n.operands :=
      (List.forall₂_and_left _ _).2 ⟨fun _ hl => hl, hops.flip⟩
    refine hmem.imp ?_
    rintro l j ⟨hl, hjl⟩
    exact ih l (hbefore' l hl) j hjl

end Corresponds

/-! ## Handles -/

/-- Two handles name nodes at related positions. -/
def NamesTogether (R : Nat → Nat → Prop) (nodes nodes' : List (Node α)) (id id' : NodeId) : Prop :=
  ∃ i k n m, R i k ∧ nodes[i]? = some n ∧ nodes'[k]? = some m ∧ n.id = id ∧ m.id = id'

namespace NamesTogether

variable {R S : Nat → Nat → Prop} {nodes nodes' : List (Node α)} {id id' : NodeId}

theorem flip (h : NamesTogether R nodes nodes' id id') :
    NamesTogether (flip R) nodes' nodes id' id := by
  obtain ⟨i, k, n, m, hik, hn, hm, hid, hid'⟩ := h
  exact ⟨k, i, m, n, hik, hm, hn, hid', hid⟩

/-- Adding nodes takes no handle away. -/
theorem append (h : NamesTogether R nodes nodes' id id') (hRS : ∀ i k, R i k → S i k)
    (more more' : List (Node α)) : NamesTogether S (nodes ++ more) (nodes' ++ more') id id' := by
  obtain ⟨i, k, n, m, hik, hn, hm, hid, hid'⟩ := h
  exact ⟨i, k, n, m, hRS i k hik, getElem?_append_of_eq_some hn more,
    getElem?_append_of_eq_some hm more', hid, hid'⟩

/-- Handles are no part of the caches. -/
theorem alike [Zero α] (h : NamesTogether R nodes nodes' id id') {others others' : List (Node α)}
    (halike : Alike nodes others) (halike' : Alike nodes' others') :
    NamesTogether R others others' id id' := by
  obtain ⟨i, k, n, m, hik, hn, hm, rfl, rfl⟩ := h
  obtain ⟨n', hn', hblank⟩ := halike.getElem? hn
  obtain ⟨m', hm', hblank'⟩ := halike'.getElem? hm
  exact ⟨i, k, n', m', hik, hn', hm', Node.eq_of_blank Node.blank_id hblank,
    Node.eq_of_blank Node.blank_id hblank'⟩

end NamesTogether

/-! ## Nodes to which others are added -/

section Append

variable {nodes : List (Node α)} (hlt : ∀ i, ∀ j ∈ operandsAt nodes i, j < i)
    (more : List (Node α)) {i : Nat}

include hlt

/-- Every position holds what it held. -/
theorem corresponds_append :
    Corresponds Eq (fun i k => i = k ∧ i < nodes.length) nodes (nodes ++ more) := by
  rintro i _ ⟨rfl, hi⟩
  have hn := List.getElem?_eq_getElem hi
  refine ⟨nodes[i], nodes[i], hn, getElem?_append_of_eq_some hn more, rfl,
    List.forall₂_same.2 ?_⟩
  intro j hj
  exact ⟨rfl, (hlt i j (by simpa [operandsAt, hn] using hj)).trans hi⟩

theorem inputsFit_append (hi : i < nodes.length) {points : Points α}
    (hin : InputsFit nodes i points) : InputsFit (nodes ++ more) i points :=
  (corresponds_append hlt more).flip.inputsFit (by rintro n _ rfl; exact ⟨rfl, rfl⟩) ⟨rfl, hi⟩ hin

theorem byOperands_append (hlt' : ∀ k, ∀ l ∈ operandsAt (nodes ++ more) k, l < k)
    (hi : i < nodes.length) (visit : Node α → List β → β) (missing : β) :
    byOperands visit missing (nodes ++ more) i = byOperands visit missing nodes i :=
  (corresponds_append hlt more).byOperands_eq hlt hlt' (by rintro n _ rfl; rfl) i i ⟨rfl, hi⟩

end Append

end MixedMonotone
