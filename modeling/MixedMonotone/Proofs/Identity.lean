import Mathlib
import MixedMonotone.Proofs.Compilation

/-!
# What a node is

A node stands at one position in a graph and at another one in a program, and evaluations leave
values in it. What it is depends on neither.

* `Node.identity`: what a node is made of, its dimension and its tag, with **the handles of its
  operands** in place of their positions.
* `Node.Copy.identity_eq`, `Alike.identity_eq`: a copy is the same node, and so is a node
  after an evaluation.
* `Arena.Shares`: a node of one arena is one of another arena already.
-/

namespace MixedMonotone

variable {α β : Type}

/-! ## What a node is -/

/-- What a node is made of: constants by their data, applications by the handles of their
operands. -/
inductive Content (α : Type) where
  | parameter (values : List α)
  | matrix (m : Matrix α)
  | variable (bounds : Option (Box α))
  | application (op : Op α) (plan : Plan) (operands : List NodeId)

/-- What a node is, whatever arena it stands in. -/
structure Identity (α : Type) where
  content : Content α
  dimension : Nat
  tag : Tag

/-- What the node is made of. -/
def Node.content (nodes : List (Node α)) (n : Node α) : Content α :=
  match n.kind with
  | .parameter => .parameter n.value
  | .matrixParameter m => .matrix m
  | .variable bounds => .variable bounds
  | .function f => .application f.op f.plan (operandIds nodes n)

/-- **What the node is**, wherever it stands and whatever was evaluated. -/
def Node.identity (nodes : List (Node α)) (n : Node α) : Identity α :=
  ⟨n.content nodes, n.dimension, n.tag⟩

theorem operandIds_append {nodes : List (Node α)} {n : Node α}
    (hlt : ∀ k ∈ n.operands, k < nodes.length) (new : List (Node α)) :
    operandIds (nodes ++ new) n = operandIds nodes n := by
  refine List.filterMap_congr fun k hk => ?_
  rw [List.getElem?_append_left (hlt k hk)]

/-- Nodes that are added behind make no difference. -/
theorem Node.identity_append {nodes : List (Node α)} {n : Node α}
    (hlt : ∀ k ∈ n.operands, k < nodes.length) (new : List (Node α)) :
    n.identity (nodes ++ new) = n.identity nodes := by
  unfold identity content
  rw [operandIds_append hlt]

/-- Operands that stand at corresponding positions have the same handles. -/
theorem operandIds_eq {nodes nodes' : List (Node α)} {n m : Node α}
    (h : List.Forall₂ (SameHandle nodes nodes') n.operands m.operands) :
    operandIds nodes n = operandIds nodes' m := by
  unfold operandIds
  generalize n.operands = is, m.operands = ks at h
  induction h with
  | nil => rfl
  | cons hik _ ih =>
    obtain ⟨o, o', ho, ho', hid⟩ := hik
    simp [ho, ho', hid, ih]

/-- **A copy is the same node.** -/
theorem Node.Copy.identity_eq {nodes nodes' : List (Node α)} {n m : Node α}
    (h : Node.Copy nodes nodes' n m) : n.identity nodes = m.identity nodes' := by
  have hids := operandIds_eq h.operands
  have hkind := h.kind
  unfold Node.identity Node.content
  rw [hids, h.dimension_eq, h.tag, h.value]
  generalize n.kind = k, m.kind = k' at hkind
  cases hkind <;> rfl

section Caches

variable [Zero α]

theorem Node.identity_blank (nodes : List (Node α)) (n : Node α) :
    n.blank.identity (nodes.map Node.blank) = n.identity nodes := by
  have hids : operandIds (nodes.map Node.blank) n.blank = operandIds nodes n := by
    unfold operandIds
    rw [blank_operands]
    refine List.filterMap_congr fun k _ => ?_
    rw [List.getElem?_map, Option.map_map]
    rfl
  unfold identity content
  rw [hids, blank_dimension, blank_tag]
  unfold blank
  cases n.kind <;> rfl

/-- **What evaluations leave** makes no difference. -/
theorem Alike.identity_eq {nodes nodes' : List (Node α)} (h : Alike nodes nodes') {n n' : Node α}
    (hn : n.blank = n'.blank) : n.identity nodes = n'.identity nodes' := by
  rw [← n.identity_blank nodes, h, hn, n'.identity_blank nodes']

end Caches

/-- The node `m` of the arena `a'` is one of `a` **already**, under the same handle. -/
def Arena.Shares (a a' : Arena α) (m : Node α) : Prop :=
  ∃ n ∈ a.nodes, n.id = m.id ∧ n.identity a.nodes = m.identity a'.nodes

namespace Arena.Shares

variable {a a' a'' : Arena α} {m : Node α}

theorem refl (hm : m ∈ a.nodes) : a.Shares a m := ⟨m, hm, rfl, rfl⟩

/-- Copied nodes. -/
theorem of_copies (h : Copies a.nodes a'.nodes) (hm : m ∈ a'.nodes) : a.Shares a' m := by
  obtain ⟨k, hk⟩ := List.mem_iff_getElem?.1 hm
  obtain ⟨i, n, hn, hcopy⟩ := h k m hk
  exact ⟨n, List.mem_of_getElem? hn, hcopy.id.symm, hcopy.identity_eq⟩

/-- Nodes after an evaluation. -/
theorem of_blank_eq [Zero α] (h : a.blank = a'.blank) (hm : m ∈ a'.nodes) : a.Shares a' m := by
  have halike := (Arena.blank_eq_iff.1 h).1
  obtain ⟨n, hn, hblank⟩ := halike.symm.mem hm
  exact ⟨n, hn, Node.eq_of_blank Node.blank_id hblank, halike.identity_eq hblank⟩

end Arena.Shares

end MixedMonotone
