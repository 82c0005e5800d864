import Mathlib
import MixedMonotone.Proofs.Answers

/-!
# What a handle names

In a well-formed arena a handle names one node or none, and looking it up finds just that.

* `NamesVector`: a handle names a node that may be an operand; `OperandFault` is why it does not.
* `ArenaOK.find_eq`, `ArenaOK.find_unknown`: looking a handle up.
* `ArenaOK.operand_eq_ok_iff`, `ArenaOK.operand_eq_error_iff`: looking an operand up **answers or is
  refused** as the nodes say, never because a position is out of range.
-/

namespace MixedMonotone

variable {α : Type}

/-- The handle names a node that may be an operand, one that is no constant matrix. -/
def NamesVector (nodes : List (Node α)) (id : NodeId) : Prop :=
  ∃ n ∈ nodes, n.id = id ∧ n.isMatrix = false

/-- Why a handle names no node that may be an operand. -/
inductive OperandFault (nodes : List (Node α)) (id : NodeId) : Error α → Prop
  | unknown (h : ∀ n ∈ nodes, n.id ≠ id) : OperandFault nodes id (.unknownNode id)
  | matrix {n : Node α} (hn : n ∈ nodes) (hid : n.id = id) (hmatrix : n.isMatrix = true) :
      OperandFault nodes id (.matrixOperand id)

theorem known_or_unknown (nodes : List (Node α)) (id : NodeId) :
    (∃ n ∈ nodes, n.id = id) ∨ ∀ n ∈ nodes, n.id ≠ id := by
  by_cases hknown : ∃ n ∈ nodes, n.id = id
  · exact .inl hknown
  · exact .inr fun n hn hid => hknown ⟨n, hn, hid⟩

namespace ArenaOK

variable [Scalar α] {s : Settings} {a : Arena α} {id : NodeId}

theorem position?_eq_some_iff (hok : ArenaOK s a) {i : Nat} :
    a.position? id = some i ↔ a.nodes[i]?.map Node.id = some id := by
  rw [hok.table, Option.map_eq_some_iff]

/-- A node is found by its handle. -/
theorem find_eq (hok : ArenaOK s a) {i : Nat} {n : Node α} (hn : a.nodes[i]? = some n) :
    a.find n.id = .ok ⟨i, n⟩ := by
  have hpos : a.position? n.id = some i := (hok.table n.id i).2 ⟨n, hn, rfl⟩
  exact bind_eq_ok.2 ⟨i, Arena.position_eq_ok.2 hpos, by rw [hn]⟩

theorem node_eq (hok : ArenaOK s a) {i : Nat} {n : Node α} (hn : a.nodes[i]? = some n) :
    a.node n.id = .ok n := by
  rw [Arena.node, hok.find_eq hn]
  rfl

/-- A handle has one bearer. -/
theorem eq_of_id (hok : ArenaOK s a) {m n : Node α} (hm : m ∈ a.nodes) (hn : n ∈ a.nodes)
    (hid : m.id = n.id) : m = n := by
  obtain ⟨i, hi⟩ := List.mem_iff_getElem?.1 hm
  obtain ⟨j, hj⟩ := List.mem_iff_getElem?.1 hn
  have hmi : a.node m.id = .ok m := hok.node_eq hi
  have hnj : a.node n.id = .ok n := hok.node_eq hj
  rw [hid, hnj] at hmi
  exact (Except.ok.inj hmi).symm

theorem position_unknown (hok : ArenaOK s a) (h : ∀ n ∈ a.nodes, n.id ≠ id) :
    a.position id = .error (.unknownNode id) := by
  unfold Arena.position
  cases hpos : a.position? id with
  | none => rfl
  | some i =>
    obtain ⟨n, hn, hid⟩ := (hok.table id i).1 hpos
    exact absurd hid (h n (List.mem_of_getElem? hn))

/-- A handle has no position exactly if no node bears it. -/
theorem position_eq_error_iff (hok : ArenaOK s a) {e : Error α} :
    a.position id = .error e ↔ (∀ n ∈ a.nodes, n.id ≠ id) ∧ e = .unknownNode id := by
  constructor
  · intro h
    rcases known_or_unknown a.nodes id with ⟨n, hn, rfl⟩ | hunknown
    · obtain ⟨i, hi⟩ := List.mem_iff_getElem?.1 hn
      have hpos : a.position? n.id = some i := (hok.table n.id i).2 ⟨n, hi, rfl⟩
      rw [Arena.position_eq_ok.2 hpos] at h
      cases h
    · rw [hok.position_unknown hunknown] at h
      exact ⟨hunknown, (Except.error.inj h).symm⟩
  · rintro ⟨hunknown, rfl⟩
    exact hok.position_unknown hunknown

theorem exists_position?_iff (hok : ArenaOK s a) :
    (∃ i, a.position? id = some i) ↔ ∃ n ∈ a.nodes, n.id = id := by
  simp only [hok.table]
  constructor
  · rintro ⟨i, n, hn, hid⟩
    exact ⟨n, List.mem_of_getElem? hn, hid⟩
  · rintro ⟨n, hn, hid⟩
    obtain ⟨i, hi⟩ := List.mem_iff_getElem?.1 hn
    exact ⟨i, n, hi, hid⟩

theorem find_unknown (hok : ArenaOK s a) (h : ∀ n ∈ a.nodes, n.id ≠ id) :
    a.find id = .error (.unknownNode id) := by
  rw [Arena.find, hok.position_unknown h]
  rfl

theorem node_unknown (hok : ArenaOK s a) (h : ∀ n ∈ a.nodes, n.id ≠ id) :
    a.node id = .error (.unknownNode id) := by
  rw [Arena.node, hok.find_unknown h]
  rfl

/-- The node of a handle stands in the arena. -/
theorem mem_of_node (hok : ArenaOK s a) {n : Node α} (h : a.node id = .ok n) : n ∈ a.nodes ∧
    n.id = id := by
  rcases known_or_unknown a.nodes id with ⟨m, hm, rfl⟩ | hunknown
  · obtain ⟨i, hi⟩ := List.mem_iff_getElem?.1 hm
    rw [hok.node_eq hi] at h
    obtain rfl := Except.ok.inj h
    exact ⟨hm, rfl⟩
  · rw [hok.node_unknown hunknown] at h
    cases h

theorem operand_eq (hok : ArenaOK s a) {i : Nat} {n : Node α} (hn : a.nodes[i]? = some n) :
    a.operand n.id = if n.isMatrix then .error (.matrixOperand n.id) else .ok ⟨i, n⟩ := by
  rw [Arena.operand, hok.find_eq hn]
  rfl

theorem operand_unknown (hok : ArenaOK s a) (h : ∀ n ∈ a.nodes, n.id ≠ id) :
    a.operand id = .error (.unknownNode id) := by
  rw [Arena.operand, hok.find_unknown h]
  rfl

/-- **An operand is found** where the handle names a node that is no matrix. -/
theorem operand_eq_ok_iff (hok : ArenaOK s a) {o : Operand α} :
    a.operand id = .ok o ↔ o.IsAt a.nodes ∧ o.node.id = id ∧ o.node.isMatrix = false := by
  constructor
  · intro h
    obtain ⟨hfind, hmatrix⟩ := Arena.operand_eq_ok h
    obtain ⟨hpos, hnode⟩ := Arena.find_eq_ok hfind
    obtain ⟨n, hn, hid⟩ := (hok.table id o.position).1 hpos
    obtain rfl := Option.some.inj (hn.symm.trans hnode)
    exact ⟨hnode, hid, by rw [Node.isMatrix, hmatrix]; rfl⟩
  · rintro ⟨hat, rfl, hmatrix⟩
    rw [hok.operand_eq hat, hmatrix]
    rfl

theorem exists_operand_iff (hok : ArenaOK s a) :
    (∃ o, a.operand id = .ok o) ↔ NamesVector a.nodes id := by
  constructor
  · rintro ⟨o, ho⟩
    obtain ⟨hat, hid, hmatrix⟩ := hok.operand_eq_ok_iff.1 ho
    exact ⟨o.node, List.mem_of_getElem? hat, hid, hmatrix⟩
  · rintro ⟨n, hn, hid, hmatrix⟩
    obtain ⟨i, hi⟩ := List.mem_iff_getElem?.1 hn
    exact ⟨⟨i, n⟩, hok.operand_eq_ok_iff.2 ⟨hi, hid, hmatrix⟩⟩

/-- **An operand is refused** where the handle names no node, or a matrix, and for that reason. -/
theorem operand_eq_error_iff (hok : ArenaOK s a) {e : Error α} :
    a.operand id = .error e ↔ OperandFault a.nodes id e := by
  constructor
  · intro h
    rcases known_or_unknown a.nodes id with ⟨n, hn, rfl⟩ | hunknown
    · obtain ⟨i, hi⟩ := List.mem_iff_getElem?.1 hn
      rw [hok.operand_eq hi] at h
      by_cases hmatrix : n.isMatrix = true
      · rw [if_pos hmatrix] at h
        obtain rfl := Except.error.inj h
        exact .matrix hn rfl hmatrix
      · rw [if_neg hmatrix] at h
        cases h
    · rw [hok.operand_unknown hunknown] at h
      obtain rfl := Except.error.inj h
      exact .unknown hunknown
  · intro h
    cases h with
    | unknown h => exact hok.operand_unknown h
    | matrix hn hid hmatrix =>
      obtain ⟨i, hi⟩ := List.mem_iff_getElem?.1 hn
      rw [← hid, hok.operand_eq hi, hmatrix]
      rfl

end ArenaOK

end MixedMonotone
