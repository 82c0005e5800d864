import Mathlib
import MixedMonotone.Proofs.Reachability

/-!
# Operands first

A listing passes over what it has already written. Without that it would go through the whole
formula, from left to right and every node after its operands, and write a shared node once for
every use. **It writes the same nodes in the same order**, each where it comes first.

* `walk`: the formula at a position, as if nothing were shared; `walk_eq` is its recursion.
* `mem_walk_iff`: the nodes on the walk are those that the position reaches.
* `OperandsFirst`: every entry stands after its operands; `operandsFirst_walk`.
* `postorder_eq`: **the order of a listing is the walk without its repetitions.**
* `getLast?_postorder`: the node itself comes last.
-/

namespace MixedMonotone

variable {α β : Type}

/-! ## Lists without repetitions -/

section EraseDups

variable [DecidableEq β] {l l' : List β} {b : β}

theorem eraseDups_append_of_subset (h : l' ⊆ l) : (l ++ l').eraseDups = l.eraseDups := by
  have hnone : l'.removeAll l = [] := by
    refine List.filter_eq_nil_iff.2 fun c hc => ?_
    simpa using h hc
  rw [List.eraseDups_append, hnone, List.eraseDups_nil, List.append_nil]

theorem eraseDups_concat_of_mem (h : b ∈ l) : (l ++ [b]).eraseDups = l.eraseDups :=
  eraseDups_append_of_subset (by simpa using h)

theorem eraseDups_concat_of_notMem (h : b ∉ l) : (l ++ [b]).eraseDups = l.eraseDups ++ [b] := by
  have hone : [b].removeAll l = [b] := by simp [List.removeAll, h]
  rw [List.eraseDups_append, hone]
  rfl

theorem nodup_eraseDups (l : List β) : l.eraseDups.Nodup := by
  induction l using List.reverseRecOn with
  | nil => simp
  | append_singleton l b ih =>
    by_cases hb : b ∈ l
    · rw [eraseDups_concat_of_mem hb]
      exact ih
    · rw [eraseDups_concat_of_notMem hb, ← List.concat_eq_append]
      exact ih.concat (List.mem_eraseDups.not.2 hb)

end EraseDups

/-! ## The walk -/

/-- The walk through the formula at position `i`, for positions below a bound. -/
def walkBelow (nodes : List (Node α)) : Nat → Nat → List Nat
  | 0, _ => []
  | bound + 1, i =>
    if i = bound then (operandsAt nodes i).flatMap (walkBelow nodes bound) ++ [i]
      else walkBelow nodes bound i

/-- **The walk through the formula at a position**, from left to right and every node after its
operands, as if nothing were shared. -/
def walk (nodes : List (Node α)) (i : Nat) : List Nat := walkBelow nodes (i + 1) i

theorem walkBelow_of_lt (nodes : List (Node α)) {i bound : Nat} (h : i < bound) :
    walkBelow nodes bound i = walk nodes i := by
  induction bound with
  | zero => omega
  | succ bound ih =>
    rcases Nat.lt_succ_iff_lt_or_eq.1 h with h | rfl
    · rw [walkBelow, if_neg (by omega), ih h]
    · rfl

variable {nodes : List (Node α)}

/-- **The recursion equation**: the walks through the operands, in their order and with their
repetitions, and then the node. -/
theorem walk_eq {i : Nat} (hlt : ∀ k ∈ operandsAt nodes i, k < i) :
    walk nodes i = (operandsAt nodes i).flatMap (walk nodes) ++ [i] := by
  rw [walk, walkBelow, if_pos rfl]
  congr 1
  exact List.flatMap_congr fun k hk => walkBelow_of_lt nodes (hlt k hk)

section Ordered

variable (hlt : ∀ i, ∀ k ∈ operandsAt nodes i, k < i)

include hlt

/-- **The nodes on the walk** are those to which paths of operands lead. -/
theorem mem_walk_iff {i k : Nat} : k ∈ walk nodes i ↔ Reaches nodes i k := by
  induction i using Nat.strong_induction_on with
  | _ i ih =>
    rw [walk_eq (hlt i), List.mem_append, List.mem_flatMap, List.mem_singleton]
    constructor
    · rintro (⟨j, hj, hk⟩ | rfl)
      · exact .head hj ((ih j (hlt i j hj)).1 hk)
      · exact .refl k
    · intro h
      rcases h.eq_or_operand with rfl | ⟨j, hj, hjk⟩
      · exact .inr rfl
      · exact .inl ⟨j, hj, (ih j (hlt i j hj)).2 hjk⟩

/-- The walks through the operands do not meet the node. -/
theorem notMem_flatMap_walk (i : Nat) : i ∉ (operandsAt nodes i).flatMap (walk nodes) := by
  intro h
  obtain ⟨k, hk, hi⟩ := List.mem_flatMap.1 h
  have hki : k < i := hlt i k hk
  have hik : i ≤ k := ((mem_walk_iff hlt).1 hi).le hlt
  omega

end Ordered

/-! ## Operands first -/

/-- **Every entry stands after its operands.** -/
def OperandsFirst (nodes : List (Node α)) (order : List Nat) : Prop :=
  ∀ (before after : List Nat) (i : Nat), order = before ++ i :: after →
    ∀ k ∈ operandsAt nodes i, k ∈ before

namespace OperandsFirst

variable {order order' : List Nat} {i : Nat}

theorem nil : OperandsFirst nodes [] := by
  intro before after i h
  simp at h

/-- One more entry, whose operands are there. -/
theorem concat_iff :
    OperandsFirst nodes (order ++ [i]) ↔ OperandsFirst nodes order ∧
    ∀ k ∈ operandsAt nodes i, k ∈ order := by
  constructor
  · intro h
    refine ⟨fun before after j hj => ?_, h order [] i rfl⟩
    exact h before (after ++ [i]) j (by rw [hj]; simp)
  · rintro ⟨h, hi⟩ before after j hj
    rcases List.eq_nil_or_concat after with rfl | ⟨after, l, rfl⟩
    · obtain ⟨rfl, rfl⟩ : order = before ∧ i = j := by simpa using List.append_inj' hj rfl
      exact hi
    · rw [List.concat_eq_append, ← List.cons_append, ← List.append_assoc] at hj
      exact h before after j (List.append_inj' hj rfl).1

theorem append (h : OperandsFirst nodes order) (h' : OperandsFirst nodes order') :
    OperandsFirst nodes (order ++ order') := by
  induction order' using List.reverseRecOn with
  | nil => simpa using h
  | append_singleton order' i ih =>
    obtain ⟨hfirst, hi⟩ := concat_iff.1 h'
    rw [← List.append_assoc]
    exact concat_iff.2 ⟨ih hfirst, fun k hk => List.mem_append_right _ (hi k hk)⟩

theorem flatMap {walks : Nat → List Nat} {ks : List Nat}
    (h : ∀ k ∈ ks, OperandsFirst nodes (walks k)) : OperandsFirst nodes (ks.flatMap walks) := by
  induction ks with
  | nil => exact nil
  | cons k ks ih =>
    obtain ⟨hk, hks⟩ := List.forall_mem_cons.1 h
    exact hk.append (ih hks)

/-- Of every entry the first occurrence is kept, and its operands are before it. -/
theorem eraseDups (h : OperandsFirst nodes order) : OperandsFirst nodes order.eraseDups := by
  induction order using List.reverseRecOn with
  | nil => exact nil
  | append_singleton order i ih =>
    obtain ⟨hfirst, hi⟩ := concat_iff.1 h
    by_cases hmem : i ∈ order
    · rw [eraseDups_concat_of_mem hmem]
      exact ih hfirst
    · rw [eraseDups_concat_of_notMem hmem]
      exact concat_iff.2 ⟨ih hfirst, fun k hk => List.mem_eraseDups.2 (hi k hk)⟩

end OperandsFirst

/-! ## The order of a listing -/

/-- **With every position, all that it reaches.** -/
def Downward (nodes : List (Node α)) (w : List Nat) : Prop :=
  ∀ j ∈ w, ∀ k, Reaches nodes j k → k ∈ w

section Ordered

variable (hlt : ∀ i, ∀ k ∈ operandsAt nodes i, k < i)

include hlt

theorem operandsFirst_walk (i : Nat) : OperandsFirst nodes (walk nodes i) := by
  induction i using Nat.strong_induction_on with
  | _ i ih =>
    have hoperands : OperandsFirst nodes ((operandsAt nodes i).flatMap (walk nodes)) :=
      .flatMap fun k hk => ih k (hlt i k hk)
    rw [walk_eq (hlt i)]
    refine OperandsFirst.concat_iff.2 ⟨hoperands, fun k hk => ?_⟩
    exact List.mem_flatMap.2 ⟨k, hk, (mem_walk_iff hlt).2 (.refl k)⟩

theorem Downward.append_walk {w : List Nat} (h : Downward nodes w) (i : Nat) :
    Downward nodes (w ++ walk nodes i) := by
  intro j hj k hjk
  rcases List.mem_append.1 hj with hj | hj
  · exact List.mem_append_left _ (h j hj k hjk)
  · have hij : Reaches nodes i j := (mem_walk_iff hlt).1 hj
    exact List.mem_append_right _ ((mem_walk_iff hlt).2 (hij.trans hjk))

/-- The operands of a node, one after the other, where each of them is listed as it should be. -/
theorem foldl_postorderBelow {n : Nat}
    (hvisit : ∀ (w : List Nat) (k : Nat), k < n → Downward nodes w →
      postorderBelow nodes n w.eraseDups k = (w ++ walk nodes k).eraseDups) (ks : List Nat) :
    ∀ w : List Nat, (∀ k ∈ ks, k < n) → Downward nodes w →
      ks.foldl (postorderBelow nodes n) w.eraseDups = (w ++ ks.flatMap (walk nodes)).eraseDups := by
  induction ks with
  | nil => intro w _ _; simp
  | cons k ks ih =>
    intro w hks hw
    obtain ⟨hk, hks⟩ := List.forall_mem_cons.1 hks
    rw [List.foldl_cons, hvisit w k hk hw, ih _ hks (hw.append_walk hlt k), List.flatMap_cons,
      List.append_assoc]

/-- **An order is continued by what the walk meets for the first time**, if with every position that
is listed all that it reaches is. -/
theorem postorderBelow_eq (n : Nat) :
    ∀ (w : List Nat) (i : Nat), i < n → Downward nodes w →
      postorderBelow nodes n w.eraseDups i = (w ++ walk nodes i).eraseDups := by
  induction n with
  | zero => intro w i hi; omega
  | succ n ih =>
    intro w i hi hw
    rw [postorderBelow]
    by_cases hin : i < n
    · rw [if_pos hin]
      exact ih w i hin hw
    · obtain rfl : i = n := by omega
      rw [if_neg hin]
      by_cases hmem : i ∈ w
      -- it is listed, and so is all that the walk would meet
      · have hwalk : walk nodes i ⊆ w := fun k hk => hw i hmem k ((mem_walk_iff hlt).1 hk)
        rw [if_pos (List.mem_eraseDups.2 hmem), eraseDups_append_of_subset hwalk]
      -- its operands bring what is new of theirs, and none of them has brought the node itself
      · have hfresh : i ∉ w ++ (operandsAt nodes i).flatMap (walk nodes) := by
          rw [List.mem_append, not_or]
          exact ⟨hmem, notMem_flatMap_walk hlt i⟩
        have hoperands := foldl_postorderBelow hlt ih (operandsAt nodes i) w (hlt i) hw
        rw [if_neg (List.mem_eraseDups.not.2 hmem), hoperands, walk_eq (hlt i), ← List.append_assoc,
          eraseDups_concat_of_notMem hfresh]

/-- **The order of a listing is the walk without its repetitions.** -/
theorem postorder_eq (root : Nat) : postorder nodes root = (walk nodes root).eraseDups := by
  have h := postorderBelow_eq hlt (root + 1) [] root (Nat.lt_succ_self root) (by simp [Downward])
  simpa [postorder] using h

theorem mem_postorder_iff {root k : Nat} : k ∈ postorder nodes root ↔ Reaches nodes root k := by
  rw [postorder_eq hlt, List.mem_eraseDups, mem_walk_iff hlt]

/-- The node itself comes last. -/
theorem getLast?_postorder (root : Nat) : (postorder nodes root).getLast? = some root := by
  rw [postorder_eq hlt, walk_eq (hlt root),
    eraseDups_concat_of_notMem (notMem_flatMap_walk hlt root), List.getLast?_concat]

end Ordered

end MixedMonotone
