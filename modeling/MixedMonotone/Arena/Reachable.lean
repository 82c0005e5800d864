import MixedMonotone.Arena

/-!
# Reachable nodes

* `Reaches`: paths of operand edges.
* `mark`: the search with a stack of positions still to visit. Every step marks a new node or
  shortens the stack, so it **ends**.
* `reachable`: the marks, started from a list of roots.
-/

namespace MixedMonotone

variable {α : Type}

/-- There is a path of operand edges from one position to another. -/
inductive Reaches (nodes : List (Node α)) : Nat → Nat → Prop where
  /-- The empty path. -/
  | refl (i : Nat) : Reaches nodes i i
  /-- A path continued along one operand edge. -/
  | operand {i j k : Nat} : Reaches nodes i j → k ∈ operandsAt nodes j → Reaches nodes i k

/-- Marking an unmarked position leaves fewer unmarked ones. -/
theorem count_unmarked_set {seen : List Bool} {i : Nat} (h : seen[i]? = some false) :
    (seen.set i true).count false < seen.count false := by
  induction seen generalizing i with
  | nil => simp at h
  | cons b rest ih =>
    cases i with
    | zero => simp_all
    | succ i =>
      have := ih (i := i) (by simpa using h)
      simp only [List.set_cons_succ, List.count_cons]
      omega

/-- Mark every position that can be reached from the stack through unmarked nodes. -/
def mark (nodes : List (Node α)) (seen : List Bool) : List Nat → List Bool
  | [] => seen
  | i :: stack =>
    if seen[i]? = some false then mark nodes (seen.set i true) (operandsAt nodes i ++ stack)
    else mark nodes seen stack
termination_by stack => (seen.count false, stack.length)
decreasing_by
  · exact .left _ _ (count_unmarked_set ‹_›)
  · exact .right _ (by simp)

/-- For every position, whether it can be reached from one of the roots. -/
def reachable (nodes : List (Node α)) (roots : List Nat) : List Bool :=
  mark nodes (List.replicate nodes.length false) roots

end MixedMonotone
