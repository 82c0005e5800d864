import MixedMonotone.Arena

/-!
# Listings

* `postorder`: a node and everything below it, each once, **operands first**, from left to right.
* `listing`: one entry per node, followed by the handles of its operands.
-/

namespace MixedMonotone

variable {α : Type}

/-- Append the node at position `i`, below `n`, after the nodes below it, unless it is there. -/
def postorderBelow (nodes : List (Node α)) : Nat → List Nat → Nat → List Nat
  | 0, order, _ => order
  | n + 1, order, i =>
    if i < n then postorderBelow nodes n order i
    else if i ∈ order then order
    else (operandsAt nodes i).foldl (postorderBelow nodes n) order ++ [i]

/-- The positions of a node and of everything below it, operands first. -/
def postorder (nodes : List (Node α)) (root : Nat) : List Nat :=
  postorderBelow nodes (root + 1) [] root

/-- The handles of the operands of a node. -/
def operandIds (nodes : List (Node α)) (n : Node α) : List NodeId :=
  n.operands.filterMap fun i => nodes[i]?.map Node.id

/-- The entry of one node. -/
def entry [ScalarText α] (nodes : List (Node α)) (n : Node α) : String :=
  let operands := ", ".intercalate ((operandIds nodes n).map NodeId.text)
  n.line ++ "\n" ++ if n.operands.isEmpty then "" else s!"    f({operands})\n"

/-- The listing of a node and of everything below it. -/
def listing [ScalarText α] (nodes : List (Node α)) (root : Nat) : String :=
  String.join ((postorder nodes root).filterMap fun i => nodes[i]?.map (entry nodes))

end MixedMonotone
