/-!
# Node identifiers

* `NodeId`: the handle by which callers name a node, also across graphs and compiled programs.
-/

namespace MixedMonotone

/-- The handle of a node. Handles are numbered in the order in which they are issued. -/
structure NodeId where
  number : Nat
  deriving DecidableEq, Repr

/-- The decimal number of the handle. -/
def NodeId.text (id : NodeId) : String := toString id.number

end MixedMonotone
