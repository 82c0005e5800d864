import MixedMonotone.Matrix

/-!
# Operators and their plans

* `Op`: what a function node computes from its operands.
* `MatvecKernel`: the coefficients of a matrix-vector product.
* `Plan`: along which routes each operand is evaluated.
-/

namespace MixedMonotone

/-- The coefficients of a matrix-vector product. -/
inductive MatvecKernel (α : Type) where
  /-- A matrix of known sign; the vector is read along one route. -/
  | signed (matrix : Matrix α) (route : Route)
  /-- A matrix of mixed sign as its parts above and below zero, for the vector along the own and the
  swapped route. -/
  | split (above below : Matrix α)
  deriving DecidableEq

/-- What a function node computes. -/
inductive Op (α : Type) where
  /-- Elementwise, an operand with one component standing for all. -/
  | arith (op : Arith)
  /-- The inner product. -/
  | dot
  /-- A constant matrix times a vector. -/
  | matvec (kernel : MatvecKernel α)
  | log2
  | ln
  | neg
  | reciprocal
  | sum
  | prod
  /-- The vector of several numbers. -/
  | list
  /-- Consecutive components, from `start` on. -/
  | slice (start : Nat)
  deriving DecidableEq

/-- The operator's name in listings. -/
def Op.name {α : Type} : Op α → String
  | arith op => op.name
  | dot => "dot"
  | matvec _ => "matvec"
  | log2 => "log2"
  | ln => "ln"
  | neg => "neg"
  | reciprocal => "inv"
  | sum => "sum"
  | prod => "prod"
  | list => "list"
  | slice _ => "slice"

/-- Along which routes the operands are evaluated. -/
inductive Plan where
  /-- Every operand along one route. -/
  | single (route : Route)
  /-- The only operand along both routes. -/
  | interval
  /-- Two operands, routed by a strategy. -/
  | binary (strategy : Strategy)
  deriving DecidableEq, Repr

namespace Plan

/-- The routes of the operand with the given number, in the order in which they are evaluated. -/
def routes : Plan → Nat → List Route
  | single route, _ => [route]
  | interval, _ => Route.both
  | binary s, 0 => s.leftRoutes
  | binary s, _ + 1 => s.rightRoutes

/-- The strategy by which two operands are combined. -/
def strategy : Plan → Strategy
  | single route => .direct route route
  | interval => .splitBoth
  | binary s => s

/-- The route along which an operator that reads one route reads it. -/
def route : Plan → Route
  | single route => route
  | _ => .own

end Plan

end MixedMonotone
