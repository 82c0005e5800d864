import MixedMonotone.Graph.Builder

/-!
# Function nodes

Every operator checks its operands from left to right, then their sizes, and takes its tag and its
plan from the operands' tags.

* `broadcast`: the size of an elementwise result; `checkRange`: the range of a slice.
* `Graph.draftArith`, `Graph.draftDot`, `Graph.draftMatvec`, …: the drafts.
* `Build.add`, `Build.sub`, …: the calls that add them.
-/

namespace MixedMonotone

variable {α : Type} [Scalar α]

/-- The size of an elementwise result: sizes agree, or one of them is one. -/
def broadcast (site : Site) (left right : Nat) : Except (Error α) Nat :=
  if left = right ∨ right = 1 then .ok left
  else if left = 1 then .ok right
  else .error (.dimensionMismatch site (.size left) (.size right))

/-- The `length` positions from `start` on are some of the first `dimension` ones, as far as their
end shows. It is computed, so it may have **wrapped around**. -/
def checkRange (start length dimension : Nat) (arithmetic : Arithmetic) : Except (Error α) Unit :=
  match arithmetic.word (start + length) with
  | none => .error .overflow
  | some stop =>
    if length = 0 ∨ dimension < stop then
      .error (.dimensionMismatch .slice (.rangeWithin dimension) (.range start length))
    else .ok ()

namespace Graph

/-- An elementwise binary operator. -/
def draftArith (op : Arith) (a b : NodeId) (g : Graph α) : Except (Error α) (Draft α) := do
  let l ← g.arena.operand a
  let r ← g.arena.operand b
  let dimension ← broadcast (.arith op) l.node.dimension r.node.dimension
  return .function (.arith op) (.binary (op.strategy l.node.tag r.node.tag)) [l, r] dimension
    (op.tag l.node.tag r.node.tag)

/-- The tag of an inner product, with a notice where mixed signs are tagged nonnegative. -/
def dotTag (g : Graph α) (left right : Tag) : Tag × List Event :=
  if left.mul right = .nonpos ∧ g.settings.dotSign = .nonnegative then
    (.nonneg, [.mixedDotTagged left right])
  else (left.mul right, [])

/-- The inner product of two vectors of one size. -/
def draftDot (a b : NodeId) (g : Graph α) : Except (Error α) (Draft α) := do
  let l ← g.arena.operand a
  let r ← g.arena.operand b
  if l.node.dimension ≠ r.node.dimension then
    .error (.dimensionMismatch .dot (.size l.node.dimension) (.size r.node.dimension))
  else
    let (tag, notices) := g.dotTag l.node.tag r.node.tag
    let plan := Plan.binary (Arith.mul.strategy l.node.tag r.node.tag)
    return { Draft.function .dot plan [l, r] 1 tag with notices }

/-- Plan and coefficients of a matrix-vector product. The matrix is constant, so its own route never
matters: a known sign of it decides the route of the vector, a mixed one splits the matrix. -/
def matvecKernel (m : Matrix α) (matrixTag vectorTag : Tag) : Plan × MatvecKernel α :=
  match Arith.mul.strategy matrixTag vectorTag with
  | .direct _ right | .selectLeft right => (.binary (.direct .own right), .signed m right)
  | .splitLeft _ | .splitBoth => (.binary (.splitLeft .own), .split m.split.1 m.split.2)

/-- A constant matrix applied to a vector. -/
def draftMatvec (a b : NodeId) (g : Graph α) : Except (Error α) (Draft α) := do
  let l ← g.arena.find a
  let r ← g.arena.operand b
  match l.node.matrix? with
  | none => .error (.notAMatrix a)
  | some m =>
    if r.node.dimension ≠ m.cols then
      .error (.dimensionMismatch .matvec (.vectorOfLength m.cols) (.size r.node.dimension))
    else
      let (plan, kernel) := matvecKernel m l.node.tag r.node.tag
      return .function (.matvec kernel) plan [l, r] m.rows (l.node.tag.mul r.node.tag)

/-- An elementwise operator of one operand. -/
def draftUnary (op : Op α) (route : Route) (tag : Tag → Tag) (a : NodeId) (g : Graph α) :
    Except (Error α) (Draft α) := do
  let o ← g.arena.operand a
  return .function op (.single route) [o] o.node.dimension (tag o.node.tag)

/-- The sum of all components. -/
def draftSum (a : NodeId) (g : Graph α) : Except (Error α) (Draft α) := do
  let o ← g.arena.operand a
  return .function .sum (.single .own) [o] 1 o.node.tag

/-- The product of all components. A nonnegative operand is evaluated once; any other is
bounded from both sides. -/
def draftProd (a : NodeId) (g : Graph α) : Except (Error α) (Draft α) := do
  let o ← g.arena.operand a
  let plan := if o.node.tag = .nonneg then Plan.single .own else .interval
  return .function .prod plan [o] 1 (o.node.tag.prod o.node.dimension)

/-- An operand of a list, which has one component. -/
def listItem (g : Graph α) (id : NodeId) : Except (Error α) (Operand α) := do
  let o ← g.arena.operand id
  if o.node.dimension = 1 then .ok o
  else .error (.dimensionMismatch .list (.size 1) (.size o.node.dimension))

/-- Nodes with one component packed into one vector. -/
def draftList (items : List NodeId) (g : Graph α) : Except (Error α) (Draft α) :=
  if items.isEmpty then .error .emptyList
  else do
    let operands ← items.mapM g.listItem
    return .function .list (.single .own) operands operands.length
      (Tag.list (operands.map (·.node.tag)))

/-- The `length` components from `start` on. -/
def draftSlice (a : NodeId) (start length : Nat) (arithmetic : Arithmetic) (g : Graph α) :
    Except (Error α) (Draft α) := do
  let o ← g.arena.operand a
  checkRange start length o.node.dimension arithmetic
  return .function (.slice start) (.single .own) [o] length o.node.tag

/-- Two operands that can be subtracted. -/
def checkDifference (a b : NodeId) (g : Graph α) : Except (Error α) Unit := do
  let l ← g.arena.operand a
  let r ← g.arena.operand b
  let _ ← broadcast .difference l.node.dimension r.node.dimension
  return

end Graph

namespace Build

/-- Add `a + b`, elementwise. -/
def add (a b : NodeId) : Build α NodeId := place (Graph.draftArith .add a b)

/-- Add `a * b`, elementwise. -/
def mul (a b : NodeId) : Build α NodeId := place (Graph.draftArith .mul a b)

/-- Add `a / b`, elementwise. -/
def div (a b : NodeId) : Build α NodeId := place (Graph.draftArith .div a b)

/-- Add the inner product of `a` and `b`. -/
def dot (a b : NodeId) : Build α NodeId := place (Graph.draftDot a b)

/-- Add the product of the matrix `a` and the vector `b`. -/
def matvec (a b : NodeId) : Build α NodeId := place (Graph.draftMatvec a b)

/-- Add `-a`, elementwise. The operand is read along the swapped route. -/
def neg (a : NodeId) : Build α NodeId := place (Graph.draftUnary .neg .swapped Tag.negate a)

/-- Add `1 / a`, elementwise. The operand is read along the swapped route; the sign stays. -/
def reciprocal (a : NodeId) : Build α NodeId := place (Graph.draftUnary .reciprocal .swapped id a)

/-- Add the logarithms to base two. -/
def log2 (a : NodeId) : Build α NodeId :=
  place (Graph.draftUnary .log2 .own (fun _ => .unknown) a)

/-- Add the natural logarithms. -/
def ln (a : NodeId) : Build α NodeId := place (Graph.draftUnary .ln .own (fun _ => .unknown) a)

/-- Add the sum of all components. -/
def sum (a : NodeId) : Build α NodeId := place (Graph.draftSum a)

/-- Add the product of all components. -/
def prod (a : NodeId) : Build α NodeId := place (Graph.draftProd a)

/-- Add the vector of several numbers. -/
def list (items : List NodeId) : Build α NodeId := place (Graph.draftList items)

/-- Add the `length` components from `start` on. -/
def slice (a : NodeId) (start length : Nat) (arithmetic : Arithmetic) : Build α NodeId :=
  place (Graph.draftSlice a start length arithmetic)

/-- Add one component. -/
def component (a : NodeId) (i : Nat) (arithmetic : Arithmetic) : Build α NodeId :=
  slice a i 1 arithmetic

/-- Add `a - b`, elementwise, as `a + (-b)`: once the sizes are known to fit, the negation is added
and then the sum. -/
def sub (a b : NodeId) : Build α NodeId := do
  Action.inquire fun s => s.graph.checkDifference a b
  let negated ← neg b
  add a negated

end Build

end MixedMonotone
