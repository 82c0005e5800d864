import MixedMonotone.Matrix

/-!
# Matrix-vector products

The product is accumulated **column by column**: each column, scaled by one component of the vector,
is added to the result so far. The order of the operations decides the rounding.

* `Matrix.mulVecInto`: `m * v + beta * out`.
* `Matrix.mulVec`: `m * v`.
* `Matrix.mulSplit`: a nonnegative and a nonpositive matrix applied to two vectors.
-/

namespace MixedMonotone.Matrix

variable {α : Type} [Scalar α]

/-- One column, scaled by `v`, added to `beta` times the old contents. A `beta` of zero discards the
old contents instead of scaling them. -/
def accumulate (beta v : α) (column out : List α) : List α :=
  List.zipWith (fun a old => if Scalar.beq beta 0 then a * v else a * v + beta * old) column out

/-- **The product `m * v + beta * out`**: the first column scales the old contents by `beta`, each
later one by one. There is no product if the lengths do not fit. -/
def mulVecInto (m : Matrix α) (v out : List α) (beta : α) : Option (List α) :=
  if v.length = m.cols ∧ out.length = m.rows then
    some (((List.finRange m.cols).zip v).foldl
      (fun acc c => (1, accumulate acc.1 c.2 (m.column c.1) acc.2)) (beta, out)).2
  else none

/-- The product `m * v`. -/
def mulVec (m : Matrix α) (v : List α) : Option (List α) :=
  m.mulVecInto v (List.replicate m.rows 0) 0

/-- A coefficient times a component, added to `acc`. A zero coefficient **adds nothing**, also
against an infinite component. -/
def addTerm (acc coefficient v : α) : α :=
  if Scalar.beq coefficient 0 then acc else acc + coefficient * v

/-- One row of `pos` applied to `own` and the same row of `neg` applied to `swapped`, term after
term from the left. -/
def splitRow (pos neg own swapped : List α) : α :=
  ((pos.zip neg).zip (own.zip swapped)).foldl
    (fun acc t => addTerm (addTerm acc t.1.1 t.2.1) t.1.2 t.2.2) 0

/-- The product `pos * own + neg * swapped`. There is no product if the lengths do not fit. -/
def mulSplit (pos neg : Matrix α) (vectors : Dual (List α)) : Option (List α) :=
  if pos.shape = neg.shape ∧ vectors.own.length = pos.cols ∧ vectors.swapped.length = pos.cols then
    some ((pos.rowList.zip neg.rowList).map fun r =>
      splitRow r.1 r.2 vectors.own vectors.swapped)
  else none

end MixedMonotone.Matrix
