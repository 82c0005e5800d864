import MixedMonotone.Error

/-!
# Matrices

A matrix is its entries in row-major order, with at least one row and one column.

* `Matrix.ofRowMajor`, `Matrix.ofRows`: the two ways to build one, refusing empty and ragged data.
* `Matrix.get`, `Matrix.row`, `Matrix.column`, `Matrix.rowList`: reading it.
* `Matrix.split`: its parts above and below zero.
* `Matrix.text`: its listing.
-/

namespace MixedMonotone

/-- A matrix with at least one row and one column. -/
structure Matrix (α : Type) where
  rows : Nat
  cols : Nat
  /-- All entries, one row after the other. -/
  entries : List α
  rows_pos : 0 < rows
  cols_pos : 0 < cols
  length_entries : entries.length = rows * cols
  deriving DecidableEq

namespace Matrix

variable {α : Type}

/-- The matrix with the given entries in row-major order. Emptiness is reported first. A word holds
the number of the entries, so it is too large only where they are **not** what the shape asks for.
There, if it wraps around to how many there are, filling the matrix runs out of them. -/
def ofRowMajor (rows cols : Nat) (data : List α) (arithmetic : Arithmetic) :
    Except (Error α) (Matrix α) :=
  if hr : rows = 0 then .error (.emptyMatrix rows cols)
  else if hc : cols = 0 then .error (.emptyMatrix rows cols)
  else if hd : data.length = rows * cols then
    .ok ⟨rows, cols, data, Nat.pos_of_ne_zero hr, Nat.pos_of_ne_zero hc, hd⟩
  else
    match arithmetic.word (rows * cols) with
    | none => .error .overflow
    | some n =>
      if data.length = n then .error .outOfRange
      else .error (.dimensionMismatch .matrix (.valuesFor rows cols) (.size data.length))

/-- The matrix with the given rows, all as long as the first; the first other length is reported. -/
def ofRows (rows : List (List α)) : Except (Error α) (Matrix α) :=
  let cols := (rows.head?.map List.length).getD 0
  match rows.find? (·.length != cols) with
  | some bad => .error (.dimensionMismatch .matrix (.rowsOfLength cols) (.size bad.length))
  | none => ofRowMajor rows.length cols rows.flatten .checked

/-- The numbers of rows and columns. -/
def shape (m : Matrix α) : Nat × Nat := (m.rows, m.cols)

/-- The position of an entry lies within the row-major data. -/
theorem entry_lt (m : Matrix α) (i : Fin m.rows) (j : Fin m.cols) :
    i * m.cols + j < m.entries.length := by
  rw [m.length_entries]
  calc i * m.cols + j < i * m.cols + m.cols := Nat.add_lt_add_left j.isLt _
    _ = (i + 1) * m.cols := (Nat.succ_mul ..).symm
    _ ≤ m.rows * m.cols := Nat.mul_le_mul_right _ i.isLt

/-- The entry in row `i` and column `j`. -/
def get (m : Matrix α) (i : Fin m.rows) (j : Fin m.cols) : α :=
  m.entries.get ⟨i * m.cols + j, m.entry_lt i j⟩

/-- The entry in row `i` and column `j`, if the matrix is that large. -/
def get? (m : Matrix α) (i j : Nat) : Option α :=
  if hi : i < m.rows then if hj : j < m.cols then some (m.get ⟨i, hi⟩ ⟨j, hj⟩) else none else none

/-- The entries of one row. -/
def row (m : Matrix α) (i : Fin m.rows) : List α := (List.finRange m.cols).map (m.get i ·)

/-- The entries of one row, if the matrix is that large. -/
def row? (m : Matrix α) (i : Nat) : Option (List α) :=
  if hi : i < m.rows then some (m.row ⟨i, hi⟩) else none

/-- The entries of one column. -/
def column (m : Matrix α) (j : Fin m.cols) : List α := (List.finRange m.rows).map (m.get · j)

/-- All rows in order. -/
def rowList (m : Matrix α) : List (List α) := (List.finRange m.rows).map m.row

/-- All entries in row-major order. -/
def values (m : Matrix α) : List α := m.rowList.flatten

/-- The matrix with a function applied to every entry. -/
def map {β : Type} (f : α → β) (m : Matrix α) : Matrix β :=
  { m with entries := m.entries.map f, length_entries := by simp [m.length_entries] }

section Numbers

variable [Scalar α]

/-- The parts of the entries above zero, and the parts below zero. -/
def split (m : Matrix α) : Matrix α × Matrix α :=
  (m.map Scalar.positivePart, m.map Scalar.negativePart)

/-- Whether two matrices have one shape and **numerically** equal entries. -/
def numericEq (m n : Matrix α) : Bool :=
  m.shape == n.shape && (m.entries.zip n.entries).all fun p => Scalar.beq p.1 p.2

end Numbers

/-- The rows with three decimal places, separated by semicolons. -/
def text [ScalarText α] (m : Matrix α) : String :=
  let rowText (r : List α) := ", ".intercalate (r.map ScalarText.threePlaces)
  "[" ++ "; ".intercalate (m.rowList.map rowText) ++ "]"

end Matrix

end MixedMonotone
