import Mathlib
import MixedMonotone.Matrix.Product
import MixedMonotone.Proofs.Exact
import MixedMonotone.Proofs.RowMajor

/-!
# Matrix-vector products in exact arithmetic

In exact arithmetic the order of the operations does not matter, and each component of a product is
the sum over one row.

* `dotRow`: a row times a vector.
* `Matrix.mulVecInto_eq`, `Matrix.mulVec_eq`: accumulating column by column computes it, with the
  old contents counted once.
* `rowBound`: its bound, from both routes of the vector.
* `Matrix.mulSplit_eq`: the split matrix computes the bound, and so does a matrix of known sign read
  along one route (`rowBound_eq_dotRow`).
* `product_by_columns`: all components of a product, and its parts from the entries
  above and below zero.
-/

namespace MixedMonotone

/-! ## Rows -/

variable {K : Type} [Field K]

/-- A row times a vector. -/
def dotRow (row v : List K) : K := (List.zipWith (· * ·) row v).sum

variable [LinearOrder K]

/-- The bound of a row times a vector, from the vector's values along both routes. -/
def rowBound (row : List K) (v : Dual (List K)) : K :=
  ((row.zip (v.own.zip v.swapped)).map fun t => productBound ⟨t.1, t.1⟩ ⟨t.2.1, t.2.2⟩).sum

theorem rowBound_cons (a : K) (row : List K) (o s : K) (own swapped : List K) :
    rowBound (a :: row) ⟨o :: own, s :: swapped⟩ =
      productBound ⟨a, a⟩ ⟨o, s⟩ + rowBound row ⟨own, swapped⟩ := by
  simp [rowBound]

/-- A row of known sign reads **one route** of the vector. -/
theorem rowBound_eq_dotRow {t : Tag} (ht : t ≠ .unknown) {row own swapped : List K}
    (hrow : ∀ a ∈ row, t.Holds a) (hown : own.length = row.length)
    (hswapped : swapped.length = row.length) :
    rowBound row ⟨own, swapped⟩ = dotRow row (Dual.get ⟨own, swapped⟩ t.route) := by
  induction row generalizing own swapped with
  | nil =>
    obtain rfl := List.length_eq_zero_iff.1 hown
    obtain rfl := List.length_eq_zero_iff.1 hswapped
    simp [rowBound, dotRow]
  | cons a row ih =>
    obtain ⟨o, own, rfl⟩ := List.exists_cons_of_length_eq_add_one hown
    obtain ⟨s, swapped, rfl⟩ := List.exists_cons_of_length_eq_add_one hswapped
    have ha := hrow a List.mem_cons_self
    have hrest := ih (fun b hb => hrow b (List.mem_cons_of_mem _ hb)) (Nat.succ.inj hown)
      (Nat.succ.inj hswapped)
    rw [rowBound_cons, productBound_const, hrest]
    cases t with
    | nonneg =>
      simp [Tag.route, Dual.get, dotRow, max_eq_left (a := a) ha, min_eq_right (a := a) ha]
    | nonpos =>
      simp [Tag.route, Dual.get, dotRow, max_eq_right (a := a) ha, min_eq_left (a := a) ha]
    | unknown => exact absurd rfl ht

/-- Where the routes agree, the bound is the row times the vector. -/
theorem rowBound_diagonal (row v : List K) : rowBound row ⟨v, v⟩ = dotRow row v := by
  induction row generalizing v with
  | nil => simp [rowBound, dotRow]
  | cons a row ih =>
    cases v with
    | nil => simp [rowBound, dotRow]
    | cons o v =>
      rw [rowBound_cons, productBound_const, ih, ← add_mul, max_add_min, add_zero]
      simp [dotRow]

section Ordered

variable [IsStrictOrderedRing K]

/-- The bound rises with the vector. -/
theorem rowBound_mono (row : List K) {own own' swapped swapped' : List K}
    (hown : List.Forall₂ (· ≤ ·) own own') (hswapped : List.Forall₂ (· ≤ ·) swapped' swapped) :
    rowBound row ⟨own, swapped⟩ ≤ rowBound row ⟨own', swapped'⟩ := by
  induction row generalizing own own' swapped swapped' with
  | nil => simp [rowBound]
  | cons a row ih =>
    cases hown with
    | nil => simp [rowBound]
    | cons ho hown =>
      cases hswapped with
      | nil => simp [rowBound]
      | cons hs hswapped =>
        rw [rowBound_cons, rowBound_cons]
        exact add_le_add (productBound_mono ⟨le_rfl, le_rfl⟩ ⟨ho, hs⟩) (ih hown hswapped)

/-- The bound has the sign of the product. -/
theorem rowBound_holds {tm tv : Tag} {row : List K} {v : Dual (List K)}
    (hrow : ∀ a ∈ row, tm.Holds a) (hown : ∀ a ∈ v.own, tv.Holds a)
    (hswapped : ∀ a ∈ v.swapped, tv.Holds a) :
    (tm.mul tv).Holds (rowBound row v) := by
  refine Tag.holds_sum fun b hb => ?_
  obtain ⟨⟨a, o, s⟩, ht, rfl⟩ := List.mem_map.1 hb
  obtain ⟨ha, hos⟩ := List.of_mem_zip ht
  obtain ⟨ho, hs⟩ := List.of_mem_zip hos
  exact productBound_holds ⟨hrow a ha, hrow a ha⟩ ⟨hown o ho, hswapped s hs⟩

end Ordered

/-! ## The kernels -/

namespace Matrix

variable (m : Matrix K) [Logarithms K]

/-- One column, added to `beta` times a result given row by row. A `beta` of zero discards the
result, which is the same in exact arithmetic. -/
theorem accumulate_eq (beta v : K) (j : Fin m.cols) (out : Fin m.rows → K) :
    accumulate beta v (m.column j) ((List.finRange m.rows).map out) =
      (List.finRange m.rows).map fun i => beta * out i + m.get i j * v := by
  unfold accumulate column
  rw [List.zipWith_map, List.zipWith_self]
  refine List.map_congr_left fun i _ => ?_
  split
  · rename_i h
    rw [Scalar.exact_beq.mp h, zero_mul, zero_add]
  · exact add_comm _ _

/-- **Column by column**, every component collects its row. -/
theorem foldl_accumulate_eq (cs : List (Fin m.cols × K)) : ∀ out : Fin m.rows → K,
    (cs.foldl (fun acc c => (1, accumulate acc.1 c.2 (m.column c.1) acc.2))
        (1, (List.finRange m.rows).map out)).2 =
      (List.finRange m.rows).map fun i => out i + (cs.map fun c => m.get i c.1 * c.2).sum := by
  induction cs with
  | nil => intro out; simp
  | cons c cs ih =>
    intro out
    rw [List.foldl_cons]
    dsimp only
    rw [accumulate_eq m 1 c.2 c.1 out]
    refine (ih _).trans (List.map_congr_left fun i _ => ?_)
    rw [List.map_cons, List.sum_cons, one_mul, add_assoc]

/-- **`m * v + beta * out`**, row by row: the first column scales the old contents, and every later
one adds to what there is, so they are counted once. -/
theorem mulVecInto_eq {v : List K} (hv : v.length = m.cols) (out : Fin m.rows → K) (beta : K) :
    m.mulVecInto v ((List.finRange m.rows).map out) beta =
      some ((List.finRange m.rows).map fun i => beta * out i + dotRow (m.row i) v) := by
  unfold mulVecInto
  rw [if_pos ⟨hv, by simp⟩]
  refine congrArg some ?_
  have hrow : ∀ i, dotRow (m.row i) v =
      (((List.finRange m.cols).zip v).map fun c => m.get i c.1 * c.2).sum := by
    intro i
    simp [dotRow, row, List.zipWith_map_left, List.zip_eq_zipWith, List.map_zipWith]
  -- there is a first column
  obtain ⟨c, cs, hcs⟩ : ∃ c cs, (List.finRange m.cols).zip v = c :: cs := by
    refine List.exists_cons_of_length_pos ?_
    rw [List.length_zip, List.length_finRange, hv, min_self]
    exact m.cols_pos
  simp only [hrow, hcs]
  rw [List.foldl_cons]
  dsimp only
  rw [accumulate_eq]
  refine (m.foldl_accumulate_eq cs _).trans (List.map_congr_left fun i _ => ?_)
  rw [List.map_cons, List.sum_cons, add_assoc]

/-- **A matrix times a vector**, row by row. -/
theorem mulVec_eq {v : List K} (hv : v.length = m.cols) :
    m.mulVec v = some (m.rowList.map (dotRow · v)) := by
  have hzeros : List.replicate m.rows (0 : K) = (List.finRange m.rows).map fun _ => 0 := by simp
  have hproduct := m.mulVecInto_eq hv (fun _ => 0) 0
  rw [← hzeros] at hproduct
  refine hproduct.trans (congrArg some ?_)
  unfold rowList
  rw [List.map_map]
  refine List.map_congr_left fun i _ => ?_
  exact (congrArg (· + dotRow (m.row i) v) (mul_zero (0 : K))).trans (zero_add _)

theorem splitRow_eq (pos neg own swapped : List K) :
    splitRow pos neg own swapped =
      (((pos.zip neg).zip (own.zip swapped)).map fun t => t.1.1 * t.2.1 + t.1.2 * t.2.2).sum := by
  -- a part that is zero is skipped, where the product would have been zero
  have hterm : ∀ acc a v : K, addTerm acc a v = acc + a * v := by
    intro acc a v
    unfold addTerm
    split
    · rename_i h
      rw [Scalar.exact_beq.mp h]
      exact ((congrArg (acc + ·) (zero_mul v)).trans (add_zero acc)).symm
    · rfl
  have hfold : ∀ (l : List ((K × K) × K × K)) (acc : K),
      l.foldl (fun acc t => addTerm (addTerm acc t.1.1 t.2.1) t.1.2 t.2.2) acc =
        acc + (l.map fun t => t.1.1 * t.2.1 + t.1.2 * t.2.2).sum := by
    intro l
    induction l with
    | nil => intro acc; simp
    | cons t l ih =>
      intro acc
      rw [List.foldl_cons, ih, hterm, hterm, List.map_cons, List.sum_cons, add_assoc,
        add_assoc, add_assoc]
  exact (hfold _ 0).trans (zero_add _)

/-- **The split matrix computes the bound**, row by row. -/
theorem mulSplit_eq {v : Dual (List K)} (hown : v.own.length = m.cols)
    (hswapped : v.swapped.length = m.cols) :
    m.split.1.mulSplit m.split.2 v = some (m.rowList.map (rowBound · v)) := by
  unfold mulSplit
  rw [if_pos ⟨rfl, hown, hswapped⟩]
  refine congrArg some ?_
  simp only [split, rowList_map, List.zip_map', List.map_map]
  refine List.map_congr_left fun row _ => ?_
  simp only [Function.comp_apply, splitRow_eq, rowBound, productBound_const]
  rw [List.zip_map', List.zip_map_left, List.map_map]
  exact congrArg List.sum (List.map_congr_left fun t _ => by simp)

/-! ## Components -/

theorem dotRow_ofFn (i : Fin m.rows) (v : Fin m.cols → K) : dotRow (m.row i) (List.ofFn v) = ∑ j,
    m.get i j * v j := by
  have hv : List.ofFn v = (List.finRange m.cols).map v := List.ofFn_eq_map
  rw [dotRow, row, hv, List.zipWith_map, List.zipWith_self, ← List.ofFn_eq_map, List.sum_ofFn]

/-- The product with a vector given component by component. -/
theorem mulVec_ofFn (v : Fin m.cols → K) :
    m.mulVec (List.ofFn v) = some (List.ofFn fun i => ∑ j, m.get i j * v j) := by
  have hrows : List.ofFn (fun i => ∑ j, m.get i j * v j) =
      (List.finRange m.rows).map fun i => ∑ j, m.get i j * v j := List.ofFn_eq_map
  rw [m.mulVec_eq List.length_ofFn, rowList, List.map_map, hrows]
  exact congrArg some (List.map_congr_left fun i _ => m.dotRow_ofFn i v)

/-- The product of a matrix with a function applied to every entry. -/
theorem mulVec_map_ofFn (f : K → K) (v : Fin m.cols → K) :
    (m.map f).mulVec (List.ofFn v) = some
      (List.ofFn fun i : Fin m.rows => ∑ j, f (m.get i j) * v j) := by
  refine ((m.map f).mulVec_ofFn v).trans ?_
  refine congrArg (fun w : Fin m.rows → K => some (List.ofFn w)) (funext fun i => ?_)
  exact Finset.sum_congr rfl fun j _ => congrArg (· * v j) (m.get_map f i j)

end Matrix

/-- **The product, component by component**: adding one column after the other leaves the sum over a
row and `beta` times the old contents, each of them once. The parts of the matrix above and below
zero have these signs, add up to it, and so do their products. -/
theorem product_by_columns [Logarithms K] (m : Matrix K) (v : Fin m.cols → K) (out : Fin m.rows → K)
    (beta : K) : m.mulVecInto (List.ofFn v) (List.ofFn out) beta =
      some (List.ofFn fun i => (∑ j, m.get i j * v j) + beta * out i) ∧
    m.mulVec (List.ofFn v) = some (List.ofFn fun i => ∑ j, m.get i j * v j) ∧
    (∀ (i : Fin m.rows) (j : Fin m.cols), 0 ≤ m.split.1.get i j ∧ m.split.2.get i j ≤ 0 ∧
      m.split.1.get i j + m.split.2.get i j = m.get i j) ∧
    ∃ above below : Fin m.rows → K, m.split.1.mulVec (List.ofFn v) = some (List.ofFn above) ∧
      m.split.2.mulVec (List.ofFn v) = some (List.ofFn below) ∧
      m.mulVec (List.ofFn v) = some (List.ofFn fun i => above i + below i) := by
  have hsum : ∀ a : K, Scalar.positivePart a + Scalar.negativePart a = a := by
    intro a
    rw [Scalar.exact_positivePart, Scalar.exact_negativePart, max_add_min, add_zero]
  refine ⟨?_, m.mulVec_ofFn v, fun i j => ?_, _, _, m.mulVec_map_ofFn Scalar.positivePart v,
    m.mulVec_map_ofFn Scalar.negativePart v, ?_⟩
  · have hout : List.ofFn out = (List.finRange m.rows).map out := List.ofFn_eq_map
    have hrows : List.ofFn (fun i => (∑ j, m.get i j * v j) + beta * out i) =
        (List.finRange m.rows).map fun i => (∑ j, m.get i j * v j) + beta * out i :=
          List.ofFn_eq_map
    rw [hout, m.mulVecInto_eq List.length_ofFn, hrows]
    refine congrArg some (List.map_congr_left fun i _ => ?_)
    rw [m.dotRow_ofFn, add_comm]
  · have habove : m.split.1.get i j = Scalar.positivePart (m.get i j) := m.get_map _ i j
    have hbelow : m.split.2.get i j = Scalar.negativePart (m.get i j) := m.get_map _ i j
    refine ⟨?_, ?_, (congrArg₂ (· + ·) habove hbelow).trans (hsum _)⟩
    · calc 0 ≤ max (m.get i j) 0 := le_max_right _ _
        _ = m.split.1.get i j := (habove.trans (Scalar.exact_positivePart _)).symm
    · calc m.split.2.get i j = min (m.get i j) 0 := hbelow.trans (Scalar.exact_negativePart _)
        _ ≤ 0 := min_le_right _ _
  · rw [m.mulVec_ofFn]
    refine congrArg (fun w => some (List.ofFn w)) (funext fun i => ?_)
    rw [← Finset.sum_add_distrib]
    refine Finset.sum_congr rfl fun j _ => ?_
    rw [← add_mul, hsum]

end MixedMonotone
