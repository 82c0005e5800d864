import Mathlib
import MixedMonotone.Proofs.Combining
import MixedMonotone.Proofs.ExactMatrix

/-!
# Bounds of all operators

In exact arithmetic, what a function node computes from operands of **truthful tags** is a bound
that no plan and no tag enters.

* `HaveSigns`: the operands' values have the signs that their tags say.
* `Op.bound`: the bound of an operator, from both routes of its operands.
* `Op.combine_eq_bound`: what a node that follows the tables computes is the bound.
* `Op.bound_holds`: the bound has the sign that the tables give.
* `Op.bound_mono`: **the bound rises with the operands**, where divisors keep their signs and
  logarithms are taken of positive numbers (`Op.Steady`).
-/

namespace MixedMonotone

/-! ## Components -/

namespace OperandValues

variable {K : Type} [Scalar K] {v v' : OperandValues K} {d i : Nat}

theorem componentAt_mem (hv : v.Has d) (hi : d = 1 ∨ i < d) (r : Route) :
    (v.componentAt i).get r ∈ v.get r := by
  have hlt : (if d = 1 then 0 else i) < (v.get r).length := by
    rw [hv.length_get]; split <;> omega
  rw [componentAt_get hv, List.getD_eq_getElem _ _ hlt]
  exact List.getElem_mem hlt

/-- Values related entry by entry have related components. -/
theorem componentAt_rel {R : K → K → Prop} (hv : v.Has d) (hv' : v'.Has d) (hi : d = 1 ∨ i < d)
    {r : Route} (h : List.Forall₂ R (v.get r) (v'.get r)) :
    R ((v.componentAt i).get r) ((v'.componentAt i).get r) := by
  have hlt : (if d = 1 then 0 else i) < d := by split <;> omega
  rw [componentAt_get hv, componentAt_get hv', List.getD_eq_getElem _ _ (by rwa [hv.length_get]),
    List.getD_eq_getElem _ _ (by rwa [hv'.length_get])]
  exact h.get _ _

end OperandValues

/-! ## Rising operands -/

/-- The operand's values rise: no value along the own route falls, and none along the
swapped one rises. -/
structure OperandValues.Rises {β : Type} [LE β] (v v' : OperandValues β) : Prop where
  own : List.Forall₂ (· ≤ ·) v.own v'.own
  swapped : List.Forall₂ (· ≤ ·) v'.swapped v.swapped

namespace OperandValues.Rises

variable {β : Type} [Preorder β] {v v' : OperandValues β}

theorem refl (v : OperandValues β) : v.Rises v :=
  ⟨List.forall₂_same.2 fun _ _ => le_rfl, List.forall₂_same.2 fun _ _ => le_rfl⟩

theorem flip (h : v.Rises v') : OperandValues.Rises (Dual.flip v') (Dual.flip v) :=
  ⟨h.swapped, h.own⟩

theorem componentAt [Scalar β] (h : v.Rises v') {d i : Nat} (hv : v.Has d) (hv' : v'.Has d)
    (hi : d = 1 ∨ i < d) : (v.componentAt i).Rises (v'.componentAt i) :=
  ⟨componentAt_rel (r := .own) hv hv' hi h.own, componentAt_rel (r := .swapped) hv' hv hi h.swapped⟩

end OperandValues.Rises

variable {K : Type} [Field K] [LinearOrder K]

/-- The operand's values keep **one strict sign** per component, from one order of the points to the
other and along either route. -/
structure OperandValues.KeepsSign (v v' : OperandValues K) : Prop where
  own : List.Forall₂ SameSign v.own v'.own
  swapped : List.Forall₂ SameSign v'.swapped v.swapped

theorem OperandValues.KeepsSign.flip {v v' : OperandValues K} (h : v.KeepsSign v') :
    KeepsSign (Dual.flip v') (Dual.flip v) := ⟨h.swapped, h.own⟩

instance (v v' : OperandValues K) : Decidable (v.KeepsSign v') :=
  decidable_of_iff (List.Forall₂ SameSign v.own v'.own ∧ List.Forall₂ SameSign v'.swapped v.swapped)
    ⟨fun h => ⟨h.1, h.2⟩, fun h => ⟨h.own, h.swapped⟩⟩

/-- The values along both routes are positive. -/
def OperandValues.Positive (v : OperandValues K) : Prop :=
  (∀ a ∈ v.own, 0 < a) ∧ ∀ a ∈ v.swapped, 0 < a

instance (v : OperandValues K) : Decidable v.Positive :=
  inferInstanceAs (Decidable ((∀ a ∈ v.own, 0 < a) ∧ ∀ a ∈ v.swapped, 0 < a))

theorem OperandValues.Positive.flip {v : OperandValues K} (h : v.Positive) :
    Positive (Dual.flip v) :=
  ⟨h.2, h.1⟩

/-- What a quotient, a reciprocal and a logarithm ask of their operands: divisors keep their signs,
and logarithms are taken of positive numbers. -/
def Op.Steady (op : Op K) (vs vs' : List (OperandValues K)) : Prop :=
  match op, vs, vs' with
  | .arith .div, [_, r], [_, r'] => r.KeepsSign r'
  | .reciprocal, [v], [v'] => v.KeepsSign v'
  | .log2, [v], [v'] | .ln, [v], [v'] => (∀ a ∈ v.own, 0 < a) ∧ ∀ a ∈ v'.own, 0 < a
  | _, _, _ => True

variable [Logarithms K]

/-! ## Signs of operands -/

/-- The values of an operand, and the entries of a constant matrix, **have the sign
that the tag says**. -/
structure Signature.Holds (σ : Signature K) (v : OperandValues K) : Prop where
  own : ∀ a ∈ v.own, σ.tag.Holds a
  swapped : ∀ a ∈ v.swapped, σ.tag.Holds a
  matrix : ∀ m, σ.matrix? = some m → ∀ a ∈ m.values, σ.tag.Holds a

theorem Signature.Holds.componentAt {σ : Signature K} {v : OperandValues K} (h : σ.Holds v)
    {d i : Nat} (hv : v.Has d) (hi : d = 1 ∨ i < d) :
    σ.tag.HoldsBoth (v.componentAt i) :=
  ⟨h.own _ (OperandValues.componentAt_mem hv hi .own),
    h.swapped _ (OperandValues.componentAt_mem hv hi .swapped)⟩

/-- The operands' values have the signs that their tags say. -/
abbrev HaveSigns (vs : List (OperandValues K)) (σs : List (Signature K)) : Prop :=
  List.Forall₂ (fun v σ => σ.Holds v) vs σs

/-- **The bound of an operator**, from its operands' values along both routes and the matrix of
its first operand. -/
def Op.bound (op : Op K) (matrix? : Option (Matrix K)) (vs : List (OperandValues K))
    (dimension : Nat) : List K :=
  match op, vs with
  | arith op, [l, r] =>
    (List.range dimension).map fun i => op.bound (l.componentAt i) (r.componentAt i)
  | dot, [l, r] =>
    [((List.range l.own.length).map fun i => productBound (l.componentAt i) (r.componentAt i)).sum]
  | matvec _, [_, v] =>
    match matrix? with
    | some m => m.rowList.map (rowBound · v)
    | none => []
  | log2, [v] => v.own.map Logarithms.log2
  | ln, [v] => v.own.map Logarithms.ln
  | neg, [v] => v.swapped.map (- ·)
  | reciprocal, [v] => v.swapped.map (·⁻¹)
  | sum, [v] => [v.own.sum]
  | prod, [v] => [intervalProduct v.own v.swapped]
  | list, vs => vs.map fun v => v.own.headD 0
  | slice start, [v] => (v.own.drop start).take dimension
  | _, _ => []

/-- The matrix of the first operand. -/
def firstMatrix? (σs : List (Signature K)) : Option (Matrix K) := σs.head?.bind Signature.matrix?

/-- Both logarithms are nondecreasing on the positive numbers. -/
structure LogarithmsRise (K : Type) [Field K] [LinearOrder K] [Logarithms K] : Prop where
  log2 : MonotoneOn (Logarithms.log2 : K → K) (Set.Ioi 0)
  ln : MonotoneOn (Logarithms.ln : K → K) (Set.Ioi 0)

theorem forall₂_map_monotoneOn {f : K → K} (hf : MonotoneOn f (Set.Ioi 0)) {l l' : List K}
    (h : List.Forall₂ (· ≤ ·) l l') (hl : ∀ a ∈ l, 0 < a) (hl' : ∀ a ∈ l', 0 < a) :
    List.Forall₂ (· ≤ ·) (l.map f) (l'.map f) := by
  induction h with
  | nil => exact .nil
  | cons hab _ ih =>
    obtain ⟨ha, hl⟩ := List.forall_mem_cons.1 hl
    obtain ⟨hb, hl'⟩ := List.forall_mem_cons.1 hl'
    exact .cons (hf ha hb hab) (ih hl hl')

/-! ## Combining computes the bound -/

/-- **A matrix of truthful tag times a vector** computes the bound of every row. The tag of the
vector is not looked at. -/
theorem Op.combine_matvec (m : Matrix K) {mt : Tag} (vt : Tag) (hm : ∀ a ∈ m.values, mt.Holds a)
    {l v : OperandValues K} (hv : v.Has m.cols) (plan : Plan) (d : Nat) :
    (matvec (Graph.matvecKernel m mt vt).2).combine plan [l, v] d =
      some (m.rowList.map (rowBound · v)) := by
  rcases matvecKernel_cases m mt vt with ⟨hknown, hk⟩ | ⟨-, hk⟩ <;> simp only [hk, combine]
  · rw [m.mulVec_eq (hv.length_get _)]
    refine congrArg some (List.map_congr_left fun row hrow => ?_)
    have hlen := m.length_of_mem_rowList hrow
    exact (rowBound_eq_dotRow hknown (fun a ha => hm a (m.mem_values_of_mem_row hrow ha))
      (hv.1.trans hlen.symm) (hv.2.trans hlen.symm)).symm
  · exact m.mulSplit_eq hv.1 hv.2

variable [IsStrictOrderedRing K] {s : Settings} {op : Op K} {plan : Plan}
    {σs : List (Signature K)} {d : Nat}
  {t : Tag} {vs : List (OperandValues K)}

/-- **What a node computes is the bound**, if its operands' tags tell the truth. -/
theorem Op.combine_eq_bound (hfits : op.Fits s plan σs d t) (hvs : HaveSizes vs σs)
    (hsigns : HaveSigns vs σs) : op.combine plan vs d = some (op.bound (firstMatrix? σs) vs d) := by
  cases hfits with
  | arith _ _ hd =>
    obtain ⟨l, r, hl, hr, rfl⟩ := forall₂_pair hvs
    obtain ⟨hls, hrs⟩ : Signature.Holds _ l ∧ Signature.Holds _ r := by simpa using hsigns
    rw [combine_arith hl hr hd]
    refine congrArg some (List.map_congr_left fun i hi => ?_)
    have hi := List.mem_range.1 hi
    exact Arith.combine_eq_bound _ (hls.componentAt hl (hd.left_lt hi))
      (hrs.componentAt hr (hd.right_lt hi))
  | dot _ _ hd =>
    obtain ⟨l, r, hl, hr, rfl⟩ := forall₂_pair hvs
    obtain ⟨hls, hrs⟩ : Signature.Holds _ l ∧ Signature.Holds _ r := by simpa using hsigns
    rw [combine_dot hl (hd ▸ hr), bound, Scalar.exact_sum, hl.1]
    refine congrArg (fun l => some [List.sum l]) (List.map_congr_left fun i hi => ?_)
    have hi := List.mem_range.1 hi
    exact Arith.combine_mul_eq_bound (hls.componentAt hl (.inr hi))
      (hrs.componentAt (hd ▸ hr) (.inr hi))
  | @matvec σl σr m hm _ hd =>
    obtain ⟨l, r, -, hr, rfl⟩ := forall₂_pair hvs
    obtain ⟨hls, -⟩ : Signature.Holds _ l ∧ Signature.Holds _ r := by simpa using hsigns
    have hfirst : firstMatrix? [σl, σr] = some m := hm
    rw [hd] at hr
    rw [combine_matvec m σr.tag (hls.matrix m hm) hr]
    simp only [bound, hfirst]
  | log2 | ln | neg =>
    obtain ⟨v, -, rfl⟩ := forall₂_single hvs
    rfl
  | sum =>
    obtain ⟨v, -, rfl⟩ := forall₂_single hvs
    simp only [combine, bound, Plan.route, Dual.get, Scalar.exact_sum]
  | reciprocal =>
    obtain ⟨v, -, rfl⟩ := forall₂_single hvs
    simp only [combine, bound, Plan.route, Dual.get]
    exact congrArg some (List.map_congr_left fun a _ => Scalar.exact_reciprocal a)
  | @prod σ _ =>
    obtain ⟨v, hv, rfl⟩ := forall₂_single hvs
    obtain hσ : σ.Holds v := by simpa using hsigns
    by_cases htag : σ.tag = .nonneg
    -- nonnegative components: the fold of the intervals is the plain product
    · have hone : Tag.nonneg.HoldsBoth (⟨1, 1⟩ : Dual K) := ⟨zero_le_one, zero_le_one⟩
      have hown := hσ.own
      have hswapped := hσ.swapped
      rw [htag] at hown hswapped
      have hfold := intervalFold_nonneg (hv.1.trans hv.2.symm) hown hswapped hone
      rw [combine, bound, intervalProduct_eq, hfold, one_mul, if_pos htag]
      simp [Plan.route, Dual.get]
    · rw [combine, bound, if_neg htag, if_pos rfl]
  | list _ hos => exact combine_list (haveSizes_one hvs hos)
  | slice _ _ hle =>
    obtain ⟨v, hv, rfl⟩ := forall₂_single hvs
    exact combine_slice hv hle

/-! ## Signs -/

/-- **The bound has the sign that the tables give**, inner products of mixed signs tagged as
such. -/
theorem Op.bound_holds (hs : s.dotSign = .nonpositive) (hfits : op.Fits s plan σs d t)
    (hvs : HaveSizes vs σs) (hsigns : HaveSigns vs σs) :
    ∀ a ∈ op.bound (firstMatrix? σs) vs d, t.Holds a := by
  cases hfits with
  | arith _ _ hd =>
    obtain ⟨l, r, hl, hr, rfl⟩ := forall₂_pair hvs
    obtain ⟨hls, hrs⟩ : Signature.Holds _ l ∧ Signature.Holds _ r := by simpa using hsigns
    intro a ha
    obtain ⟨i, hi, rfl⟩ := List.mem_map.1 ha
    have hi := List.mem_range.1 hi
    exact Arith.bound_holds _ (hls.componentAt hl (hd.left_lt hi))
      (hrs.componentAt hr (hd.right_lt hi))
  | dot _ _ hd =>
    obtain ⟨l, r, hl, hr, rfl⟩ := forall₂_pair hvs
    obtain ⟨hls, hrs⟩ : Signature.Holds _ l ∧ Signature.Holds _ r := by simpa using hsigns
    simp only [bound, List.forall_mem_singleton, Settings.dotTag, hs, reduceCtorEq,
      and_false, if_false]
    refine Tag.holds_sum fun a ha => ?_
    obtain ⟨i, hi, rfl⟩ := List.mem_map.1 ha
    have hi := List.mem_range.1 hi
    rw [hl.1] at hi
    exact productBound_holds (hls.componentAt hl (.inr hi)) (hrs.componentAt (hd ▸ hr) (.inr hi))
  | @matvec σl σr m hm _ hd =>
    obtain ⟨l, r, -, -, rfl⟩ := forall₂_pair hvs
    obtain ⟨hls, hrs⟩ : Signature.Holds _ l ∧ Signature.Holds _ r := by simpa using hsigns
    have hfirst : firstMatrix? [σl, σr] = some m := hm
    intro a ha
    simp only [bound, hfirst] at ha
    obtain ⟨row, hrow, rfl⟩ := List.mem_map.1 ha
    exact rowBound_holds (fun a ha => hls.matrix m hm a (m.mem_values_of_mem_row hrow ha))
      hrs.own hrs.swapped
  | log2 | ln => exact fun _ _ => trivial
  | neg =>
    obtain ⟨v, -, rfl⟩ := forall₂_single hvs
    obtain hσ : Signature.Holds _ v := by simpa using hsigns
    rw [bound, List.forall_mem_map]
    exact fun b hb => (hσ.swapped b hb).neg
  | reciprocal =>
    obtain ⟨v, -, rfl⟩ := forall₂_single hvs
    obtain hσ : Signature.Holds _ v := by simpa using hsigns
    rw [bound, List.forall_mem_map]
    exact fun b hb => (hσ.swapped b hb).inv
  | sum =>
    obtain ⟨v, -, rfl⟩ := forall₂_single hvs
    obtain hσ : Signature.Holds _ v := by simpa using hsigns
    simpa only [bound, List.forall_mem_singleton] using Tag.holds_sum hσ.own
  | @prod σ _ =>
    obtain ⟨v, hv, rfl⟩ := forall₂_single hvs
    obtain hσ : σ.Holds v := by simpa using hsigns
    -- the parity rule, factor by factor from an empty product
    have hone : (σ.tag.prod 0).HoldsBoth (⟨1, 1⟩ : Dual K) := by
      cases σ.tag <;> simp [Tag.prod, Tag.HoldsBoth, Tag.Holds]
    have hfactors : ∀ f ∈ v.own.zip v.swapped, σ.tag.Holds f.1 ∧ σ.tag.Holds f.2 := fun f hf =>
      ⟨hσ.own _ (List.of_mem_zip hf).1, hσ.swapped _ (List.of_mem_zip hf).2⟩
    have hfold := intervalFold_holds hfactors hone
    rw [List.length_zip, hv.1, hv.2, min_self, Nat.zero_add] at hfold
    simpa only [bound, List.forall_mem_singleton, intervalProduct_eq] using hfold.1
  | list _ hos =>
    intro a ha
    obtain ⟨v, hv, rfl⟩ := List.mem_map.1 ha
    obtain ⟨σ, hσ, hvσ⟩ := forall₂_mem_left hsigns hv
    obtain ⟨b, hb⟩ := List.length_eq_one_iff.1 (haveSizes_one hvs hos v hv).1
    refine Tag.holds_list (List.mem_map_of_mem hσ) (hvσ.own _ ?_)
    simp [hb]
  | slice =>
    obtain ⟨v, -, rfl⟩ := forall₂_single hvs
    obtain hσ : Signature.Holds _ v := by simpa using hsigns
    exact fun a ha => hσ.own a (List.mem_of_mem_drop (List.mem_of_mem_take ha))

/-! ## Monotone -/

variable {vs' : List (OperandValues K)}

/-- **The bound rises with the operands.** -/
theorem Op.bound_mono (hlog : LogarithmsRise K) (hfits : op.Fits s plan σs d t)
    (hvs : HaveSizes vs σs) (hvs' : HaveSizes vs' σs)
    (hrise : List.Forall₂ OperandValues.Rises vs vs') (hsteady : op.Steady vs vs') :
    List.Forall₂ (· ≤ ·) (op.bound (firstMatrix? σs) vs d) (op.bound (firstMatrix? σs) vs' d) := by
  cases hfits with
  | @arith op σl σr d _ _ hd =>
    obtain ⟨l, r, hl, hr, rfl⟩ := forall₂_pair hvs
    obtain ⟨l', r', hl', hr', rfl⟩ := forall₂_pair hvs'
    obtain ⟨hlrise, hrrise⟩ : l.Rises l' ∧ r.Rises r' := by simpa using hrise
    simp only [bound, List.forall₂_map_left_iff, List.forall₂_map_right_iff, List.forall₂_same]
    intro i hi
    have hi := List.mem_range.1 hi
    have hri := hd.right_lt hi
    refine Arith.bound_mono op (hlrise.componentAt hl hl' (hd.left_lt hi))
      (hrrise.componentAt hr hr' hri) ?_
    -- only a quotient asks that its divisor keeps its sign
    rintro rfl
    exact ⟨OperandValues.componentAt_rel (r := .own) hr hr' hri hsteady.own,
      OperandValues.componentAt_rel (r := .swapped) hr' hr hri hsteady.swapped⟩
  | dot _ _ hd =>
    obtain ⟨l, r, hl, hr, rfl⟩ := forall₂_pair hvs
    obtain ⟨l', r', hl', hr', rfl⟩ := forall₂_pair hvs'
    obtain ⟨hlrise, hrrise⟩ : l.Rises l' ∧ r.Rises r' := by simpa using hrise
    simp only [bound, hl.1, hl'.1]
    refine .cons (List.Forall₂.sum_le_sum ?_) .nil
    simp only [List.forall₂_map_left_iff, List.forall₂_map_right_iff, List.forall₂_same]
    intro i hi
    have hi := List.mem_range.1 hi
    exact productBound_mono (hlrise.componentAt hl hl' (.inr hi))
      (hrrise.componentAt (hd ▸ hr) (hd ▸ hr') (.inr hi))
  | @matvec σl σr m hm _ hd =>
    obtain ⟨l, r, -, hr, rfl⟩ := forall₂_pair hvs
    obtain ⟨l', r', -, hr', rfl⟩ := forall₂_pair hvs'
    obtain ⟨-, hrrise⟩ : l.Rises l' ∧ r.Rises r' := by simpa using hrise
    have hfirst : firstMatrix? [σl, σr] = some m := hm
    simp only [bound, hfirst, List.forall₂_map_left_iff, List.forall₂_map_right_iff,
      List.forall₂_same]
    exact fun row _ => rowBound_mono row hrrise.own hrrise.swapped
  | log2 =>
    obtain ⟨v, -, rfl⟩ := forall₂_single hvs
    obtain ⟨v', -, rfl⟩ := forall₂_single hvs'
    obtain hv : v.Rises v' := by simpa using hrise
    exact forall₂_map_monotoneOn hlog.log2 hv.own hsteady.1 hsteady.2
  | ln =>
    obtain ⟨v, -, rfl⟩ := forall₂_single hvs
    obtain ⟨v', -, rfl⟩ := forall₂_single hvs'
    obtain hv : v.Rises v' := by simpa using hrise
    exact forall₂_map_monotoneOn hlog.ln hv.own hsteady.1 hsteady.2
  | neg =>
    obtain ⟨v, -, rfl⟩ := forall₂_single hvs
    obtain ⟨v', -, rfl⟩ := forall₂_single hvs'
    obtain hv : v.Rises v' := by simpa using hrise
    simp only [bound, List.forall₂_map_left_iff, List.forall₂_map_right_iff]
    exact hv.swapped.flip.imp fun _ _ h => neg_le_neg h
  | reciprocal =>
    obtain ⟨v, -, rfl⟩ := forall₂_single hvs
    obtain ⟨v', -, rfl⟩ := forall₂_single hvs'
    obtain hv : v.Rises v' := by simpa using hrise
    exact forall₂_map_inv hv.swapped hsteady.swapped
  | sum =>
    obtain ⟨v, -, rfl⟩ := forall₂_single hvs
    obtain ⟨v', -, rfl⟩ := forall₂_single hvs'
    obtain hv : v.Rises v' := by simpa using hrise
    exact .cons (List.Forall₂.sum_le_sum hv.own) .nil
  | prod =>
    obtain ⟨v, hv, rfl⟩ := forall₂_single hvs
    obtain ⟨v', hv', rfl⟩ := forall₂_single hvs'
    obtain hrises : v.Rises v' := by simpa using hrise
    have hone : Dual.Rises (⟨1, 1⟩ : Dual K) ⟨1, 1⟩ := ⟨le_rfl, le_rfl⟩
    exact .cons (intervalFold_mono (forall₂_zip hrises.own hrises.swapped.flip) hone).own .nil
  | list _ hos =>
    simp only [bound, List.forall₂_map_left_iff, List.forall₂_map_right_iff]
    exact hrise.imp fun v v' h => forall₂_headD h.own le_rfl
  | slice =>
    obtain ⟨v, -, rfl⟩ := forall₂_single hvs
    obtain ⟨v', -, rfl⟩ := forall₂_single hvs'
    obtain hv : v.Rises v' := by simpa using hrise
    exact List.forall₂_take _ (List.forall₂_drop _ hv.own)

end MixedMonotone
