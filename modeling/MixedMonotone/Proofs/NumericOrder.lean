import Mathlib
import MixedMonotone.Binary64.Scalar
import MixedMonotone.Proofs.Exact

/-!
# The order of numbers

Of the comparisons of scalars no law is assumed. Those of an ordered field order all scalars, and
those of doubles order all that are numbers.

* `Scalar.IsNumber`, `OrderedScalar`: comparisons that **order the numbers**; what is
  at most itself is one.
* `Scalar.max_le_iff`, `Scalar.le_min_iff`: the larger and the smaller of two numbers.
* `Binary64.place`: the place of a double in a linear order, where the two zeros share one;
  `Binary64.compare_eq`: doubles compare **as their places do**.
* `OrderedScalar K`, `OrderedScalar Float`: exact arithmetic and double precision are ordered.
-/

namespace MixedMonotone

/-- The scalar is at most itself. -/
def Scalar.IsNumber {α : Type} [Scalar α] (a : α) : Prop := Scalar.le a a = true

/-- **Comparisons that order the numbers.** What is no number compares with nothing. -/
class OrderedScalar (α : Type) [Scalar α] : Prop where
  lt_iff : ∀ a b : α, Scalar.lt a b = true ↔ Scalar.le a b = true ∧ ¬ Scalar.le b a = true
  beq_self : ∀ a : α, Scalar.beq a a = true ↔ Scalar.IsNumber a
  le_left : ∀ a b : α, Scalar.le a b = true → Scalar.IsNumber a
  le_right : ∀ a b : α, Scalar.le a b = true → Scalar.IsNumber b
  le_trans : ∀ a b c : α, Scalar.le a b = true → Scalar.le b c = true → Scalar.le a c = true
  le_total : ∀ a b : α, Scalar.IsNumber a → Scalar.IsNumber b → Scalar.le a b = true ∨
    Scalar.le b a = true

namespace Scalar

variable {α : Type} [Scalar α] [OrderedScalar α] {a b c : α}

/-- The larger of two numbers is one of them, and at least the other one. -/
theorem max_cases (ha : IsNumber a) (hb : IsNumber b) :
    (max a b = a ∧ le b a = true) ∨ (max a b = b ∧ le a b = true) := by
  have hself : beq a a = true := (OrderedScalar.beq_self a).2 ha
  unfold max
  cases hlt : lt a b with
  | true => exact .inr ⟨by simp, ((OrderedScalar.lt_iff a b).1 hlt).1⟩
  | false =>
    refine .inl ⟨by simp [hself], (OrderedScalar.le_total a b ha hb).elim (fun hle => ?_) id⟩
    by_contra hba
    rw [(OrderedScalar.lt_iff a b).2 ⟨hle, hba⟩] at hlt
    cases hlt

/-- The smaller of two numbers is one of them, and at most the other one. -/
theorem min_cases (ha : IsNumber a) (hb : IsNumber b) :
    (min a b = a ∧ le a b = true) ∨ (min a b = b ∧ le b a = true) := by
  have hself : beq a a = true := (OrderedScalar.beq_self a).2 ha
  unfold min
  cases hlt : lt b a with
  | true => exact .inr ⟨by simp, ((OrderedScalar.lt_iff b a).1 hlt).1⟩
  | false =>
    refine .inl ⟨by simp [hself], (OrderedScalar.le_total a b ha hb).elim id fun hle => ?_⟩
    by_contra hab
    rw [(OrderedScalar.lt_iff b a).2 ⟨hle, hab⟩] at hlt
    cases hlt

theorem isNumber_max (ha : IsNumber a) (hb : IsNumber b) : IsNumber (max a b) := by
  rcases max_cases ha hb with ⟨h, -⟩ | ⟨h, -⟩
  · rwa [h]
  · rwa [h]

theorem isNumber_min (ha : IsNumber a) (hb : IsNumber b) : IsNumber (min a b) := by
  rcases min_cases ha hb with ⟨h, -⟩ | ⟨h, -⟩
  · rwa [h]
  · rwa [h]

/-- **The larger of two numbers** is at most what both are at most. -/
theorem max_le_iff (ha : IsNumber a) (hb : IsNumber b) :
    le (max a b) c = true ↔ le a c = true ∧ le b c = true := by
  rcases max_cases ha hb with ⟨h, hle⟩ | ⟨h, hle⟩
  · rw [h]
    exact ⟨fun hac => ⟨hac, OrderedScalar.le_trans b a c hle hac⟩, And.left⟩
  · rw [h]
    exact ⟨fun hbc => ⟨OrderedScalar.le_trans a b c hle hbc, hbc⟩, And.right⟩

/-- **The smaller of two numbers** is at least what both are at least. -/
theorem le_min_iff (ha : IsNumber a) (hb : IsNumber b) :
    le c (min a b) = true ↔ le c a = true ∧ le c b = true := by
  rcases min_cases ha hb with ⟨h, hle⟩ | ⟨h, hle⟩
  · rw [h]
    exact ⟨fun hca => ⟨hca, OrderedScalar.le_trans c a b hca hle⟩, And.left⟩
  · rw [h]
    exact ⟨fun hcb => ⟨OrderedScalar.le_trans c b a hcb hle, hcb⟩, And.right⟩

end Scalar

/-! ## Exact arithmetic -/

/-- In an ordered field, every scalar is a number. -/
instance {K : Type} [Field K] [LinearOrder K] [Logarithms K] : OrderedScalar K where
  lt_iff a b := by
    rw [Scalar.exact_le, Scalar.exact_le, ← lt_iff_le_not_ge]
    exact decide_eq_true_iff
  beq_self a := by simp [Scalar.IsNumber]
  le_left a b _ := Scalar.exact_le.mpr le_rfl
  le_right a b _ := Scalar.exact_le.mpr le_rfl
  le_trans a b c hab hbc := by
    rw [Scalar.exact_le] at hab hbc ⊢
    exact hab.trans hbc
  le_total a b _ _ := by
    rw [Scalar.exact_le, Scalar.exact_le]
    exact LinearOrder.le_total a b

/-! ## Double precision -/

namespace Binary64

open Float.Model (UnpackedFloat)

/-- Places in the order of numbers: first the sign, and whether it is an infinite one, then the
exponent, then the mantissa. -/
abbrev Place : Type := ℤ ×ₗ ℤ ×ₗ ℤ

/-- **The place of what a double stands for.** Below zero, exponents and mantissas count
backwards. -/
def rank : UnpackedFloat → Option Place
  | .notANumber => none
  | .infinity .negative => some (toLex (-2, toLex (0, 0)))
  | .finite .negative mantissa exponent _ => some (toLex (-1, toLex (-exponent, -mantissa)))
  | .zero _ => some (toLex (0, toLex (0, 0)))
  | .finite .positive mantissa exponent _ => some (toLex (1, toLex (exponent, mantissa)))
  | .infinity .positive => some (toLex (2, toLex (0, 0)))

/-- The place of a double. -/
def place (a : Float) : Option Place := rank a.toModel.unpack

theorem compare_toLex {α β : Type} [Ord α] [Ord β] (a c : α) (b d : β) :
    compare (toLex (a, b)) (toLex (c, d)) = (compare a c).then (compare b d) := rfl

theorem compare_neg (a b : ℤ) : compare (-a) (-b) = (compare a b).swap := by
  rcases lt_trichotomy a b with h | rfl | h
  · rw [compare_lt_iff_lt.2 h, compare_gt_iff_gt.2 (neg_lt_neg h)]
    rfl
  · rw [compare_eq_iff_eq.2 rfl, compare_eq_iff_eq.2 rfl]
    rfl
  · rw [compare_gt_iff_gt.2 h, compare_lt_iff_lt.2 (neg_lt_neg h)]
    rfl

theorem compare_cast (a b : ℕ) : compare (a : ℤ) (b : ℤ) = compare a b := by
  rcases lt_trichotomy a b with h | rfl | h
  · rw [compare_lt_iff_lt.2 h, compare_lt_iff_lt.2 (Nat.cast_lt.2 h)]
  · rw [compare_eq_iff_eq.2 rfl, compare_eq_iff_eq.2 rfl]
  · rw [compare_gt_iff_gt.2 h, compare_gt_iff_gt.2 (Nat.cast_lt.2 h)]

/-- Two doubles with places compare as these do. Of finite ones with one sign, the exponents decide
before the mantissas do. -/
theorem compare_rank {a b : UnpackedFloat} {r s : Place} (ha : rank a = some r)
    (hb : rank b = some s) : a.compare b = some (compare r s) := by
  -- two finite doubles of one sign are left; for all others the first component decides
  rcases a with (_ | _) | _ | _ | ⟨_ | _, m, e, _⟩ <;>
    rcases b with (_ | _) | _ | _ | ⟨_ | _, m', e', _⟩ <;>
    cases ha <;> cases hb <;> try rfl
  · simp only [UnpackedFloat.compare, compare_toLex, compare_neg, compare_cast, Ordering.swap_then]
    rfl
  · simp only [UnpackedFloat.compare, compare_toLex, compare_cast]
    rfl

/-- **Doubles compare as their places do**; one without a place compares with nothing. -/
theorem compare_eq (a b : UnpackedFloat) :
    a.compare b = (rank a).bind fun r => (rank b).map fun s => compare r s := by
  cases ha : rank a with
  | none =>
    rcases a with (_ | _) | _ | _ | ⟨_ | _, _, _, _⟩ <;> cases ha
    rfl
  | some r =>
    cases hb : rank b with
    | none =>
      rcases b with (_ | _) | _ | _ | ⟨_ | _, _, _, _⟩ <;> cases hb
      cases a <;> rfl
    | some s => exact compare_rank ha hb

variable {a b : Float}

theorem compare_eq_some {o : Ordering} : a.toModel.unpack.compare b.toModel.unpack = some o ↔
    ∃ r ∈ place a, ∃ s ∈ place b, compare r s = o := by
  rw [compare_eq, Option.bind_eq_some_iff]
  exact exists_congr fun r => and_congr_right fun _ => Option.map_eq_some_iff

theorem le_iff_place : Scalar.le a b = true ↔ ∃ r ∈ place a, ∃ s ∈ place b, r ≤ s := by
  change decide (decide (a.toModel.unpack.le b.toModel.unpack = true) = true) = true ↔ _
  rw [decide_eq_true_iff, decide_eq_true_iff, UnpackedFloat.le, Option.any_eq_true]
  simp only [compare_eq_some]
  constructor
  · rintro ⟨o, ⟨r, hr, s, hs, rfl⟩, hle⟩
    exact ⟨r, hr, s, hs, compare_le_iff_le.1 (Ordering.isLE_iff_ne_gt.1 hle)⟩
  · rintro ⟨r, hr, s, hs, hle⟩
    exact ⟨_, ⟨r, hr, s, hs, rfl⟩, Ordering.isLE_iff_ne_gt.2 (compare_le_iff_le.2 hle)⟩

theorem lt_iff_place : Scalar.lt a b = true ↔ ∃ r ∈ place a, ∃ s ∈ place b, r < s := by
  change decide (decide (a.toModel.unpack.lt b.toModel.unpack = true) = true) = true ↔ _
  rw [decide_eq_true_iff, decide_eq_true_iff, UnpackedFloat.lt, beq_iff_eq, compare_eq_some]
  simp only [compare_lt_iff_lt]

theorem beq_iff_place : Scalar.beq a b = true ↔ ∃ r ∈ place a, r ∈ place b := by
  change a.toModel.unpack.beq b.toModel.unpack = true ↔ _
  rw [UnpackedFloat.beq, beq_iff_eq, compare_eq_some]
  simp only [compare_eq_iff_eq, exists_eq_right']

theorem isNumber_iff_place : Scalar.IsNumber a ↔ ∃ r, r ∈ place a := by
  unfold Scalar.IsNumber
  rw [le_iff_place]
  constructor
  · rintro ⟨r, hr, -⟩
    exact ⟨r, hr⟩
  · rintro ⟨r, hr⟩
    exact ⟨r, hr, r, hr, le_rfl⟩

end Binary64

/-- Doubles are ordered as their places are. -/
instance : OrderedScalar Float where
  lt_iff a b := by
    rw [Binary64.lt_iff_place, Binary64.le_iff_place, Binary64.le_iff_place]
    constructor
    · rintro ⟨r, hr, s, hs, hlt⟩
      refine ⟨⟨r, hr, s, hs, hlt.le⟩, ?_⟩
      rintro ⟨s', hs', r', hr', hle⟩
      obtain rfl := Option.mem_unique hr hr'
      obtain rfl := Option.mem_unique hs hs'
      exact hle.not_gt hlt
    · rintro ⟨⟨r, hr, s, hs, -⟩, hnot⟩
      exact ⟨r, hr, s, hs, lt_of_not_ge fun hle => hnot ⟨s, hs, r, hr, hle⟩⟩
  beq_self a := by
    rw [Binary64.beq_iff_place, Binary64.isNumber_iff_place]
    exact exists_congr fun r => and_self_iff
  le_left a b h := by
    obtain ⟨r, hr, -⟩ := Binary64.le_iff_place.1 h
    exact Binary64.isNumber_iff_place.2 ⟨r, hr⟩
  le_right a b h := by
    obtain ⟨-, -, s, hs, -⟩ := Binary64.le_iff_place.1 h
    exact Binary64.isNumber_iff_place.2 ⟨s, hs⟩
  le_trans a b c hab hbc := by
    rw [Binary64.le_iff_place] at hab hbc ⊢
    obtain ⟨r, hr, s, hs, hrs⟩ := hab
    obtain ⟨s', hs', t, ht, hst⟩ := hbc
    obtain rfl := Option.mem_unique hs hs'
    exact ⟨r, hr, t, ht, hrs.trans hst⟩
  le_total a b ha hb := by
    obtain ⟨r, hr⟩ := Binary64.isNumber_iff_place.1 ha
    obtain ⟨s, hs⟩ := Binary64.isNumber_iff_place.1 hb
    rw [Binary64.le_iff_place, Binary64.le_iff_place]
    exact (LinearOrder.le_total r s).imp (fun h => ⟨r, hr, s, hs, h⟩) fun h => ⟨s, hs, r, hr, h⟩

end MixedMonotone
