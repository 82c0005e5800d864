import Mathlib
import MixedMonotone.Kernel

/-!
# Bounds that use both routes

Over an ordered field, the upper bound of a product of two operands can be written down **without
their tags**, from the values of both along both routes.

* `Tag.Holds`: a number has the sign that a tag says.
* `Dual.Rises`: the own side rises and the swapped side falls.
* `productBound`, `Arith.bound`: the bounds.
* `Arith.bound_mono`: a bound rises with its operands.
* `Arith.bound_holds`: it has the sign that the tables give.
-/

namespace MixedMonotone

/-- The values along one order of the points are at most those along another one: the own side rises
and the swapped one falls. -/
structure Dual.Rises {β : Type} [LE β] (d d' : Dual β) : Prop where
  own : d.own ≤ d'.own
  swapped : d'.swapped ≤ d.swapped

theorem Dual.Rises.flip {β : Type} [LE β] {d d' : Dual β} (h : d.Rises d') : d'.flip.Rises d.flip :=
  ⟨h.swapped, h.own⟩

variable {K : Type} [Field K] [LinearOrder K]

/-! ## Signs -/

/-- The number has the sign that the tag says. -/
def Tag.Holds (t : Tag) (v : K) : Prop :=
  match t with
  | nonneg => 0 ≤ v
  | nonpos => v ≤ 0
  | unknown => True

instance (t : Tag) (v : K) : Decidable (t.Holds v) :=
  match t with
  | .nonneg => inferInstanceAs (Decidable (0 ≤ v))
  | .nonpos => inferInstanceAs (Decidable (v ≤ 0))
  | .unknown => .isTrue trivial

/-- Both sides have the sign that the tag says. -/
def Tag.HoldsBoth (t : Tag) (d : Dual K) : Prop := t.Holds d.own ∧ t.Holds d.swapped

theorem Tag.HoldsBoth.get {t : Tag} {d : Dual K} (h : t.HoldsBoth d) (r : Route) :
    t.Holds (d.get r) := by
  cases r
  · exact h.1
  · exact h.2

theorem Tag.HoldsBoth.flip {t : Tag} {d : Dual K} (h : t.HoldsBoth d) : t.HoldsBoth d.flip :=
  ⟨h.2, h.1⟩

/-- A vector packed from several nodes has the sign that all of them have. -/
theorem Tag.holds_list {ts : List Tag} {t : Tag} (ht : t ∈ ts) {a : K} (ha : t.Holds a) :
    (Tag.list ts).Holds a := by
  unfold Tag.list
  split
  · rename_i hall
    obtain rfl : t = .nonneg := by simpa using List.all_eq_true.1 hall _ ht
    exact ha
  · split
    · rename_i hall
      obtain rfl : t = .nonpos := by simpa using List.all_eq_true.1 hall _ ht
      exact ha
    · trivial

/-- The reciprocals, each on the other side: a reciprocal falls where its operand rises. -/
def Dual.inverse (d : Dual K) : Dual K := ⟨d.swapped⁻¹, d.own⁻¹⟩

/-- Two numbers are both above zero or both below. -/
def SameSign (a b : K) : Prop := (0 < a ∧ 0 < b) ∨ (a < 0 ∧ b < 0)

instance (a b : K) : Decidable (SameSign a b) :=
  inferInstanceAs (Decidable ((0 < a ∧ 0 < b) ∨ (a < 0 ∧ b < 0)))

section Ordered

variable [IsStrictOrderedRing K] {s t : Tag} {a b : K}

theorem inv_le_inv_of_sameSign (h : SameSign a b) (hab : a ≤ b) : b⁻¹ ≤ a⁻¹ := by
  rcases h with ⟨ha, hb⟩ | ⟨ha, hb⟩
  · exact (inv_le_inv₀ hb ha).2 hab
  · exact (inv_le_inv_of_neg hb ha).2 hab

theorem forall₂_map_inv {l l' : List K} (h : List.Forall₂ (· ≤ ·) l' l)
    (hsign : List.Forall₂ SameSign l' l) : List.Forall₂ (· ≤ ·) (l.map (·⁻¹)) (l'.map (·⁻¹)) := by
  induction h with
  | nil => exact .nil
  | cons hab _ ih =>
    obtain ⟨hs, hsign⟩ := List.forall₂_cons.1 hsign
    exact .cons (inv_le_inv_of_sameSign hs hab) (ih hsign)

theorem Tag.Holds.add (ha : s.Holds a) (hb : t.Holds b) : (s.add t).Holds (a + b) := by
  cases s <;> cases t
  case nonneg.nonneg => exact add_nonneg ha hb
  case nonpos.nonpos => exact add_nonpos ha hb
  all_goals trivial

theorem Tag.Holds.mul (ha : s.Holds a) (hb : t.Holds b) : (s.mul t).Holds (a * b) := by
  cases s <;> cases t
  case nonneg.nonneg => exact mul_nonneg ha hb
  case nonneg.nonpos => exact mul_nonpos_of_nonneg_of_nonpos ha hb
  case nonpos.nonneg => exact mul_nonpos_of_nonpos_of_nonneg ha hb
  case nonpos.nonpos => exact mul_nonneg_of_nonpos_of_nonpos ha hb
  all_goals trivial

theorem Tag.Holds.neg (ha : t.Holds a) : t.negate.Holds (-a) := by
  cases t
  case nonneg => exact neg_nonpos.2 ha
  case nonpos => exact neg_nonneg.2 ha
  case unknown => trivial

/-- A sum has the sign of its terms. -/
theorem Tag.holds_sum {l : List K} (h : ∀ a ∈ l, t.Holds a) : t.Holds l.sum := by
  have hadd : t.add t = t := by cases t <;> rfl
  induction l with
  | nil => cases t <;> simp [Tag.Holds]
  | cons a l ih =>
    have hsum := (h a List.mem_cons_self).add (ih fun b hb => h b (List.mem_cons_of_mem _ hb))
    rwa [hadd, ← List.sum_cons] at hsum

/-- A reciprocal has the sign of the number. -/
theorem Tag.Holds.inv (ha : t.Holds a) : t.Holds a⁻¹ := by
  cases t
  case nonneg => exact inv_nonneg.2 ha
  case nonpos => exact inv_nonpos.2 ha
  case unknown => trivial

theorem Tag.HoldsBoth.inverse {d : Dual K} (h : t.HoldsBoth d) : t.HoldsBoth d.inverse :=
  ⟨h.2.inv, h.1.inv⟩

end Ordered

/-! ## Products -/

/-- The **bound of a product**, part by part: a part above zero meets the other operand along its
own side, a part below zero along the swapped one. -/
def productBound (l r : Dual K) : K :=
  max l.own 0 * max r.own 0 + max l.swapped 0 * min r.own 0 +
    (min l.own 0 * max r.swapped 0 + min l.swapped 0 * min r.swapped 0)

/-- Operands of known signs meet **along one route** each. -/
theorem productBound_of_known {tl tr : Tag} (htl : tl ≠ .unknown) (htr : tr ≠ .unknown)
    {l r : Dual K} (hl : tl.HoldsBoth l) (hr : tr.HoldsBoth r) :
    productBound l r = l.get tr.route * r.get tl.route := by
  obtain ⟨hlo, hls⟩ := hl
  obtain ⟨hro, hrs⟩ := hr
  cases tl <;> cases tr <;> simp only [Tag.Holds] at hlo hls hro hrs
  case nonneg.nonneg | nonneg.nonpos | nonpos.nonneg | nonpos.nonpos =>
    simp [productBound, Tag.route, Dual.get, *]
  all_goals contradiction

/-- A left operand of known sign: each part of the right one picks the side of the left one. -/
theorem productBound_of_left {t : Tag} (ht : t ≠ .unknown) {l r : Dual K} (hl : t.HoldsBoth l) :
    productBound l r = l.own * max (r.get t.route) 0 + l.swapped * min (r.get t.route) 0 := by
  obtain ⟨hlo, hls⟩ := hl
  cases t <;> simp only [Tag.Holds] at hlo hls
  case nonneg | nonpos => simp [productBound, Tag.route, Dual.get, *]
  contradiction

/-- A right operand of known sign: each part of the left one picks the side of the right one. -/
theorem productBound_of_right {t : Tag} (ht : t ≠ .unknown) {l r : Dual K} (hr : t.HoldsBoth r) :
    productBound l r = max (l.get t.route) 0 * r.own + min (l.get t.route) 0 * r.swapped := by
  obtain ⟨hro, hrs⟩ := hr
  cases t <;> simp only [Tag.Holds] at hro hrs
  case nonneg | nonpos => simp [productBound, Tag.route, Dual.get, *]
  contradiction

/-- A constant factor reads the own side with its part above zero, and the swapped side
with its part below. -/
theorem productBound_const (a : K) (r : Dual K) :
    productBound ⟨a, a⟩ r = max a 0 * r.own + min a 0 * r.swapped := by
  simp only [productBound, ← mul_add, max_add_min, add_zero]

section Ordered

variable [IsStrictOrderedRing K]

theorem productBound_mono {l l' r r' : Dual K} (hl : l.Rises l') (hr : r.Rises r') :
    productBound l r ≤ productBound l' r' := by
  have hlo : max l.own 0 ≤ max l'.own 0 := max_le_max_right 0 hl.own
  have hls : max l'.swapped 0 ≤ max l.swapped 0 := max_le_max_right 0 hl.swapped
  have hlo' : min l.own 0 ≤ min l'.own 0 := min_le_min_right 0 hl.own
  have hls' : min l'.swapped 0 ≤ min l.swapped 0 := min_le_min_right 0 hl.swapped
  have hro : max r.own 0 ≤ max r'.own 0 := max_le_max_right 0 hr.own
  have hrs : max r'.swapped 0 ≤ max r.swapped 0 := max_le_max_right 0 hr.swapped
  have hro' : min r.own 0 ≤ min r'.own 0 := min_le_min_right 0 hr.own
  have hrs' : min r'.swapped 0 ≤ min r.swapped 0 := min_le_min_right 0 hr.swapped
  -- each of the four products rises: its factors move in step with their signs
  have h₁ : max l.own 0 * max r.own 0 ≤ max l'.own 0 * max r'.own 0 :=
    mul_le_mul hlo hro (le_max_right _ _) (le_max_right _ _)
  have h₂ : max l.swapped 0 * min r.own 0 ≤ max l'.swapped 0 * min r'.own 0 :=
    mul_le_mul_of_nonneg_of_nonpos hls hro' (le_max_right _ _) (min_le_right _ _)
  have h₃ : min l.own 0 * max r.swapped 0 ≤ min l'.own 0 * max r'.swapped 0 :=
    mul_le_mul_of_nonpos_of_nonneg hlo' hrs (min_le_right _ _) (le_max_right _ _)
  have h₄ : min l.swapped 0 * min r.swapped 0 ≤ min l'.swapped 0 * min r'.swapped 0 :=
    mul_le_mul_of_nonpos_of_nonpos hls' hrs' (min_le_right _ _) (min_le_right _ _)
  exact add_le_add (add_le_add h₁ h₂) (add_le_add h₃ h₄)

theorem productBound_holds {tl tr : Tag} {l r : Dual K} (hl : tl.HoldsBoth l)
    (hr : tr.HoldsBoth r) : (tl.mul tr).Holds (productBound l r) := by
  cases tl <;> cases tr
  case nonneg.nonneg | nonneg.nonpos | nonpos.nonneg | nonpos.nonpos =>
    rw [productBound_of_known (by simp) (by simp) hl hr]
    exact Tag.Holds.mul (hl.get _) (hr.get _)
  all_goals trivial

end Ordered

/-! ## Binary arithmetic -/

namespace Arith

/-- The bound of two components, from both routes of both. -/
def bound : Arith → Dual K → Dual K → K
  | add, l, r => l.own + r.own
  | mul, l, r => productBound l r
  | div, l, r => productBound l r.inverse

variable [IsStrictOrderedRing K]

/-- **The bound rises with its operands.** A divisor keeps its sign on either side. -/
theorem bound_mono (op : Arith) {l l' r r' : Dual K} (hl : l.Rises l') (hr : r.Rises r')
    (hdiv : op = .div → SameSign r.own r'.own ∧ SameSign r'.swapped r.swapped) :
    op.bound l r ≤ op.bound l' r' := by
  cases op with
  | add => exact add_le_add hl.own hr.own
  | mul => exact productBound_mono hl hr
  | div =>
    obtain ⟨hown, hswapped⟩ := hdiv rfl
    exact productBound_mono hl
      ⟨inv_le_inv_of_sameSign hswapped hr.swapped, inv_le_inv_of_sameSign hown hr.own⟩

/-- **The bound has the sign that the tables give.** -/
theorem bound_holds (op : Arith) {tl tr : Tag} {l r : Dual K} (hl : tl.HoldsBoth l)
    (hr : tr.HoldsBoth r) : (op.tag tl tr).Holds (op.bound l r) := by
  cases op with
  | add => exact hl.1.add hr.1
  | mul => exact productBound_holds hl hr
  | div => exact productBound_holds hl hr.inverse

end Arith

end MixedMonotone
