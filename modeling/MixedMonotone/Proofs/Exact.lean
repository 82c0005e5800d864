import Mathlib
import MixedMonotone.Proofs.SignedBounds

/-!
# Kernels in exact arithmetic

The numbers of an ordered field are scalars whose operations obey the laws. There every strategy
computes **one bound that depends on no tag**, as long as the tags tell the truth.

* `Logarithms`: the two logarithms, of which nothing is assumed here.
* `Arith.combine_eq_bound`: what a strategy computes is the bound of both routes.
* `Arith.combine_diagonal`: where the two routes agree, every strategy computes **the operation
  itself**.
* `intervalFold_mono`, `intervalFold_holds`, `intervalFold_diagonal`: the same for a product of many
  components.
-/

namespace MixedMonotone

/-- The two logarithms over numbers whose other operations are those of a field. -/
class Logarithms (K : Type) where
  /-- The logarithm to base two. -/
  log2 : K → K
  /-- The natural logarithm. -/
  ln : K → K

/-- Logarithms of rational numbers rounded down to whole numbers, exact at the powers of two; closed
examples compute with them. -/
instance : Logarithms ℚ where
  log2 q := (Int.log 2 q : ℚ)
  ln q := if 1 ≤ q then 0 else -1

variable {K : Type} [Field K] [LinearOrder K] [Logarithms K]

/-- **Exact arithmetic.** -/
instance exactScalar : Scalar K where
  zero := 0
  one := 1
  add := (· + ·)
  mul := (· * ·)
  div := (· / ·)
  neg := (- ·)
  lt a b := decide (a < b)
  le a b := decide (a ≤ b)
  beq a b := decide (a = b)
  log2 := Logarithms.log2
  ln := Logarithms.ln

namespace Scalar

@[simp] theorem exact_le {a b : K} : (Scalar.le a b = true) = (a ≤ b) := by simp [Scalar.le]

@[simp] theorem exact_beq {a b : K} : (Scalar.beq a b = true) = (a = b) := by simp [Scalar.beq]

@[simp] theorem exact_max (a b : K) : Scalar.max a b = a ⊔ b := by
  rw [max_def_lt]
  simp [Scalar.max, Scalar.lt, Scalar.beq]

@[simp] theorem exact_min (a b : K) : Scalar.min a b = a ⊓ b := by
  rw [min_comm, min_def_lt]
  simp [Scalar.min, Scalar.lt, Scalar.beq]

@[simp] theorem exact_positivePart (a : K) : Scalar.positivePart a = a ⊔ 0 := exact_max a 0

@[simp] theorem exact_negativePart (a : K) : Scalar.negativePart a = a ⊓ 0 := exact_min a 0

@[simp] theorem exact_reciprocal (a : K) : Scalar.reciprocal a = a⁻¹ := one_div a

@[simp] theorem exact_sum (l : List K) : Scalar.sum l = l.sum := by
  unfold Scalar.sum
  rw [List.sum_eq_foldl]
  simp

@[simp] theorem exact_product (l : List K) : Scalar.product l = l.prod := by
  unfold Scalar.product
  rw [List.prod_eq_foldl]

end Scalar

theorem Route.forValue_eq (v : K) : Route.forValue v = if 0 ≤ v then .own else .swapped := by
  unfold Route.forValue
  exact if_congr (by rw [Scalar.exact_le]) rfl rfl

/-! ## Strategies -/

namespace Arith

theorem exact_part (a b : K) : Arith.mul.part a b = a * b := by
  unfold part
  split
  · rename_i h
    rw [Scalar.exact_beq.mp h]
    exact (zero_mul b).symm
  · rfl

/-- A side chosen by the sign of `v`, times `v`. -/
theorem get_forValue_mul (d : Dual K) (v : K) :
    d.get (.forValue v) * v = d.own * max v 0 + d.swapped * min v 0 := by
  rw [Route.forValue_eq]
  by_cases h : 0 ≤ v
  · rw [if_pos h, max_eq_left h, min_eq_right h, mul_zero, add_zero, Dual.get]
  · have h := (not_le.1 h).le
    rw [if_neg (by assumption), max_eq_right h, min_eq_left h, mul_zero, zero_add, Dual.get]

/-- The general strategy of a product computes the bound, **whatever the signs**. -/
theorem combine_splitBoth (l r : Dual K) : Arith.mul.combine .splitBoth l r = productBound l r := by
  have hmax : ∀ route, max (l.get route) 0 = Dual.get ⟨max l.own 0, max l.swapped 0⟩ route := by
    intro route; cases route <;> rfl
  have hmin : ∀ route, min (l.get route) 0 = Dual.get ⟨min l.own 0, min l.swapped 0⟩ route := by
    intro route; cases route <;> rfl
  simp only [combine, exact_part, Scalar.exact_positivePart, Scalar.exact_negativePart, hmax, hmin]
  exact congrArg₂ (· + ·) (get_forValue_mul _ _) (get_forValue_mul _ _)

/-- **Tags that tell the truth make no difference**: what the strategy computes is the bound. -/
theorem combine_mul_eq_bound {tl tr : Tag} {l r : Dual K} (hl : tl.HoldsBoth l)
    (hr : tr.HoldsBoth r) :
    Arith.mul.combine (Arith.mul.strategy tl tr) l r = productBound l r := by
  cases htl : tl.isKnown <;> cases htr : tr.isKnown <;> simp only [strategy, htl, htr]
  -- which operand has a known sign decides the strategy
  case false.false => exact combine_splitBoth l r
  case false.true =>
    rw [productBound_of_right (by rintro rfl; cases htr) hr]
    simp only [combine, exact_part, Scalar.exact_positivePart, Scalar.exact_negativePart]
    rfl
  case true.false =>
    rw [productBound_of_left (by rintro rfl; cases htl) hl]
    exact get_forValue_mul l (r.get tl.route)
  case true.true =>
    rw [productBound_of_known (by rintro rfl; cases htl) (by rintro rfl; cases htr) hl hr]
    rfl

/-- With a constant left operand, **the tag of the right one makes no difference**, whether it tells
the truth or not. -/
theorem combine_mul_const {tl : Tag} (tr : Tag) {a : K} (ha : tl.Holds a) (r : Dual K) :
    Arith.mul.combine (Arith.mul.strategy tl tr) ⟨a, a⟩ r = productBound ⟨a, a⟩ r := by
  have hl : tl.HoldsBoth (⟨a, a⟩ : Dual K) := ⟨ha, ha⟩
  have hget : ∀ route, Dual.get ⟨a, a⟩ route = a := by intro route; cases route <;> rfl
  by_cases htr : tr.isKnown = true
  · by_cases htl : tl.isKnown = true
    · -- one route of the right operand, and the constant with it
      have hbound := productBound_of_left (by rintro rfl; cases htl) hl (r := r)
      rw [← mul_add, max_add_min, add_zero] at hbound
      simp only [strategy, htl, htr, combine, hget]
      exact hbound.symm
    · simp only [Bool.not_eq_true] at htl
      simp only [strategy, htl, htr, combine, hget, exact_part, Scalar.exact_positivePart,
        Scalar.exact_negativePart]
      exact (productBound_const a r).symm
  · obtain rfl : tr = .unknown := by cases tr <;> simp_all [Tag.isKnown]
    exact combine_mul_eq_bound hl ⟨trivial, trivial⟩

theorem apply_div (a b : K) : Arith.div.apply a b = Arith.mul.apply a b⁻¹ := div_eq_mul_inv a b

theorem part_div (a b : K) : Arith.div.part a b = Arith.mul.part a b⁻¹ := by
  unfold part
  rw [apply_div]

variable [IsStrictOrderedRing K]

theorem forValue_inv (v : K) : Route.forValue v⁻¹ = Route.forValue v := by
  simp only [Route.forValue_eq, inv_nonneg]

/-- A quotient is the product with the reciprocals, **strategy by strategy**. -/
theorem combine_div (tl tr : Tag) (l r : Dual K) :
    Arith.div.combine (Arith.div.strategy tl tr) l r =
      Arith.mul.combine (Arith.mul.strategy tl tr) l r.inverse := by
  cases tl <;> cases tr <;>
    simp [combine, strategy, Tag.isKnown, leftRoute, rightRoute, Tag.route, Tag.negate,
      Dual.get, Dual.inverse, apply_div, part_div, forValue_inv]

/-- **What a strategy computes is the bound**, if the tags tell the truth. -/
theorem combine_eq_bound (op : Arith) {tl tr : Tag} {l r : Dual K} (hl : tl.HoldsBoth l)
    (hr : tr.HoldsBoth r) : op.combine (op.strategy tl tr) l r = op.bound l r := by
  cases op with
  | add => rfl
  | mul => exact combine_mul_eq_bound hl hr
  | div => rw [combine_div, combine_mul_eq_bound hl hr.inverse, bound]

/-- **Where the routes agree, a strategy computes the operation**, whatever the tags say. -/
theorem combine_diagonal (op : Arith) (tl tr : Tag) (a b : K) :
    op.combine (op.strategy tl tr) ⟨a, a⟩ ⟨b, b⟩ = op.apply a b := by
  have hget : ∀ (v : K) route, Dual.get ⟨v, v⟩ route = v := by
    intro v route; cases route <;> rfl
  -- the parts above and below zero add up to the number
  have hmul : ∀ (s : Strategy) (b : K), Arith.mul.combine s ⟨a, a⟩ ⟨b, b⟩ = a * b := by
    intro s b
    cases s <;> simp only [combine, hget, exact_part, Scalar.exact_positivePart,
      Scalar.exact_negativePart]
    case direct | selectLeft => rfl
    case splitLeft | splitBoth =>
      refine (add_mul _ _ b).symm.trans ?_
      rw [max_add_min, add_zero]
  cases op with
  | add => rfl
  | mul => exact hmul _ b
  | div => rw [combine_div, apply_div]; exact hmul _ b⁻¹

end Arith

/-! ## Products of many components -/

/-- The bounds of a product after some factors. -/
def intervalFold (bounds : Dual K) (factors : List (K × K)) : Dual K :=
  factors.foldl (fun bounds f => intervalStep bounds ⟨f.1, f.2⟩) bounds

theorem intervalProduct_eq (own swapped : List K) :
    intervalProduct own swapped = (intervalFold ⟨1, 1⟩ (own.zip swapped)).own := rfl

theorem intervalStep_eq (bounds factor : Dual K) :
    intervalStep bounds factor = ⟨productBound bounds factor,
      productBound bounds.flip factor.flip⟩ := by
  rw [intervalStep, Arith.combine_splitBoth, Arith.combine_splitBoth]

theorem intervalFold_cons (bounds : Dual K) (f : K × K) (factors : List (K × K)) :
    intervalFold bounds (f :: factors) =
      intervalFold ⟨productBound bounds ⟨f.1, f.2⟩,
        productBound bounds.flip ⟨f.2, f.1⟩⟩ factors := by
  rw [intervalFold, List.foldl_cons, intervalStep_eq]
  rfl

variable [IsStrictOrderedRing K]

/-- The bounds rise with the factors. -/
theorem intervalFold_mono {factors factors' : List (K × K)}
    (h : List.Forall₂ (fun f f' => f.1 ≤ f'.1 ∧ f'.2 ≤ f.2) factors factors') :
    ∀ {bounds bounds' : Dual K}, bounds.Rises bounds' →
      (intervalFold bounds factors).Rises (intervalFold bounds' factors') := by
  induction h with
  | nil => exact fun hb => hb
  | cons hf _ ih =>
    intro bounds bounds' hb
    rw [intervalFold_cons, intervalFold_cons]
    exact ih ⟨productBound_mono hb ⟨hf.1, hf.2⟩, productBound_mono hb.flip ⟨hf.2, hf.1⟩⟩

theorem Tag.prod_succ (t : Tag) (n : Nat) : (t.prod n).mul t = t.prod (n + 1) := by
  cases t with
  | nonpos =>
    rcases Nat.mod_two_eq_zero_or_one n with h | h
    · simp [Tag.prod, Tag.mul, h, Nat.add_mod]
    · simp [Tag.prod, Tag.mul, h, Nat.add_mod]
  | _ => rfl

/-- The bounds of a product of components of one sign have **the sign of the parity**. -/
theorem intervalFold_holds {t : Tag} {factors : List (K × K)}
    (h : ∀ f ∈ factors, t.Holds f.1 ∧ t.Holds f.2) :
    ∀ {bounds : Dual K} {n : Nat}, (t.prod n).HoldsBoth bounds →
      (t.prod (n + factors.length)).HoldsBoth (intervalFold bounds factors) := by
  induction factors with
  | nil => exact fun hb => hb
  | cons f factors ih =>
    intro bounds n hb
    have hf : t.HoldsBoth ⟨f.1, f.2⟩ := h f List.mem_cons_self
    have hnext : (t.prod (n + 1)).HoldsBoth
        (⟨productBound bounds ⟨f.1, f.2⟩, productBound bounds.flip ⟨f.2, f.1⟩⟩ : Dual K) :=
      Tag.prod_succ t n ▸ ⟨productBound_holds hb hf, productBound_holds hb.flip hf.flip⟩
    rw [intervalFold_cons, List.length_cons, Nat.add_comm factors.length, ← Nat.add_assoc]
    exact ih (fun g hg => h g (List.mem_cons_of_mem _ hg)) hnext

/-- Among nonnegative components the bound is the product. -/
theorem intervalFold_nonneg {own swapped : List K} (hlen : own.length = swapped.length)
    (hown : ∀ a ∈ own, 0 ≤ a) (hswapped : ∀ a ∈ swapped, 0 ≤ a) :
    ∀ {bounds : Dual K}, Tag.nonneg.HoldsBoth bounds →
      (intervalFold bounds (own.zip swapped)).own = bounds.own * own.prod := by
  induction own generalizing swapped with
  | nil => intro bounds _; simp [intervalFold]
  | cons a own ih =>
    obtain ⟨b, swapped, rfl⟩ : ∃ b bs, swapped = b :: bs := by
      cases swapped with
      | nil => cases hlen
      | cons b bs => exact ⟨b, bs, rfl⟩
    intro bounds hb
    have hf : Tag.nonneg.HoldsBoth (⟨a, b⟩ : Dual K) :=
      ⟨hown a List.mem_cons_self, hswapped b List.mem_cons_self⟩
    -- one more factor, and nothing turns negative
    have hstep : productBound bounds ⟨a, b⟩ = bounds.own * a :=
      productBound_of_known (by simp) (by simp) hb hf
    have hnext : Tag.nonneg.HoldsBoth
        (⟨productBound bounds ⟨a, b⟩, productBound bounds.flip ⟨b, a⟩⟩ : Dual K) :=
      ⟨productBound_holds hb hf, productBound_holds hb.flip hf.flip⟩
    rw [List.zip_cons_cons, intervalFold_cons,
      ih (Nat.succ.inj hlen) (fun c hc => hown c (List.mem_cons_of_mem _ hc))
        (fun c hc => hswapped c (List.mem_cons_of_mem _ hc)) hnext,
      hstep, List.prod_cons, mul_assoc]

/-- One is the neutral start of an interval. -/
theorem intervalFold_one_cons (f : K × K) (factors : List (K × K)) :
    intervalFold ⟨1, 1⟩ (f :: factors) = intervalFold ⟨f.1, f.2⟩ factors := by
  have hone : ∀ d : Dual K, productBound ⟨1, 1⟩ d = d.own := by simp [productBound_const]
  rw [intervalFold_cons, Dual.flip, hone, hone]

/-- Where the routes agree, the bounds are the product. -/
theorem intervalFold_diagonal (values : List K) (p : K) :
    intervalFold ⟨p, p⟩ (values.zip values) = ⟨p * values.prod, p * values.prod⟩ := by
  induction values generalizing p with
  | nil => simp [intervalFold]
  | cons a values ih =>
    have hstep : productBound ⟨p, p⟩ ⟨a, a⟩ = p * a :=
      (Arith.combine_splitBoth _ _).symm.trans (Arith.combine_diagonal .mul .unknown .unknown p a)
    rw [List.zip_cons_cons, intervalFold_cons, Dual.flip, hstep, ih, List.prod_cons, mul_assoc]

end MixedMonotone
