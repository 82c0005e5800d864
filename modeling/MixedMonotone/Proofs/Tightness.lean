import Mathlib
import MixedMonotone.Proofs.Exact

/-!
# Kernels that are as tight as can be

In exact arithmetic, the bound that a binary kernel computes over a box is not only valid. It is
**attained** at a corner of the box, but where both factors of a product change their sign.

* `Dual.Straddles`, `Dual.OneSigned`: whether the numbers between the two sides change their sign.
* `productBound_corner`: the bound of a product is the product of two ends, if one factor does not.
* `Arith.bound_corner`, `Arith.le_bound`, `Arith.bound_le`: bounds are attained, and they are
  bounds.
* `productBound_straddling`: where both factors change their sign, the bound is a sum of two
  products.
* `Arith.bound_extremal`, `kernel_extremal`: so every strategy computes the **maximum and the
  minimum** of its operation.
* `intervalFold_corner`: folding keeps both ends attained while at most one factor changes its sign.
* `intervalProduct_extremal`: so the product of many components is bounded, and then the
  bounds are attained.
-/

namespace MixedMonotone

/-- An end of an interval lies in it, in whichever order the two ends are given. -/
theorem Dual.get_mem {β : Type} [Preorder β] {a b : β} (h : a ≤ b) (r : Route) :
    Dual.get ⟨b, a⟩ r ∈ Set.Icc a b ∧ Dual.get ⟨a, b⟩ r ∈ Set.Icc a b := by
  have ha : a ∈ Set.Icc a b := ⟨le_rfl, h⟩
  have hb : b ∈ Set.Icc a b := ⟨h, le_rfl⟩
  cases r with
  | own => exact ⟨hb, ha⟩
  | swapped => exact ⟨ha, hb⟩

/-- The other order of the two ends reads the other end. -/
theorem Dual.get_flip {β : Type} (d : Dual β) (r : Route) : ∃ r', d.flip.get r = d.get r' := by
  cases r with
  | own => exact ⟨.swapped, rfl⟩
  | swapped => exact ⟨.own, rfl⟩

/-- A point of a box has its components between the two sides, on either route. -/
theorem forall₂_zip_rises {β : Type} [LE β] {own swapped z : List β}
    (hown : List.Forall₂ (· ≤ ·) z own) (hswapped : List.Forall₂ (· ≤ ·) swapped z) :
    List.Forall₂ (fun f f' : β × β => f.1 ≤ f'.1 ∧ f'.2 ≤ f.2) (z.zip z) (own.zip swapped) := by
  induction hown generalizing swapped with
  | nil => simp
  | cons hc _ ih =>
    cases hswapped with
    | cons hb hswapped => exact .cons ⟨hc, hb⟩ (ih hswapped)

variable {K : Type} [Field K] [LinearOrder K]

/-! ## Changes of sign -/

namespace Dual

/-- The numbers from the swapped side up to the own one **change their sign**. -/
def Straddles (d : Dual K) : Prop := d.swapped < 0 ∧ 0 < d.own

instance (d : Dual K) : Decidable d.Straddles :=
  inferInstanceAs (Decidable (d.swapped < 0 ∧ 0 < d.own))

/-- Both sides have one sign. -/
def OneSigned (d : Dual K) : Prop := ∃ t : Tag, t ≠ .unknown ∧ t.HoldsBoth d

theorem OneSigned.flip {d : Dual K} (h : d.OneSigned) : d.flip.OneSigned := by
  obtain ⟨t, ht, hd⟩ := h
  exact ⟨t, ht, hd.flip⟩

/-- Numbers that do not change their sign have one. -/
theorem oneSigned_of_not_straddles {d : Dual K} (hd : d.swapped ≤ d.own) (h : ¬d.Straddles) :
    d.OneSigned := by
  by_cases hswapped : 0 ≤ d.swapped
  · exact ⟨.nonneg, by simp, hswapped.trans hd, hswapped⟩
  · have hown : d.own ≤ 0 := by
      by_contra hpos
      exact h ⟨not_le.1 hswapped, not_le.1 hpos⟩
    exact ⟨.nonpos, by simp, hown, hd.trans hown⟩

theorem OneSigned.not_straddles {d : Dual K} (h : d.OneSigned) : ¬d.Straddles := by
  rintro ⟨hswapped, hown⟩
  obtain ⟨t, ht, hto, hts⟩ := h
  cases t with
  | nonneg => exact absurd hts (not_le.2 hswapped)
  | nonpos => exact absurd hto (not_le.2 hown)
  | unknown => exact ht rfl

/-- Numbers that change their sign have no known tag. -/
theorem Straddles.eq_unknown {d : Dual K} (hd : d.Straddles) {t : Tag} (ht : t.HoldsBoth d) :
    t = .unknown := by
  by_contra hknown
  exact OneSigned.not_straddles ⟨t, hknown, ht⟩ hd

/-- Of two intervals that do not both change their sign, one has a sign. -/
theorem oneSigned_or {l r : Dual K} (hl : l.swapped ≤ l.own) (hr : r.swapped ≤ r.own)
    (h : ¬(l.Straddles ∧ r.Straddles)) : l.OneSigned ∨ r.OneSigned := by
  rcases not_and_or.1 h with hls | hrs
  · exact .inl (oneSigned_of_not_straddles hl hls)
  · exact .inr (oneSigned_of_not_straddles hr hrs)

end Dual

/-- How many components of a box change their sign. -/
def straddlings (own swapped : List K) : Nat := (swapped.zip own).countP fun f => f.1 < 0 ∧ 0 < f.2

theorem straddlings_cons (a b : K) (own swapped : List K) :
    straddlings (a :: own) (b :: swapped) = straddlings own swapped +
      if Dual.Straddles ⟨a, b⟩ then 1 else 0 := by
  rw [straddlings, List.zip_cons_cons, List.countP_cons]
  exact congrArg (straddlings own swapped + ·) (if_congr decide_eq_true_iff rfl rfl)

/-! ## Products of two factors -/

section Products

variable [Logarithms K]

/-- **The bound of a product is the product of two ends**, if the numbers on one side have one
sign. -/
theorem productBound_corner {l r : Dual K} (h : l.OneSigned ∨ r.OneSigned) :
    ∃ a b, productBound l r = l.get a * r.get b := by
  rcases h with ⟨t, ht, hl⟩ | ⟨t, ht, hr⟩
  · have hchosen := Arith.get_forValue_mul l (r.get t.route)
    exact ⟨.forValue (r.get t.route), t.route, by rw [productBound_of_left ht hl, hchosen]⟩
  · have hchosen := Arith.get_forValue_mul r (l.get t.route)
    refine ⟨t.route, .forValue (l.get t.route), ?_⟩
    rw [productBound_of_right ht hr, mul_comm (l.get t.route), hchosen, mul_comm r.own,
      mul_comm r.swapped]

/-- Either end of the next bounds is an end so far times an end of the factor. -/
theorem get_product_corner {bounds : Dual K} {a b : K} (hba : b ≤ a)
    (hsigned : bounds.OneSigned ∨ Dual.OneSigned ⟨a, b⟩) (r : Route) :
    ∃ i, ∃ c ∈ Set.Icc b a,
      (Dual.mk (productBound bounds ⟨a, b⟩) (productBound bounds.flip ⟨b, a⟩)).get r =
        bounds.get i * c := by
  cases r with
  | own =>
    obtain ⟨i, j, hcorner⟩ := productBound_corner hsigned
    exact ⟨i, _, (Dual.get_mem hba j).1, hcorner⟩
  | swapped =>
    obtain ⟨i, j, hcorner⟩ := productBound_corner (hsigned.imp .flip .flip)
    obtain ⟨i', hi'⟩ := bounds.get_flip i
    exact ⟨i', _, (Dual.get_mem hba j).2, hi' ▸ hcorner⟩

/-- Exchanging the two sides of every factor exchanges the bounds. -/
theorem intervalFold_flip (own swapped : List K) (bounds : Dual K) :
    intervalFold bounds.flip (swapped.zip own) = (intervalFold bounds (own.zip swapped)).flip := by
  induction own generalizing swapped bounds with
  | nil => simp [intervalFold]
  | cons a own ih =>
    cases swapped with
    | nil => simp [intervalFold]
    | cons b swapped =>
      rw [List.zip_cons_cons, List.zip_cons_cons, intervalFold_cons, intervalFold_cons, ← ih]
      rfl

/-- The lower bound is the one kept beside the upper one. -/
theorem intervalProduct_exchange (own swapped : List K) :
    intervalProduct swapped own = (intervalFold ⟨1, 1⟩ (own.zip swapped)).swapped := by
  rw [intervalProduct_eq, ← Dual.flip_flip (Dual.mk 1 1), intervalFold_flip]
  rfl

end Products

/-- **Where both factors change their sign**, two products add up to the bound. -/
theorem productBound_straddling {l r : Dual K} (hl : l.Straddles) (hr : r.Straddles) :
    productBound l r = l.own * r.own + l.swapped * r.swapped ∧
      productBound l.flip r.flip = l.own * r.swapped + l.swapped * r.own := by
  obtain ⟨hls, hlo⟩ := hl
  obtain ⟨hrs, hro⟩ := hr
  constructor
  · simp [productBound, hls.le, hlo.le, hrs.le, hro.le]
  · simp [productBound, Dual.flip, hls.le, hlo.le, hrs.le, hro.le]

theorem sameSign_of_zero_notMem {d : Dual K} (hzero : (0 : K) ∉ Set.Icc d.swapped d.own) {a b : K}
    (ha : a ∈ Set.Icc d.swapped d.own) (hb : b ∈ Set.Icc d.swapped d.own) : SameSign a b := by
  by_cases hpos : 0 < d.swapped
  · exact .inl ⟨hpos.trans_le ha.1, hpos.trans_le hb.1⟩
  · have hneg : d.own < 0 := by
      by_contra hown
      exact hzero ⟨not_lt.1 hpos, not_lt.1 hown⟩
    exact .inr ⟨ha.2.trans_lt hneg, hb.2.trans_lt hneg⟩

section Ordered

variable [IsStrictOrderedRing K]

/-- The lower bound is at most the upper one. -/
theorem productBound_flip_le {l r : Dual K} (hl : l.swapped ≤ l.own) (hr : r.swapped ≤ r.own) :
    productBound l.flip r.flip ≤ productBound l r :=
  productBound_mono ⟨hl, hl⟩ ⟨hr, hr⟩

/-- The bounds of a product change their sign only if a factor does. -/
theorem straddles_of_product {bounds f : Dual K} (hbounds : bounds.swapped ≤ bounds.own)
    (hf : f.swapped ≤ f.own)
    (h : Dual.Straddles ⟨productBound bounds f, productBound bounds.flip f.flip⟩) :
    bounds.Straddles ∨ f.Straddles := by
  by_contra hnone
  obtain ⟨hb, hf'⟩ := not_or.1 hnone
  obtain ⟨s, hs, hbs⟩ := Dual.oneSigned_of_not_straddles hbounds hb
  obtain ⟨t, ht, hft⟩ := Dual.oneSigned_of_not_straddles hf hf'
  have hknown : s.mul t ≠ .unknown := by cases s <;> cases t <;> simp_all [Tag.mul]
  have hsign : (s.mul t).HoldsBoth
      (⟨productBound bounds f, productBound bounds.flip f.flip⟩ : Dual K) :=
    ⟨productBound_holds hbs hft, productBound_holds hbs.flip hft.flip⟩
  exact Dual.OneSigned.not_straddles ⟨_, hknown, hsign⟩ h

/-- Where both factors change their sign, **no product comes up to the bound**. -/
theorem mul_lt_of_straddling {l r : Dual K} (hl : l.Straddles) (hr : r.Straddles) {a b : K}
    (ha : a ∈ Set.Icc l.swapped l.own) (hb : b ∈ Set.Icc r.swapped r.own) :
    l.own * r.swapped + l.swapped * r.own < a * b ∧
    a * b < l.own * r.own + l.swapped * r.swapped := by
  obtain ⟨hls, hlo⟩ := hl
  obtain ⟨hrs, hro⟩ := hr
  have hoo : 0 < l.own * r.own := mul_pos hlo hro
  have hss : 0 < l.swapped * r.swapped := mul_pos_of_neg_of_neg hls hrs
  have hos : l.own * r.swapped < 0 := mul_neg_of_pos_of_neg hlo hrs
  have hso : l.swapped * r.own < 0 := mul_neg_of_neg_of_pos hls hro
  rcases le_total 0 a with hpos | hneg
  · have hupper : a * b ≤ l.own * r.own :=
      (mul_le_mul_of_nonneg_left hb.2 hpos).trans (mul_le_mul_of_nonneg_right ha.2 hro.le)
    have hlower : l.own * r.swapped ≤ a * b :=
      (mul_le_mul_of_nonpos_right ha.2 hrs.le).trans (mul_le_mul_of_nonneg_left hb.1 hpos)
    constructor <;> linarith
  · have hupper : a * b ≤ l.swapped * r.swapped :=
      (mul_le_mul_of_nonpos_left hb.1 hneg).trans (mul_le_mul_of_nonpos_right ha.1 hrs.le)
    have hlower : l.swapped * r.own ≤ a * b :=
      (mul_le_mul_of_nonneg_right ha.1 hro.le).trans (mul_le_mul_of_nonpos_left hb.2 hneg)
    constructor <;> linarith

/-! ## Binary arithmetic -/

namespace Arith

variable [Logarithms K] (op : Arith) {l r : Dual K}

/-- Where the two routes agree, the bound is the operation. -/
theorem bound_diagonal (a b : K) : op.bound ⟨a, a⟩ ⟨b, b⟩ = op.apply a b := by
  have htrue : ∀ d : Dual K, Tag.unknown.HoldsBoth d := fun _ => ⟨trivial, trivial⟩
  rw [← combine_eq_bound op (htrue _) (htrue _), combine_diagonal]

variable {a b : K} (ha : a ∈ Set.Icc l.swapped l.own) (hb : b ∈ Set.Icc r.swapped r.own)

include ha hb

/-- **No result over the box exceeds the bound.** -/
theorem le_bound (hzero : op = .div → (0 : K) ∉ Set.Icc r.swapped r.own) :
    op.apply a b ≤ op.bound l r := by
  rw [← bound_diagonal]
  refine bound_mono op ⟨ha.2, ha.1⟩ ⟨hb.2, hb.1⟩ fun hdiv => ?_
  have hr : r.swapped ≤ r.own := hb.1.trans hb.2
  have hzero := hzero hdiv
  exact ⟨sameSign_of_zero_notMem hzero hb ⟨hr, le_rfl⟩,
    sameSign_of_zero_notMem hzero ⟨le_rfl, hr⟩ hb⟩

/-- **No result over the box falls below** the bound with the routes exchanged. -/
theorem bound_le (hzero : op = .div → (0 : K) ∉ Set.Icc r.swapped r.own) :
    op.bound l.flip r.flip ≤ op.apply a b := by
  rw [← bound_diagonal]
  refine bound_mono op ⟨ha.1, ha.2⟩ ⟨hb.1, hb.2⟩ fun hdiv => ?_
  have hr : r.swapped ≤ r.own := hb.1.trans hb.2
  have hzero := hzero hdiv
  exact ⟨sameSign_of_zero_notMem hzero ⟨le_rfl, hr⟩ hb,
    sameSign_of_zero_notMem hzero hb ⟨hr, le_rfl⟩⟩

omit ha hb

/-- **The bound is a result at a corner** of the box, where a factor or the divisor has one sign. -/
theorem bound_corner (hmul : op = .mul → l.OneSigned ∨ r.OneSigned)
    (hdiv : op = .div → r.OneSigned) : ∃ i j, op.bound l r = op.apply (l.get i) (r.get j) := by
  cases op with
  | add => exact ⟨.own, .own, rfl⟩
  | mul => exact productBound_corner (hmul rfl)
  | div =>
    obtain ⟨t, ht, hr⟩ := hdiv rfl
    have hinverse : r.inverse.OneSigned := ⟨t, ht, hr.inverse⟩
    obtain ⟨i, j, hcorner⟩ := productBound_corner (l := l) (.inr hinverse)
    -- the reciprocal of one end stands on the side of the other
    cases j with
    | own => exact ⟨i, .swapped, hcorner.trans (div_eq_mul_inv _ _).symm⟩
    | swapped => exact ⟨i, .own, hcorner.trans (div_eq_mul_inv _ _).symm⟩

/-- **The bounds are the extremes**, but where both factors of a product change their sign. -/
theorem bound_extremal (hl : l.swapped ≤ l.own) (hr : r.swapped ≤ r.own)
    (hmul : op = .mul → l.OneSigned ∨ r.OneSigned)
    (hdiv : op = .div → (0 : K) ∉ Set.Icc r.swapped r.own) :
    IsGreatest (Set.image2 op.apply (Set.Icc l.swapped l.own) (Set.Icc r.swapped r.own))
    (op.bound l r) ∧
      IsLeast (Set.image2 op.apply (Set.Icc l.swapped l.own) (Set.Icc r.swapped r.own))
      (op.bound l.flip r.flip) := by
  have hone : op = .div → r.OneSigned := by
    intro hop
    refine Dual.oneSigned_of_not_straddles hr ?_
    rintro ⟨hneg, hpos⟩
    exact hdiv hop ⟨hneg.le, hpos.le⟩
  obtain ⟨i, j, hmax⟩ := op.bound_corner hmul hone
  obtain ⟨i', j', hmin⟩ := op.bound_corner (fun hop => (hmul hop).imp .flip .flip) fun hop =>
    (hone hop).flip
  refine ⟨⟨?_, ?_⟩, ⟨?_, ?_⟩⟩
  · exact ⟨_, (Dual.get_mem hl i).1, _, (Dual.get_mem hr j).1, hmax.symm⟩
  · rintro _ ⟨a, ha, b, hb, rfl⟩
    exact op.le_bound ha hb hdiv
  · exact ⟨_, (Dual.get_mem hl i').2, _, (Dual.get_mem hr j').2, hmin.symm⟩
  · rintro _ ⟨a, ha, b, hb, rfl⟩
    exact op.bound_le ha hb hdiv

end Arith

/-- **Every strategy computes the extremes of its operation over a box.** Let the numbers of both
intervals have the signs that the tags say, and let no divisor be zero. From the upper ends along
the own route and the lower ends along the swapped one, the strategy for the two tags computes the
greatest result over the box, and with the ends exchanged the least one. The only exception is a
product of two factors of unknown tags that both change their sign: there the two bounds are sums of
two products, between which all results lie. -/
theorem kernel_extremal [Logarithms K] (op : Arith) {ta tb : Tag} {l₀ l₁ r₀ r₁ : K}
    (hl : l₀ ≤ l₁) (hr : r₀ ≤ r₁) (hta : ∀ a ∈ Set.Icc l₀ l₁, ta.Holds a)
    (htb : ∀ b ∈ Set.Icc r₀ r₁, tb.Holds b) (hdiv : op = .div → (0 : K) ∉ Set.Icc r₀ r₁) :
    let upper := op.combine (op.strategy ta tb) ⟨l₁, l₀⟩ ⟨r₁, r₀⟩
    let lower := op.combine (op.strategy ta tb) ⟨l₀, l₁⟩ ⟨r₀, r₁⟩
    let results := Set.image2 op.apply (Set.Icc l₀ l₁) (Set.Icc r₀ r₁)
    let exceptional :=
      op = .mul ∧ ta = .unknown ∧ tb = .unknown ∧ (l₀ < 0 ∧ 0 < l₁) ∧ r₀ < 0 ∧ 0 < r₁
    (¬exceptional → IsGreatest results upper ∧ IsLeast results lower) ∧
      (exceptional → upper = l₁ * r₁ + l₀ * r₀ ∧ lower = l₁ * r₀ + l₀ * r₁ ∧
        ∀ v ∈ results, lower < v ∧ v < upper) := by
  intro upper lower results exceptional
  have hla : ta.HoldsBoth (⟨l₁, l₀⟩ : Dual K) := ⟨hta l₁ ⟨hl, le_rfl⟩, hta l₀ ⟨le_rfl, hl⟩⟩
  have hrb : tb.HoldsBoth (⟨r₁, r₀⟩ : Dual K) := ⟨htb r₁ ⟨hr, le_rfl⟩, htb r₀ ⟨le_rfl, hr⟩⟩
  have hupper : upper = op.bound ⟨l₁, l₀⟩ ⟨r₁, r₀⟩ := Arith.combine_eq_bound op hla hrb
  have hlower : lower = op.bound ⟨l₀, l₁⟩ ⟨r₀, r₁⟩ := Arith.combine_eq_bound op hla.flip hrb.flip
  constructor
  · intro hregular
    have hmul : op = .mul → Dual.OneSigned ⟨l₁, l₀⟩ ∨ Dual.OneSigned ⟨r₁, r₀⟩ := by
      intro hop
      refine Dual.oneSigned_or hl hr ?_
      rintro ⟨hls, hrs⟩
      exact hregular ⟨hop, hls.eq_unknown hla, hrs.eq_unknown hrb, hls, hrs⟩
    rw [hupper, hlower]
    exact op.bound_extremal (l := ⟨l₁, l₀⟩) (r := ⟨r₁, r₀⟩) hl hr hmul hdiv
  · rintro ⟨rfl, -, -, hls, hrs⟩
    obtain ⟨hsum, hsum'⟩ := productBound_straddling (l := ⟨l₁, l₀⟩) (r := ⟨r₁, r₀⟩) hls hrs
    have hupper := hupper.trans hsum
    have hlower := hlower.trans hsum'
    refine ⟨hupper, hlower, ?_⟩
    rintro _ ⟨a, ha, b, hb, rfl⟩
    rw [hupper, hlower]
    exact mul_lt_of_straddling (l := ⟨l₁, l₀⟩) (r := ⟨r₁, r₀⟩) hls hrs ha hb

/-- A quotient of `[-2, 3]` by `[-4, -1]`, both untagged: the extremes are `2` and `-3`. A product
of `[-2, 3]` and `[-4, 1]` is the exception: its bounds `11` and `-14` are no products. -/
theorem kernel_extremal_mixed :
    (IsGreatest (Set.image2 Arith.div.apply (Set.Icc (-2) 3) (Set.Icc (-4) (-1))) (2 : ℚ) ∧
      IsLeast (Set.image2 Arith.div.apply (Set.Icc (-2) 3) (Set.Icc (-4) (-1))) (-3 : ℚ)) ∧
    ∀ v ∈ Set.image2 Arith.mul.apply (Set.Icc (-2) 3) (Set.Icc (-4) 1), (-14 : ℚ) < v ∧ v < 11 := by
  have hfree : ∀ v : ℚ, Tag.unknown.Holds v := fun _ => trivial
  have hnonzero : (0 : ℚ) ∉ Set.Icc (-4) (-1) := by simp
  obtain ⟨hquotient, -⟩ := kernel_extremal .div (show (-2 : ℚ) ≤ 3 by decide)
    (show (-4 : ℚ) ≤ -1 by decide) (fun a _ => hfree a) (fun b _ => hfree b) (fun _ => hnonzero)
  obtain ⟨-, hproduct⟩ := kernel_extremal .mul (show (-2 : ℚ) ≤ 3 by decide)
    (show (-4 : ℚ) ≤ 1 by decide) (fun a _ => hfree a) (fun b _ => hfree b) (by simp)
  have hquotient := hquotient (by simp)
  have hproduct := hproduct (by decide)
  have hupper : Arith.div.combine (Arith.div.strategy .unknown .unknown) ⟨3, -2⟩ ⟨-1, -4⟩ =
      (2 : ℚ) := by
    decide +kernel
  have hlower : Arith.div.combine (Arith.div.strategy .unknown .unknown) ⟨-2, 3⟩ ⟨-4, -1⟩ =
      (-3 : ℚ) := by
    decide +kernel
  have hmax : Arith.mul.combine (Arith.mul.strategy .unknown .unknown) ⟨3, -2⟩ ⟨1, -4⟩ =
      (11 : ℚ) := by
    decide +kernel
  have hmin : Arith.mul.combine (Arith.mul.strategy .unknown .unknown) ⟨-2, 3⟩ ⟨-4, 1⟩ =
      (-14 : ℚ) := by
    decide +kernel
  rw [hupper, hlower] at hquotient
  rw [hmax, hmin] at hproduct
  exact ⟨hquotient, hproduct.2.2⟩

/-! ## Products of many components -/

section Components

variable [Logarithms K] {own swapped : List K}

/-- **Folding keeps both ends attained**: if the bounds so far and the factors to come change
their sign at most once altogether, then each end is an end so far times the product of a
point of the box. -/
theorem intervalFold_corner (hbox : List.Forall₂ (· ≤ ·) swapped own) {bounds : Dual K}
    (hbounds : bounds.swapped ≤ bounds.own)
    (honce : straddlings own swapped + (if bounds.Straddles then 1 else 0) ≤ 1) (route : Route) :
    ∃ r z, List.Forall₂ (· ≤ ·) swapped z ∧ List.Forall₂ (· ≤ ·) z own ∧
      (intervalFold bounds (own.zip swapped)).get route = bounds.get r * z.prod := by
  induction hbox generalizing bounds with
  | nil => exact ⟨route, [], .nil, .nil, by simp [intervalFold]⟩
  | @cons b a swapped own hba _ ih =>
    rw [straddlings_cons] at honce
    obtain ⟨next, hnext⟩ : ∃ next, next = Dual.mk (productBound bounds ⟨a, b⟩)
        (productBound bounds.flip ⟨b, a⟩) :=
      ⟨_, rfl⟩
    have hnextOrdered : next.swapped ≤ next.own := by
      rw [hnext]
      exact productBound_flip_le hbounds (r := ⟨a, b⟩) hba
    -- the next bounds change their sign at the cost of the bounds or of this factor
    have hnextOnce : straddlings own swapped + (if next.Straddles then 1 else 0) ≤ 1 := by
      by_cases hstraddles : next.Straddles
      · rcases straddles_of_product hbounds (f := ⟨a, b⟩) hba (hnext ▸ hstraddles) with h | h
        · rw [if_pos h] at honce
          rw [if_pos hstraddles]
          omega
        · rw [if_pos h] at honce
          rw [if_pos hstraddles]
          omega
      · rw [if_neg hstraddles]
        omega
    obtain ⟨r, z, hlower, hupper, hfold⟩ := ih hnextOrdered hnextOnce
    -- of the bounds and this factor, one does not change its sign
    have hsigned : bounds.OneSigned ∨ Dual.OneSigned ⟨a, b⟩ := by
      refine Dual.oneSigned_or hbounds hba ?_
      rintro ⟨hs, hs'⟩
      rw [if_pos hs, if_pos hs'] at honce
      omega
    obtain ⟨i, c, hc, hcorner⟩ : ∃ i, ∃ c ∈ Set.Icc b a, next.get r = bounds.get i * c :=
      hnext ▸ get_product_corner hba hsigned r
    refine ⟨i, c :: z, .cons hc.1 hlower, .cons hc.2 hupper, ?_⟩
    rw [List.zip_cons_cons, intervalFold_cons, ← hnext, hfold, hcorner, List.prod_cons, mul_assoc]

end Components

/-- **The product of many components is bounded over a box**, from above and, with the routes
exchanged, from below; and if at most one component changes its sign, both bounds are products of
points of the box. -/
theorem intervalProduct_extremal [Logarithms K] {own swapped : List K}
    (hbox : List.Forall₂ (· ≤ ·) swapped own) :
    let products := List.prod '' { z | List.Forall₂ (· ≤ ·) swapped z ∧ List.Forall₂ (· ≤ ·) z own }
    (∀ p ∈ products, intervalProduct swapped own ≤ p ∧ p ≤ intervalProduct own swapped) ∧
      ((swapped.zip own).countP (fun f => f.1 < 0 ∧ 0 < f.2) ≤ 1 →
        intervalProduct swapped own ∈ products ∧ intervalProduct own swapped ∈ products) := by
  intro products
  rw [intervalProduct_exchange, intervalProduct_eq]
  constructor
  · rintro _ ⟨z, ⟨hswapped, hown⟩, rfl⟩
    have hstart : Dual.Rises (⟨1, 1⟩ : Dual K) ⟨1, 1⟩ := ⟨le_rfl, le_rfl⟩
    have hrise := intervalFold_mono (forall₂_zip_rises hown hswapped) hstart
    rw [intervalFold_diagonal, one_mul] at hrise
    exact ⟨hrise.swapped, hrise.own⟩
  · intro honce
    have hone : ¬Dual.Straddles (⟨1, 1⟩ : Dual K) := fun h => absurd h.1 (not_lt.2 zero_le_one)
    have hattained : ∀ route, (intervalFold ⟨1, 1⟩ (own.zip swapped)).get route ∈ products := by
      intro route
      have hstart : straddlings own swapped +
          (if Dual.Straddles (⟨1, 1⟩ : Dual K) then 1 else 0) ≤ 1 := by
        rw [if_neg hone]
        exact honce
      obtain ⟨r, z, hlower, hupper, hfold⟩ := intervalFold_corner hbox le_rfl hstart route
      refine ⟨z, ⟨hlower, hupper⟩, ?_⟩
      cases r <;> rw [hfold] <;> exact (one_mul _).symm
    exact ⟨hattained .swapped, hattained .own⟩

/-- Three components, of which only the second changes its sign: `20` is the greatest product
and `-30` the least. -/
theorem intervalProduct_extremal_once :
    let products := List.prod '' { z : List ℚ |
      List.Forall₂ (· ≤ ·) [1, -2, -5] z ∧ List.Forall₂ (· ≤ ·) z [2, 3, -1] }
    (20 ∈ products ∧ -30 ∈ products) ∧ ∀ p ∈ products, -30 ≤ p ∧ p ≤ 20 := by
  have hbox : List.Forall₂ (· ≤ ·) [(1 : ℚ), -2, -5] [2, 3, -1] := by decide
  have hupper : intervalProduct [(2 : ℚ), 3, -1] [1, -2, -5] = 20 := by decide +kernel
  have hlower : intervalProduct [(1 : ℚ), -2, -5] [2, 3, -1] = -30 := by decide +kernel
  obtain ⟨hbounded, hattained⟩ := intervalProduct_extremal hbox
  rw [hupper, hlower] at hattained hbounded
  exact ⟨(hattained (by decide)).symm, hbounded⟩

end Ordered

end MixedMonotone
