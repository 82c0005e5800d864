import Mathlib
import MixedMonotone.Proofs.WellFormed

/-!
# What combining reads

* `Op.combine_total`: operands of the right sizes combine to a value of the node's dimension.
* `Op.combine_congr`: **only the planned routes are read.** Operand values that agree along the
  routes that the plan asks for combine to the same value.
-/

namespace MixedMonotone

variable {α β : Type}

theorem OperandValues.Has.length_get {v : OperandValues α} {d : Nat} (hv : v.Has d) (r : Route) :
    (v.get r).length = d := by
  cases r
  · exact hv.1
  · exact hv.2

theorem haveSizes_one {vs : List (OperandValues α)} {σs : List (Signature α)}
    (hvs : HaveSizes vs σs) (hσs : ∀ σ ∈ σs, σ.IsVector ∧ σ.dimension = 1) : ∀ v ∈ vs, v.Has 1 := by
  intro v hv
  obtain ⟨σ, hσ, hvσ⟩ := forall₂_mem_left hvs hv
  exact (hσs σ hσ).2 ▸ hvσ

variable [Scalar α]

/-! ## Components -/

namespace OperandValues

/-- Component `i` along both routes, a single component standing for all. -/
def componentAt (v : OperandValues α) (i : Nat) : Dual α :=
  let i := if v.own.length = 1 then 0 else i
  ⟨v.own.getD i 0, v.swapped.getD i 0⟩

theorem component?_eq {v : OperandValues α} {d i : Nat} (hv : v.Has d) (hi : d = 1 ∨ i < d) :
    v.component? i = some (v.componentAt i) := by
  unfold component? componentAt
  have hlt : (if v.own.length = 1 then 0 else i) < d := by
    rw [hv.1]; split <;> omega
  have hown := List.getElem?_eq_getElem (l := v.own) (by rw [hv.1]; exact hlt)
  have hswapped := List.getElem?_eq_getElem (l := v.swapped) (by rw [hv.2]; exact hlt)
  simp only [hown, hswapped, List.getD_eq_getElem?_getD, Option.getD_some]

theorem componentAt_get {v : OperandValues α} {d : Nat} (hv : v.Has d) (i : Nat) (r : Route) :
    (v.componentAt i).get r = (v.get r).getD (if d = 1 then 0 else i) 0 := by
  unfold componentAt
  rw [hv.1]
  cases r <;> rfl

end OperandValues

namespace Broadcasts

theorem left_lt {l r d i : Nat} (h : Broadcasts l r d) (hi : i < d) : l = 1 ∨ i < l := by
  unfold Broadcasts at h; omega

theorem right_lt {l r d i : Nat} (h : Broadcasts l r d) (hi : i < d) : r = 1 ∨ i < r := by
  unfold Broadcasts at h; omega

end Broadcasts

theorem Op.zipComponents_eq {l r : OperandValues α} {dl dr n : Nat} (op : Arith) (s : Strategy)
    (hl : l.Has dl) (hr : r.Has dr) (hln : ∀ i < n, dl = 1 ∨ i < dl)
    (hrn : ∀ i < n, dr = 1 ∨ i < dr) : Op.zipComponents op s l r n =
      some ((List.range n).map fun i => op.combine s (l.componentAt i) (r.componentAt i)) := by
  refine mapM_eq_some fun i hi => ?_
  have hi := List.mem_range.1 hi
  rw [OperandValues.component?_eq hl (hln i hi), OperandValues.component?_eq hr (hrn i hi)]
  rfl

/-! ## Matrices -/

namespace Matrix

theorem length_accumulate (beta v : α) (column out : List α) :
    (accumulate beta v column out).length = min column.length out.length := by
  simp [accumulate]

/-- Accumulating columns keeps the number of components. -/
theorem length_foldl_accumulate (m : Matrix α) (cs : List (Fin m.cols × α)) (acc : α × List α)
    (hacc : acc.2.length = m.rows) :
    (cs.foldl (fun acc c => (1, accumulate acc.1 c.2 (m.column c.1) acc.2)) acc).2.length =
      m.rows := by
  induction cs generalizing acc with
  | nil => exact hacc
  | cons c cs ih =>
    refine ih _ ?_
    simp [length_accumulate, column, hacc]

theorem mulVec_total (m : Matrix α) {v : List α} (hv : v.length = m.cols) :
    ∃ w, m.mulVec v = some w ∧ w.length = m.rows := by
  unfold mulVec mulVecInto
  rw [if_pos ⟨hv, List.length_replicate⟩]
  exact ⟨_, rfl, length_foldl_accumulate m _ _ (by simp)⟩

theorem mulSplit_total (m : Matrix α) {v : OperandValues α} (hv : v.Has m.cols) :
    ∃ w, m.split.1.mulSplit m.split.2 v = some w ∧ w.length = m.rows := by
  unfold mulSplit
  rw [if_pos ⟨rfl, hv.1, hv.2⟩]
  exact ⟨_, rfl, by simp [rowList, split, map]⟩

end Matrix

/-- The kernel of a matrix-vector product is the whole matrix, read along the one planned route of
the vector, or the matrix split, with the vector read along both. -/
theorem matvecKernel_cases (m : Matrix α) (mt vt : Tag) :
    (mt ≠ .unknown ∧ Graph.matvecKernel m mt vt =
        (.binary (.direct .own mt.route), .signed m mt.route)) ∨
      (mt = .unknown ∧ Graph.matvecKernel m mt vt =
        (.binary (.splitLeft .own), .split m.split.1 m.split.2)) := by
  cases mt <;> cases vt <;> simp [Graph.matvecKernel, Arith.strategy, Tag.isKnown, Arith.rightRoute]

namespace Op

/-! ## Combining succeeds -/

theorem combine_arith {op : Arith} {plan : Plan} {l r : OperandValues α} {dl dr d : Nat}
    (hl : l.Has dl) (hr : r.Has dr) (hd : Broadcasts dl dr d) :
    (Op.arith op).combine plan [l, r] d = some ((List.range d).map fun i =>
      op.combine plan.strategy (l.componentAt i) (r.componentAt i)) :=
  zipComponents_eq op plan.strategy hl hr (fun _ => hd.left_lt) fun _ => hd.right_lt

theorem combine_dot {plan : Plan} {l r : OperandValues α} {n d : Nat} (hl : l.Has n)
    (hr : r.Has n) : dot.combine plan [l, r] d = some [Scalar.sum ((List.range n).map fun i =>
      Arith.mul.combine plan.strategy (l.componentAt i) (r.componentAt i))] := by
  have hzip := zipComponents_eq .mul plan.strategy hl hr (n := n) (fun _ => .inr) fun _ => .inr
  rw [combine, hl.1, hzip]
  rfl

theorem combine_list {plan : Plan} {vs : List (OperandValues α)} {d : Nat}
    (hvs : ∀ v ∈ vs, v.Has 1) :
    list.combine plan vs d = some (vs.map fun v => (v.get plan.route).headD 0) := by
  refine mapM_eq_some fun v hv => ?_
  obtain ⟨a, ha⟩ := List.length_eq_one_iff.1 ((hvs v hv).length_get plan.route)
  rw [ha]
  rfl

theorem combine_slice {plan : Plan} {v : OperandValues α} {n start d : Nat} (hv : v.Has n)
    (hle : start + d ≤ n) :
    (slice start).combine plan [v] d = some (((v.get plan.route).drop start).take d) := by
  rw [combine, if_pos (by rw [hv.length_get]; exact hle)]

/-- **Operands of the right sizes combine** to a value of the node's dimension. -/
theorem combine_total {s : Settings} {op : Op α} {plan : Plan} {σs : List (Signature α)} {d : Nat}
    {t : Tag} (hfits : op.Fits s plan σs d t) {vs : List (OperandValues α)}
    (hvs : HaveSizes vs σs) :
    ∃ w, op.combine plan vs d = some w ∧ w.length = d := by
  cases hfits with
  | arith _ _ hd =>
    obtain ⟨l, r, hl, hr, rfl⟩ := forall₂_pair hvs
    exact ⟨_, combine_arith hl hr hd, by simp⟩
  | dot _ _ hd =>
    obtain ⟨l, r, hl, hr, rfl⟩ := forall₂_pair hvs
    exact ⟨_, combine_dot hl (hd ▸ hr), List.length_singleton⟩
  | @matvec σl σr m _ _ hd =>
    obtain ⟨l, r, -, hr, rfl⟩ := forall₂_pair hvs
    rw [hd] at hr
    rcases matvecKernel_cases m σl.tag σr.tag with ⟨-, hk⟩ | ⟨-, hk⟩ <;> rw [hk]
    · exact m.mulVec_total (hr.length_get _)
    · exact m.mulSplit_total hr
  | log2 | ln | neg | reciprocal =>
    obtain ⟨v, hv, rfl⟩ := forall₂_single hvs
    exact ⟨_, rfl, by rw [List.length_map]; exact hv.length_get _⟩
  | sum | prod =>
    obtain ⟨v, -, rfl⟩ := forall₂_single hvs
    exact ⟨_, rfl, List.length_singleton⟩
  | list _ hos =>
    exact ⟨_, combine_list (haveSizes_one hvs hos), by rw [List.length_map, hvs.length_eq]⟩
  | slice _ _ hle =>
    obtain ⟨v, hv, rfl⟩ := forall₂_single hvs
    refine ⟨_, combine_slice hv hle, ?_⟩
    rw [List.length_take, List.length_drop, hv.length_get]
    omega

end Op

/-! ## Combining reads the planned routes -/

/-- The operand values agree along the routes that the plan asks for. -/
def AgreeOn (plan : Plan) (vs ws : List (OperandValues α)) : Prop :=
  ∀ j v w, vs[j]? = some v → ws[j]? = some w → ∀ r ∈ plan.routes j, v.get r = w.get r

theorem Dual.eq_of_both {d d' : Dual β} (h : ∀ route ∈ Route.both, d.get route = d'.get route) :
    d = d' := by
  have hown := h .own (by simp [Route.both])
  have hswapped := h .swapped (by simp [Route.both])
  cases d
  cases d'
  exact congr (congrArg Dual.mk hown) hswapped

/-- A bound of two components reads the routes that its strategy names. -/
theorem Arith.combine_congr (op : Arith) (s : Strategy) {l l' r r' : Dual α}
    (hl : ∀ route ∈ s.leftRoutes, l.get route = l'.get route)
    (hr : ∀ route ∈ s.rightRoutes, r.get route = r'.get route) :
    op.combine s l r = op.combine s l' r' := by
  cases s with
  | direct left right =>
    simp only [Strategy.leftRoutes, Strategy.rightRoutes, List.forall_mem_singleton] at hl hr
    simp only [combine, hl, hr]
  | splitLeft left =>
    simp only [Strategy.leftRoutes, List.forall_mem_singleton] at hl
    rw [Dual.eq_of_both hr]
    simp only [combine, hl]
  | selectLeft right =>
    simp only [Strategy.rightRoutes, List.forall_mem_singleton] at hr
    rw [Dual.eq_of_both hl]
    simp only [combine, hr]
  | splitBoth => rw [Dual.eq_of_both hl, Dual.eq_of_both hr]

namespace Op

/-- Pairs of components are combined from the planned routes. -/
theorem map_combine_congr {op : Arith} {s : Strategy} {l l' r r' : OperandValues α} {dl dr : Nat}
    (hl : l.Has dl) (hl' : l'.Has dl) (hr : r.Has dr) (hr' : r'.Has dr)
    (hagree : AgreeOn (.binary s) [l, r] [l', r']) (is : List Nat) :
    (is.map fun i => op.combine s (l.componentAt i) (r.componentAt i)) =
      is.map fun i => op.combine s (l'.componentAt i) (r'.componentAt i) := by
  refine List.map_congr_left fun i _ => op.combine_congr s ?_ ?_
  · intro route hroute
    rw [OperandValues.componentAt_get hl, OperandValues.componentAt_get hl',
      hagree 0 l l' rfl rfl route hroute]
  · intro route hroute
    rw [OperandValues.componentAt_get hr, OperandValues.componentAt_get hr',
      hagree 1 r r' rfl rfl route hroute]

/-- **Only the planned routes are read**: operand values that agree there combine to the same
value. -/
theorem combine_congr {s : Settings} {op : Op α} {plan : Plan} {σs : List (Signature α)} {d : Nat}
    {t : Tag} (hfits : op.Fits s plan σs d t) {vs ws : List (OperandValues α)}
    (hvs : HaveSizes vs σs)
    (hws : HaveSizes ws σs) (hagree : AgreeOn plan vs ws) :
    op.combine plan vs d = op.combine plan ws d := by
  cases hfits with
  | arith _ _ hd =>
    obtain ⟨l, r, hl, hr, rfl⟩ := forall₂_pair hvs
    obtain ⟨l', r', hl', hr', rfl⟩ := forall₂_pair hws
    rw [combine_arith hl hr hd, combine_arith hl' hr' hd, Plan.strategy,
      map_combine_congr hl hl' hr hr' hagree]
  | dot _ _ hd =>
    obtain ⟨l, r, hl, hr, rfl⟩ := forall₂_pair hvs
    obtain ⟨l', r', hl', hr', rfl⟩ := forall₂_pair hws
    rw [combine_dot hl (hd ▸ hr), combine_dot hl' (hd ▸ hr'), Plan.strategy,
      map_combine_congr hl hl' hr hr' hagree]
  | @matvec σl σr m _ _ hd =>
    obtain ⟨l, r, -, hr, rfl⟩ := forall₂_pair hvs
    obtain ⟨l', r', -, hr', rfl⟩ := forall₂_pair hws
    have hread := hagree 1 r r' rfl rfl
    rcases matvecKernel_cases m σl.tag σr.tag with ⟨-, hk⟩ | ⟨-, hk⟩ <;> rw [hk] at hread ⊢
    -- a matrix of known sign reads the vector along one route, a split one along both
    · have hroute := hread σl.tag.route (by simp [Plan.routes, Strategy.rightRoutes])
      simp only [combine, hroute]
    · simp only [combine, Dual.eq_of_both hread]
  | log2 | ln | neg | reciprocal | sum =>
    obtain ⟨v, -, rfl⟩ := forall₂_single hvs
    obtain ⟨w, -, rfl⟩ := forall₂_single hws
    have hread := hagree 0 v w rfl rfl
    simp only [Plan.routes, List.forall_mem_singleton] at hread
    simp only [combine, Plan.route, hread]
  | prod =>
    obtain ⟨v, -, rfl⟩ := forall₂_single hvs
    obtain ⟨w, -, rfl⟩ := forall₂_single hws
    have hread := hagree 0 v w rfl rfl
    split at hread
    · rename_i htag
      -- nonnegative components are multiplied along the own route alone
      simp only [Plan.routes, List.forall_mem_singleton] at hread
      simp only [combine, Plan.route, htag, if_true, reduceCtorEq, if_false, hread]
    · rw [Dual.eq_of_both hread]
  | list _ hos =>
    rw [combine_list (haveSizes_one hvs hos), combine_list (haveSizes_one hws hos)]
    refine congrArg some (List.ext_getElem ?_ ?_)
    · rw [List.length_map, List.length_map, hvs.length_eq, hws.length_eq]
    · intro j hj hj'
      rw [List.length_map] at hj hj'
      have hown := hagree j _ _ (List.getElem?_eq_getElem hj) (List.getElem?_eq_getElem hj') .own
        (by simp [Plan.routes])
      simp only [List.getElem_map, Plan.route, hown]
  | slice _ _ hle =>
    obtain ⟨v, hv, rfl⟩ := forall₂_single hvs
    obtain ⟨w, hw, rfl⟩ := forall₂_single hws
    have hread := hagree 0 v w rfl rfl .own (by simp [Plan.routes])
    rw [combine_slice hv hle, combine_slice hw hle, Plan.route, hread]

end Op

end MixedMonotone
