import Mathlib
import MixedMonotone.Proofs.Compilation

/-!
# A copy is evaluated in lockstep

Evaluating a node and evaluating its copy visits nodes and their copies in the same order, and
overwrites them with the same values. So not only the answers agree, but **the caches** do, wherever
a copy of a node stands.

* `Paired`: a node and its copy, each with its operands before it.
* `InStep`: two arenas hold paired nodes wherever the handles are the same.
* `evaluateAt_inStep`: evaluation **fails on both sides, or leaves them in step**.
* `Copies.of_evaluateAt`: so a copy that is evaluated together with its original is a copy still.
* `Copies.inputsFit`: the original accepts the points that its copy accepts.
-/

namespace MixedMonotone

variable {α : Type} {base base' nodes nodes' : List (Node α)}

/-! ## Positions of one handle -/

namespace SameHandle

theorem left_unique (hinc : Increasing base) {i j k : Nat} (hik : SameHandle base base' i k)
    (hjk : SameHandle base base' j k) : i = j := by
  obtain ⟨n, m, hn, hm, hid⟩ := hik
  obtain ⟨n', m', hn', hm', hid'⟩ := hjk
  obtain rfl := Option.some.inj (hm.symm.trans hm')
  exact hinc.position_unique hn hn' (hid.symm.trans hid')

theorem right_unique (hinc' : Increasing base') {i k l : Nat} (hik : SameHandle base base' i k)
    (hil : SameHandle base base' i l) : k = l := by
  obtain ⟨n, m, hn, hm, hid⟩ := hik
  obtain ⟨n', m', hn', hm', hid'⟩ := hil
  obtain rfl := Option.some.inj (hn.symm.trans hn')
  exact hinc'.position_unique hm hm' (hid.trans hid'.symm)

/-- The handles are no part of the caches. -/
theorem alike [Zero α] (h : Alike base nodes) (h' : Alike base' nodes') {i k : Nat}
    (hik : SameHandle base base' i k) : SameHandle nodes nodes' i k := by
  obtain ⟨n, m, hn, hm, hid⟩ := hik
  obtain ⟨n', hn', hnid, -⟩ := h.symm.before hn
  obtain ⟨m', hm', hmid, -⟩ := h'.symm.before hm
  exact ⟨n', m', hn', hm', by rw [hmid, hid, hnid]⟩

end SameHandle

/-- A node is a copy still when the handles it refers to stand where they stood. -/
theorem Node.Copy.imp {n m : Node α} (h : Node.Copy base base' n m)
    (hsame : ∀ i k, SameHandle base base' i k → SameHandle nodes nodes' i k) :
    Node.Copy nodes nodes' n m := by
  refine ⟨h.id, h.tag, h.value, ?_⟩
  have hkind := h.kind
  generalize n.kind = k, m.kind = k' at hkind
  cases hkind with
  | leaf k hleaf => exact .leaf k hleaf
  | function f operands hops => exact .function f operands (hops.imp hsame)

/-! ## In step -/

/-- A node at position `i` and its copy at position `k`, each with its operands before it. -/
structure Paired (base base' : List (Node α)) (i k : Nat) (n m : Node α) : Prop where
  copy : Node.Copy base base' n m
  before : ∀ j ∈ n.operands, j < i
  before' : ∀ l ∈ m.operands, l < k

/-- Wherever `base` and `base'` have one handle, `nodes` and `nodes'` **hold paired nodes**. -/
def InStep (base base' nodes nodes' : List (Node α)) : Prop :=
  ∀ i k, SameHandle base base' i k →
    ∃ n m, nodes[i]? = some n ∧ nodes'[k]? = some m ∧ Paired base base' i k n m

/-- Paired nodes are put where paired nodes were. -/
theorem InStep.set (hinc : Increasing base) (hinc' : Increasing base')
    (h : InStep base base' nodes nodes') {i k : Nat} (hik : SameHandle base base' i k)
    {n m : Node α} (hpaired : Paired base base' i k n m) :
    InStep base base' (nodes.set i n) (nodes'.set k m) := by
  intro j l hjl
  obtain ⟨n', m', hn', hm', hpaired'⟩ := h j l hjl
  have hj := (List.getElem?_eq_some_iff.1 hn').1
  have hl := (List.getElem?_eq_some_iff.1 hm').1
  by_cases hij : i = j
  · subst hij
    obtain rfl := hik.right_unique hinc' hjl
    exact ⟨n, m, List.getElem?_set_self hj, List.getElem?_set_self hl, hpaired⟩
  · have hkl : k ≠ l := by
      rintro rfl
      exact hij (hik.left_unique hinc hjl)
    exact ⟨n', m', by rw [List.getElem?_set_ne hij, hn'], by rw [List.getElem?_set_ne hkl, hm'],
      hpaired'⟩

/-- Two applications that differ in the positions of their operands have the same
passes, up to these. -/
theorem passes_forall₂ {R : Nat → Nat → Prop} (f : Application α) {operands : List Nat}
    (hops : List.Forall₂ R f.operands operands) :
    List.Forall₂
      (fun p q : Pass => q.operand = p.operand ∧ q.route = p.route ∧ R p.position q.position)
      f.passes { f with operands }.passes := by
  have hnumbered : List.Forall₂ (fun p q => R p.1 q.1 ∧ p.2 = q.2) f.operands.zipIdx
      operands.zipIdx := by
    rw [List.zipIdx_eq_zip_range', List.zipIdx_eq_zip_range', ← hops.length_eq]
    exact forall₂_zip hops (List.forall₂_same.2 fun _ _ => rfl)
  refine List.rel_flatMap hnumbered ?_
  rintro ⟨j, a⟩ ⟨l, b⟩ ⟨hjl, rfl⟩
  rw [List.forall₂_map_left_iff, List.forall₂_map_right_iff, List.forall₂_same]
  exact fun _ _ => ⟨rfl, rfl, hjl⟩

section Evaluation

variable (hinc : Increasing base) (hinc' : Increasing base')

/-- **One pass** stores the same value on both sides. -/
theorem runPass_inStep {below below' : Nat → Evaluation α} {points : Points α} {pass pass' : Pass}
    (hoperand : pass'.operand = pass.operand) (hroute : pass'.route = pass.route)
    (hsame : SameHandle base base' pass.position pass'.position)
    (hbelow : ∀ nodes nodes', InStep base base' nodes nodes' → Option.Rel (InStep base base')
      (below pass.position (points.along pass.route) nodes)
      (below' pass'.position (points.along pass.route) nodes'))
    {scratch : List (OperandValues α)} (h : InStep base base' nodes nodes') :
    Option.Rel (fun p q => InStep base base' p.1 q.1 ∧ p.2 = q.2)
      (runPass below points (nodes, scratch) pass)
      (runPass below' points (nodes', scratch) pass') := by
  obtain ⟨n, m, hn, hm, hpaired⟩ := h _ _ hsame
  have hmatrix : m.isMatrix = n.isMatrix := congrArg Option.isSome hpaired.copy.matrix?_eq
  by_cases hmat : n.isMatrix = true
  · simp only [runPass, hn, hm, hmatrix, hmat, Option.bind_eq_bind, Option.bind_some, if_true]
    exact .some ⟨h, rfl⟩
  · simp only [runPass, hn, hm, hmatrix, hmat, Option.bind_eq_bind, Option.bind_some, hroute,
      hoperand]
    refine rel_bind (hbelow nodes nodes' h) fun nodes₁ nodes₁' h₁ => ?_
    -- the operand that has just been evaluated
    obtain ⟨n₁, m₁, hn₁, hm₁, hpaired₁⟩ := h₁ _ _ hsame
    rw [hn₁, hm₁, Option.bind_some, Option.bind_some, hpaired₁.copy.value]
    cases store scratch pass.operand pass.route n₁.value with
    | none => exact .none
    | some scratch₁ => exact .some ⟨h₁, rfl⟩

variable [Scalar α]

include hinc hinc'

/-- **One node** is combined from the same operand values on both sides. -/
theorem evaluateNode_inStep {below below' : Nat → Evaluation α} {i k : Nat}
    (hik : SameHandle base base' i k)
    (hbelow : ∀ j < i, ∀ l < k, SameHandle base base' j l → ∀ points nodes nodes',
      InStep base base' nodes nodes' →
        Option.Rel (InStep base base') (below j points nodes) (below' l points nodes'))
    (points : Points α) (h : InStep base base' nodes nodes') :
    Option.Rel (InStep base base') (evaluateNode below i points nodes)
      (evaluateNode below' k points nodes') := by
  obtain ⟨n, m, hn, hm, hpaired⟩ := h i k hik
  obtain ⟨hcopy, hbefore, hbefore'⟩ := hpaired
  obtain ⟨id', tag', kind, value'⟩ := n
  obtain ⟨id, tag, kind', value⟩ := m
  obtain ⟨hid, htag, hvalue, hkind⟩ := hcopy
  dsimp only at hid htag hvalue hkind
  subst hid htag hvalue
  cases hkind with
  | leaf kind hleaf =>
    cases kind with
    | function f => exact absurd rfl (hleaf f)
    | parameter | matrixParameter M =>
      simp only [evaluateNode, hn, hm, Option.bind_eq_bind, Option.bind_some]
      exact .some h
    | «variable» bounds =>
      simp only [evaluateNode, hn, hm, Option.bind_eq_bind, Option.bind_some]
      split
      · exact .some (h.set hinc hinc' hik ⟨⟨rfl, rfl, rfl, .leaf _ hleaf⟩, hbefore, hbefore'⟩)
      · exact .none
  | function f operands hops =>
    simp only [evaluateNode, hn, hm, Option.bind_eq_bind, Option.bind_some]
    -- the operands on both sides stand before their parents, so the recursion applies to each pass
    have hops' : List.Forall₂ (fun j l => j < i ∧ l < k ∧
        SameHandle base base' j l) f.operands operands :=
      (List.forall₂_and_left _ _).2 ⟨hbefore,
        ((List.forall₂_and_left _ _).2 ⟨hbefore', hops.flip⟩).flip⟩
    have hstep : ∀ (b c : List (Node α) × List (OperandValues α)) (p q : Pass),
        InStep base base' b.1 c.1 ∧ b.2 = c.2 →
        (q.operand = p.operand ∧ q.route = p.route ∧
          p.position < i ∧ q.position < k ∧ SameHandle base base' p.position q.position) →
        Option.Rel (fun b c => InStep base base' b.1 c.1 ∧ b.2 = c.2)
          (runPass below points b p) (runPass below' points c q) := by
      rintro ⟨nodes₁, scratch₁⟩ ⟨nodes₁', _⟩ p q ⟨h₁, rfl⟩ ⟨hoperand, hroute, hj, hl, hjl⟩
      exact runPass_inStep hoperand hroute hjl (hbelow _ hj _ hl hjl _) h₁
    refine rel_bind (rel_foldlM hstep (passes_forall₂ f hops') ⟨h, rfl⟩) ?_
    rintro ⟨nodes₁, scratch₁⟩ ⟨nodes₁', _⟩ ⟨h₁, rfl⟩
    change Option.Rel _ (f.op.combine f.plan scratch₁ value.length >>= _)
      (f.op.combine f.plan scratch₁ value.length >>= _)
    cases f.op.combine f.plan scratch₁ value.length with
    | none => exact .none
    | some w =>
      exact .some (h₁.set hinc hinc' hik
        ⟨⟨rfl, rfl, rfl, .function { f with scratch := scratch₁ } operands hops⟩,
          hbefore, hbefore'⟩)

/-- **Evaluation fails on both sides, or leaves them in step.** -/
theorem evaluateAt_inStep (i : Nat) :
    ∀ {k : Nat}, SameHandle base base' i k → ∀ (points : Points α) {nodes nodes' : List (Node α)},
      InStep base base' nodes nodes' →
        Option.Rel (InStep base base') (evaluateAt i points nodes)
        (evaluateAt k points nodes') := by
  induction i using Nat.strong_induction_on with
  | _ i ih =>
    intro k hik points nodes nodes' h
    rw [evaluateAt_eq, evaluateAt_eq]
    refine evaluateNode_inStep hinc hinc' hik
      (fun j hj l hl hjl points₁ nodes₁ nodes₁' h₁ => ?_) points h
    rw [evaluateBelow_of_lt hj, evaluateBelow_of_lt hl]
    exact ih j hj hjl points₁ h₁

end Evaluation

/-! ## Copies stay copies -/

namespace Copies

theorem inStep (h : Copies base base') (hinc : Increasing base)
    (hlt : ∀ i, ∀ j ∈ operandsAt base i, j < i) (hlt' : ∀ k, ∀ l ∈ operandsAt base' k, l < k) :
    InStep base base' base base' := by
  intro i k hik
  obtain ⟨n, m, hn, hm, hcopy⟩ := h.copy hinc hik
  exact ⟨n, m, hn, hm,
    hcopy, by simpa [operandsAt, hn] using hlt i, by simpa [operandsAt, hm] using hlt' k⟩

/-- Points that fit the variables below a copy **fit those below its original**. -/
theorem inputsFit (h : Copies base base') (hinc : Increasing base) {i k : Nat}
    (hik : SameHandle base base' i k) {points : Points α} (hin : InputsFit base' k points) :
    InputsFit base i points :=
  (h.corresponds hinc).inputsFit (fun _ _ hcopy => ⟨hcopy.isVariable_eq, hcopy.dimension_eq⟩) hik
    hin

variable [Scalar α]

/-- What is in step with a copy is a copy, where evaluations have changed caches only. -/
theorem of_inStep (h : Copies base base') (hstep : InStep base base' nodes nodes')
    (halike : Alike base nodes) (halike' : Alike base' nodes') : Copies nodes nodes' := by
  intro k m hm
  obtain ⟨m₀, hm₀, -⟩ := halike'.symm.getElem? hm
  obtain ⟨i, n₀, hn₀, hcopy₀⟩ := h k m₀ hm₀
  obtain ⟨n, m', hn, hm', hpaired⟩ := hstep i k ⟨n₀, m₀, hn₀, hm₀, hcopy₀.id⟩
  obtain rfl := Option.some.inj (hm.symm.trans hm')
  exact ⟨i, n, hn, hpaired.copy.imp fun _ _ => SameHandle.alike halike halike'⟩

variable {s s' : Settings}

/-- **A copy that is evaluated together with its original is a copy still**, caches included. -/
theorem of_evaluateAt (h : Copies base base') (hinc : Increasing base) (hinc' : Increasing base')
    (hok : NodesOK s base) (hok' : NodesOK s' base') {i k : Nat} (hik : SameHandle base base' i k)
    {points : Points α} (hrun : evaluateAt i points base = some nodes)
    (hrun' : evaluateAt k points base' = some nodes') (halike : Alike base nodes)
    (halike' : Alike base' nodes') : Copies nodes nodes' := by
  have hstep :=
    evaluateAt_inStep hinc hinc' i hik points (h.inStep hinc hok.operands_lt hok'.operands_lt)
  rw [hrun, hrun'] at hstep
  cases hstep with
  | some hstep => exact h.of_inStep hstep halike halike'

end Copies

end MixedMonotone
