import Mathlib
import MixedMonotone.Proofs.Combining
import MixedMonotone.Proofs.Denotation

/-!
# Evaluation computes the pure value

A node below several others is overwritten once per pass, so what an operand holds when its
parent is combined need not be what the parent asked for. The parent's **scratch** is: it is
filled right after each pass.

* `InputsFit`: the points are as long as the variables below a node.
* `Filled`: the scratch holds the pure values of the passes done so far; one pass extends it
  (`runPass_spec`), and so all passes fill every slot that is read (`runPasses_spec`).
* `evaluateAt_spec`: **evaluation ends, changes caches only, and leaves the pure value.**
-/

namespace MixedMonotone

variable {α : Type} {nodes : List (Node α)}

/-- The points are as long as every variable below a position. -/
def InputsFit (nodes : List (Node α)) (i : Nat) (points : Points α) : Prop :=
  ∀ j n, Reaches nodes i j → nodes[j]? = some n → n.isVariable = true →
    points.own.length = n.dimension ∧ points.swapped.length = n.dimension

namespace InputsFit

variable {i : Nat} {points : Points α}

theorem flip (h : InputsFit nodes i points) : InputsFit nodes i points.flip :=
  fun j n hij hn hv => (h j n hij hn hv).symm

theorem along (h : InputsFit nodes i points) (r : Route) : InputsFit nodes i (points.along r) := by
  cases r
  · exact h
  · exact h.flip

theorem reaches (h : InputsFit nodes i points) {k : Nat} (hik : Reaches nodes i k) :
    InputsFit nodes k points := fun j n hkj => h j n (hik.trans hkj)

theorem operand (h : InputsFit nodes i points) {k : Nat} (hk : k ∈ operandsAt nodes i) :
    InputsFit nodes k points := h.reaches (.head hk (.refl k))

/-- Points of other values and the same lengths. -/
theorem of_lengths {points' : Points α} (h : InputsFit nodes i points)
    (hown : points'.own.length = points.own.length)
    (hswapped : points'.swapped.length = points.swapped.length) : InputsFit nodes i points' := by
  intro j n hij hn hv
  rw [hown, hswapped]
  exact h j n hij hn hv

/-- A node that is no variable itself asks what its operands ask. -/
theorem of_operands {n : Node α} (hn : nodes[i]? = some n) (hv : n.isVariable = false)
    (h : ∀ k ∈ n.operands, InputsFit nodes k points) : InputsFit nodes i points := by
  intro j m hij hm hmv
  rcases hij.eq_or_operand with rfl | ⟨k, hk, hkj⟩
  · obtain rfl := Option.some.inj (hn.symm.trans hm)
    rw [hv] at hmv
    cases hmv
  · simp only [operandsAt, hn, Option.map_some, Option.getD_some] at hk
    exact h k hk j m hkj hm hmv

theorem alike [Zero α] {nodes' : List (Node α)} (h : InputsFit nodes i points)
    (halike : Alike nodes nodes') : InputsFit nodes' i points := by
  intro j n' hij hn' hv
  obtain ⟨n, hn, hblank⟩ := halike.symm.getElem? hn'
  have hvar : n.isVariable = true := (Node.eq_of_blank Node.blank_isVariable hblank).trans hv
  have hdim : n.dimension = n'.dimension := Node.eq_of_blank Node.blank_dimension hblank
  exact hdim ▸ h j n (hij.congr fun i => (halike.operandsAt_eq i).symm) hn hvar

end InputsFit

/-- Operand values have the sizes that the signatures give if each has its node's dimension. -/
theorem haveSizes_of_lengths {operands : List Nat} {σs : List (Signature α)}
    {values : Nat → OperandValues α}
    (hσs : List.Forall₂ (fun k σ => signatureAt nodes k = some σ) operands σs)
    (hlen : ∀ k ∈ operands, ∀ m, nodes[k]? = some m → (values k).Has m.dimension) :
    HaveSizes (operands.map values) σs := by
  rw [HaveSizes, List.forall₂_map_left_iff]
  refine ((List.forall₂_and_left (p := (· ∈ operands)) _ _).2 ⟨fun _ hk => hk, hσs⟩).imp ?_
  rintro k σ ⟨hk, hσ⟩
  obtain ⟨m, hm, rfl⟩ := Option.map_eq_some_iff.1 hσ
  exact hlen k hk m hm

theorem OperandValues.Has.set {v : OperandValues α} {d : Nat} (hv : v.Has d) (r : Route)
    {w : List α} (hw : w.length = d) : OperandValues.Has (v.set r w) d := by
  cases r
  · exact ⟨hw, hv.2⟩
  · exact ⟨hv.1, hw⟩

theorem mem_passes {f : Application α} {pass : Pass} :
    pass ∈ f.passes ↔
      f.operands[pass.operand]? = some pass.position ∧ pass.route ∈ f.plan.routes pass.operand := by
  obtain ⟨operand, position, route⟩ := pass
  simp only [Application.passes, List.mem_flatMap, List.mem_map, Prod.exists, Pass.mk.injEq,
    List.mk_mem_zipIdx_iff_getElem?]
  constructor
  · rintro ⟨_, _, hk, _, hr, rfl, rfl, rfl⟩; exact ⟨hk, hr⟩
  · rintro ⟨hk, hr⟩; exact ⟨_, _, hk, _, hr, rfl, rfl, rfl⟩

variable [Scalar α] {s : Settings}

/-- **What a node denotes has the node's dimension**, if the points fit. -/
theorem length_denote (hok : NodesOK s nodes) (i : Nat) :
    ∀ n points, nodes[i]? = some n → InputsFit nodes i points →
      (denote nodes i points).length = n.dimension := by
  induction i using Nat.strong_induction_on with
  | _ i ih =>
    intro n points hn hin
    have hops := hok.before hn
    cases hkind : n.kind with
    | parameter => rw [denote_eq hn hops, Node.denotes, hkind]; rfl
    | matrixParameter m => rw [denote_eq hn hops, Node.denotes, hkind]; rfl
    | «variable» bounds =>
      rw [denote_eq hn hops, Node.denotes, hkind]
      exact (hin i n (.refl i) hn (by rw [Node.isVariable, hkind])).1
    | function f =>
      obtain ⟨hlt, σs, hσs, hfits, -⟩ := hok.application hn hkind
      have hsizes : HaveSizes (f.operands.map (denoteBoth nodes points)) σs := by
        refine haveSizes_of_lengths hσs fun k hk m hm => ?_
        have hkin := hin.operand (mem_operandsAt hn hkind hk)
        exact ⟨ih k (hlt k hk) m points hm hkin, ih k (hlt k hk) m points.flip hm hkin.flip⟩
      obtain ⟨w, hw, hlen⟩ := Op.combine_total hfits hsizes
      rw [denote_function hn hkind hlt, hw, Option.getD_some, hlen]

theorem has_denoteBoth (hok : NodesOK s nodes) {i : Nat} {n : Node α} {points : Points α}
    (hn : nodes[i]? = some n) (hin : InputsFit nodes i points) :
    (denoteBoth nodes points i).Has n.dimension :=
  ⟨length_denote hok i n points hn hin, length_denote hok i n points.flip hn hin.flip⟩

/-- The operands of an application denote values of the sizes that their signatures give. -/
theorem haveSizes_denoteBoth (hok : NodesOK s nodes) {i : Nat} {n : Node α} {f : Application α}
    (hn : nodes[i]? = some n) (hf : n.kind = .function f) {points : Points α}
    (hin : InputsFit nodes i points) {σs : List (Signature α)}
    (hσs : List.Forall₂ (fun k σ => signatureAt nodes k = some σ) f.operands σs) :
    HaveSizes (f.operands.map (denoteBoth nodes points)) σs :=
  haveSizes_of_lengths hσs fun _ hk _ hm =>
    has_denoteBoth hok hm (hin.operand (mem_operandsAt hn hf hk))

/-! ## Passes -/

/-- The scratch holds what the passes read: **the pure values** of their operands. -/
def Filled (nodes : List (Node α)) (points : Points α) (scratch : List (OperandValues α))
    (passes : List Pass) : Prop :=
  ∀ pass ∈ passes, ∃ v, scratch[pass.operand]? = some v ∧
    v.get pass.route = denote nodes pass.position (points.along pass.route)

/-- The evaluation of position `i` **ended, changed caches only, and left the pure value** there. -/
def LeavesPureValue (nodes : List (Node α)) (i : Nat) (points : Points α)
    (result : Option (List (Node α))) : Prop :=
  ∃ nodes', result = some nodes' ∧ Alike nodes nodes' ∧
    ∃ n, nodes'[i]? = some n ∧ n.value = denote nodes i points

/-- Evaluation at smaller positions leaves pure values, in whatever state the caches are. -/
def EvaluatesBelow (nodes : List (Node α)) (below : Nat → Evaluation α) (i : Nat) : Prop :=
  ∀ k < i, ∀ nodes' points, Alike nodes nodes' → k < nodes.length → InputsFit nodes k points →
    LeavesPureValue nodes k points (below k points nodes')

/-- A constant matrix denotes no components. -/
theorem denote_matrix (hok : NodesOK s nodes) {i : Nat} {n : Node α} (hn : nodes[i]? = some n)
    (hm : n.isMatrix = true) (points : Points α) : denote nodes i points = [] := by
  obtain ⟨m, hm⟩ := Option.isSome_iff_exists.1 hm
  cases hkind : n.kind with
  | matrixParameter m' =>
    rw [denote_eq hn (hok.before hn), Node.denotes, hkind]
    exact List.length_eq_zero_iff.1 (hok.dimension_matrix hn hkind)
  | _ => simp [Node.matrix?, hkind, Kind.matrix?] at hm

section Passes

variable {below : Nat → Evaluation α} {i : Nat} {f : Application α} {σs : List (Signature α)}
  {points : Points α}

variable (hok : NodesOK s nodes) (hlt : ∀ k ∈ f.operands, k < i)
  (hσs : List.Forall₂ (fun k σ => signatureAt nodes k = some σ) f.operands σs)
  (hbelow : EvaluatesBelow nodes below i) (hin : ∀ k ∈ f.operands, InputsFit nodes k points)

include hok hlt hσs hbelow hin

/-- **One pass** changes caches only and fills its slot; slots filled before stay filled, for a slot
is only ever filled from one position. -/
theorem runPass_spec {nodes' : List (Node α)} {scratch : List (OperandValues α)} {done : List Pass}
    {pass : Pass} (halike : Alike nodes nodes') (hsizes : HaveSizes scratch σs)
    (hfilled : Filled nodes points scratch done) (hdone : ∀ q ∈ done, q ∈ f.passes)
    (hpass : pass ∈ f.passes) :
    ∃ nodes'' scratch', runPass below points (nodes', scratch) pass = some (nodes'', scratch') ∧
      Alike nodes nodes'' ∧ HaveSizes scratch' σs ∧
      Filled nodes points scratch' (pass :: done) := by
  obtain ⟨hpos, -⟩ := mem_passes.1 hpass
  have hmem : pass.position ∈ f.operands := List.mem_of_getElem? hpos
  obtain ⟨σ, hσ, hsig⟩ := forall₂_getElem? hσs hpos
  obtain ⟨m, hm, rfl⟩ := Option.map_eq_some_iff.1 hsig
  obtain ⟨v, hv, hhas⟩ := forall₂_getElem?_right hsizes hσ
  obtain ⟨m', hm', hblank⟩ := halike.getElem? hm
  have hmatrix : m'.isMatrix = m.isMatrix :=
    congrArg Option.isSome (Node.eq_of_blank Node.blank_matrix? hblank)
  by_cases hmat : m.isMatrix = true
  · -- nothing is evaluated, and nothing was to be
    refine ⟨nodes', scratch, ?_, halike, hsizes, ?_⟩
    · simp [runPass, hm', hmatrix, hmat]
    · intro q hq
      rcases List.mem_cons.1 hq with rfl | hq
      · refine ⟨v, hv, ?_⟩
        have hzero : m.dimension = 0 := by
          rw [← length_denote hok _ m points hm (hin _ hmem), denote_matrix hok hm hmat,
            List.length_nil]
        rw [denote_matrix hok hm hmat]
        exact List.length_eq_zero_iff.1 ((hhas.length_get q.route).trans hzero)
      · exact hfilled q hq
  -- the operand is evaluated, whatever its cache held, and its value is stored at once
  · obtain ⟨nodes'', hrun, halike', n, hn, hvalue⟩ := hbelow pass.position (hlt _ hmem) nodes'
      (points.along pass.route) halike (List.getElem?_eq_some_iff.1 hm).1 ((hin _ hmem).along _)
    have hlen : n.value.length = m.dimension := by
      rw [hvalue]; exact length_denote hok _ m _ hm ((hin _ hmem).along _)
    refine ⟨nodes'', scratch.set pass.operand (v.set pass.route n.value), ?_, halike', ?_, ?_⟩
    · have hstore : store scratch pass.operand pass.route n.value =
          some (scratch.set pass.operand (v.set pass.route n.value)) := by
        simp [store, hv, hhas.length_get, hlen, Node.signature]
      simp [runPass, hm', hmatrix, hmat, hrun, hn, hstore]
    · refine forall₂_set hsizes fun c hc => ?_
      obtain rfl := Option.some.inj (hσ.symm.trans hc)
      exact hhas.set pass.route hlen
    · intro q hq
      have hj : pass.operand < scratch.length := (List.getElem?_eq_some_iff.1 hv).1
      by_cases hslot : q.operand = pass.operand
      -- the slot just filled: along this route it is new, along the other one it is as it was
      · refine ⟨v.set pass.route n.value, by rw [hslot, List.getElem?_set_self hj], ?_⟩
        have hqpass : q ∈ f.passes := by
          rcases List.mem_cons.1 hq with rfl | hq
          · exact hpass
          · exact hdone q hq
        -- the operand's number decides its position
        have hqpos : q.position = pass.position := by
          have hqpos := (mem_passes.1 hqpass).1
          rw [hslot, hpos] at hqpos
          exact (Option.some.inj hqpos).symm
        by_cases hroute : pass.route = q.route
        · rw [← hroute, Dual.get_set_self, hqpos, hvalue]
        · rw [Dual.get_set_of_ne _ _ hroute]
          rcases List.mem_cons.1 hq with rfl | hq
          · exact absurd rfl hroute
          · obtain ⟨w, hw, hget⟩ := hfilled q hq
            rw [hslot, hv] at hw
            exact Option.some.inj hw ▸ hget
      -- any other slot is as it was
      · rcases List.mem_cons.1 hq with rfl | hq
        · exact absurd rfl hslot
        · obtain ⟨w, hw, hget⟩ := hfilled q hq
          exact ⟨w, by rw [List.getElem?_set_ne (Ne.symm hslot), hw], hget⟩

/-- **All passes** fill every slot that the plan asks for. -/
theorem runPasses_spec {passes : List Pass} :
    ∀ {nodes' : List (Node α)} {scratch : List (OperandValues α)} {done : List Pass},
      Alike nodes nodes' → HaveSizes scratch σs → Filled nodes points scratch done →
      (∀ q ∈ done, q ∈ f.passes) → (∀ q ∈ passes, q ∈ f.passes) →
      ∃ nodes'' scratch', passes.foldlM (runPass below points) (nodes', scratch) =
        some (nodes'', scratch') ∧
        Alike nodes nodes'' ∧ HaveSizes scratch' σs ∧ Filled nodes points scratch' passes ∧
        Filled nodes points scratch' done := by
  induction passes with
  | nil =>
    intro nodes' scratch done halike hsizes hfilled _ _
    exact ⟨nodes', scratch, rfl, halike, hsizes, by simp [Filled], hfilled⟩
  | cons pass passes ih =>
    intro nodes' scratch done halike hsizes hfilled hdone hpasses
    obtain ⟨nodes₁, scratch₁, hrun, halike₁, hsizes₁, hfilled₁⟩ :=
      runPass_spec hok hlt hσs hbelow hin halike hsizes hfilled hdone (hpasses _ List.mem_cons_self)
    have hdone₁ : ∀ q ∈ pass :: done, q ∈ f.passes := by
      intro q hq
      rcases List.mem_cons.1 hq with rfl | hq
      · exact hpasses _ List.mem_cons_self
      · exact hdone q hq
    obtain ⟨nodes₂, scratch₂, hrest, halike₂, hsizes₂, hpasses₂, hdone₂⟩ :=
      ih halike₁ hsizes₁ hfilled₁ hdone₁ fun q hq => hpasses q (List.mem_cons_of_mem _ hq)
    refine ⟨nodes₂, scratch₂, ?_, halike₂, hsizes₂, ?_,
      fun q hq => hdone₂ q (List.mem_cons_of_mem _ hq)⟩
    · rw [List.foldlM_cons, hrun]; exact hrest
    · intro q hq
      rcases List.mem_cons.1 hq with rfl | hq
      · exact hdone₂ q List.mem_cons_self
      · exact hpasses₂ q hq

end Passes

/-! ## The recursion -/

theorem blank_function {n : Node α} {f : Application α} (hf : n.kind = .function f)
    {scratch : List (OperandValues α)} {σs : List (Signature α)} (hold : HaveSizes f.scratch σs)
    (hnew : HaveSizes scratch σs) {value : List α} (hvalue : value.length = n.dimension) :
    Node.blank { n with kind := .function { f with scratch }, value } = n.blank := by
  have hscratch : scratch.map OperandValues.blank = f.scratch.map OperandValues.blank := by
    refine List.ext_getElem? fun j => ?_
    rw [List.getElem?_map, List.getElem?_map]
    cases hσ : σs[j]? with
    | none =>
      have hj := List.getElem?_eq_none_iff.1 hσ
      rw [List.getElem?_eq_none (hnew.length_eq ▸ hj), List.getElem?_eq_none (hold.length_eq ▸ hj)]
    | some σ =>
      obtain ⟨v, hv, hvh⟩ := forall₂_getElem?_right hnew hσ
      obtain ⟨w, hw, hwh⟩ := forall₂_getElem?_right hold hσ
      rw [hv, hw, Option.map_some, Option.map_some, OperandValues.blank, OperandValues.blank,
        zeros_eq_zeros (hvh.1.trans hwh.1.symm), zeros_eq_zeros (hvh.2.trans hwh.2.symm)]
  simp only [Node.blank, hf, Kind.blank, Application.blank, hscratch, zeros_eq_zeros hvalue]

/-- **One node.** The passes fill the scratch, and combining reads no more than that. -/
theorem evaluateNode_spec (hok : NodesOK s nodes) {below : Nat → Evaluation α} {i : Nat}
    (hbelow : EvaluatesBelow nodes below i) {points : Points α} {n : Node α}
    (hn : nodes[i]? = some n) (hin : InputsFit nodes i points) :
    LeavesPureValue nodes i points (evaluateNode below i points nodes) := by
  have hi : i < nodes.length := (List.getElem?_eq_some_iff.1 hn).1
  have hops := hok.before hn
  cases hkind : n.kind with
  | parameter | matrixParameter m =>
    refine ⟨nodes, by simp [evaluateNode, hn, hkind], .refl nodes, n, hn, ?_⟩
    rw [denote_eq hn hops, Node.denotes, hkind]
  | «variable» bounds =>
    have hlen : n.value.length = points.own.length :=
      (hin i n (.refl i) hn (by rw [Node.isVariable, hkind])).1.symm
    refine ⟨nodes.set i { n with value := points.own }, by simp [evaluateNode, hn, hkind, hlen], ?_,
      { n with value := points.own }, List.getElem?_set_self hi, ?_⟩
    · refine alike_set hn ?_
      simp only [Node.blank, hkind, zeros_eq_zeros hlen]
    · rw [denote_eq hn hops, Node.denotes, hkind]
  | function f =>
    obtain ⟨hlt, σs, hσs, hfits, hscratch⟩ := hok.application hn hkind
    have hins : ∀ k ∈ f.operands, InputsFit nodes k points := fun k hk =>
      hin.operand (mem_operandsAt hn hkind hk)
    -- nothing is asked of the scratch that earlier evaluations left
    have hempty : Filled nodes points f.scratch [] := by simp [Filled]
    obtain ⟨nodes', scratch, hrun, halike, hsizes, hfilled, -⟩ :=
      runPasses_spec hok hlt hσs hbelow hins (.refl nodes) hscratch hempty (by simp) fun q hq => hq
    have hpure := haveSizes_denoteBoth hok hn hkind hin hσs
    -- along the planned routes the scratch now holds the pure values
    have hagree : AgreeOn f.plan scratch (f.operands.map (denoteBoth nodes points)) := by
      intro j v w hv hw r hr
      obtain ⟨k, hk, rfl⟩ := Option.map_eq_some_iff.1 (List.getElem?_map .. ▸ hw)
      obtain ⟨v', hv', hget⟩ := hfilled ⟨j, k, r⟩ (mem_passes.2 ⟨hk, hr⟩)
      obtain rfl := Option.some.inj (hv.symm.trans hv')
      rw [hget, denoteBoth_get]
    obtain ⟨value, hvalue, hlen⟩ := Op.combine_total hfits hpure
    have hcombine := (Op.combine_congr hfits hsizes hpure hagree).trans hvalue
    obtain ⟨n', hn', hblank⟩ := halike.getElem? hn
    have hi' : i < nodes'.length := halike.length_eq ▸ hi
    refine ⟨nodes'.set i { n with kind := .function { f with scratch }, value },
      by simp [evaluateNode, hn, hkind, hrun, hcombine],
      halike.trans (alike_set hn' ((blank_function hkind hscratch hsizes hlen).trans hblank.symm)),
      _, List.getElem?_set_self hi', ?_⟩
    rw [denote_function hn hkind hlt, hvalue, Option.getD_some]

/-- **Evaluation ends, changes caches only, and leaves the pure value.** -/
theorem evaluateAt_spec (i : Nat) :
    ∀ {nodes : List (Node α)} {points : Points α}, NodesOK s nodes → i < nodes.length →
      InputsFit nodes i points → LeavesPureValue nodes i points (evaluateAt i points nodes) := by
  induction i using Nat.strong_induction_on with
  | _ i ih =>
    intro nodes points hok hi hin
    rw [evaluateAt_eq]
    -- the induction hypothesis is for all states of the caches: passes before this one
    -- have changed them
    refine evaluateNode_spec hok ?_ (List.getElem?_eq_getElem hi) hin
    intro k hk nodes₁ points₁ halike₁ hkl hkin
    rw [evaluateBelow_of_lt hk]
    obtain ⟨nodes₂, hrun, halike₂, hvalue⟩ :=
      ih k hk (hok.alike halike₁) (halike₁.length_eq ▸ hkl) (hkin.alike halike₁)
    exact ⟨nodes₂, hrun, halike₁.trans halike₂, denote_alike halike₁ ▸ hvalue⟩

end MixedMonotone
