import Mathlib
import MixedMonotone.Proofs.Bounds
import MixedMonotone.Proofs.Histories

/-!
# Tags tell the truth

* `Settings.truthful`: the settings under which every tag follows the signs of the values.
* `GraphOK.truthful`: a graph is built as under truthful settings wherever no report says otherwise:
  **the reports are complete**.
* `RespectsSigns`: the points have the signs that the variables below a node declare.
* `denote_holds`: **every value has the sign that the node's tag says**, in whatever
  order the points are.
-/

namespace MixedMonotone

/-- The settings with the two rules that follow the signs of all values. -/
def Settings.truthful (s : Settings) : Settings :=
  { s with parameterSign := .reduced, dotSign := .nonpositive }

/-! ## Reports are complete -/

section Reports

variable {α : Type} [Scalar α] {s : Settings} {log : List Event}

/-- No report says that the tagging rules disagree on a constant, or there is no need for one. -/
def SignsReported (s : Settings) (log : List Event) : Prop :=
  s.parameterSign = .reduced ∨ ∀ e ∈ log, e.message ≠ "parameter sign rules disagree"

/-- No report says that an inner product of mixed signs was tagged nonnegative, or there
is no need for one. -/
def DotsReported (s : Settings) (log : List Event) : Prop :=
  s.dotSign = .nonpositive ∨ ∀ e ∈ log, e.message ≠ "dot product of mixed signs tagged NN"

theorem ofValues_truthful (h : SignsReported s log) {values : List α}
    (hdue : s.signReports values ⊆ log) :
    Tag.ofValues values s.parameterSign = Tag.ofValues values s.truthful.parameterSign := by
  unfold Settings.signReports at hdue
  cases hrule : s.parameterSign with
  | reduced => rfl
  | lastComponent =>
    rcases h with h | h
    · rw [hrule] at h; cases h
    · by_contra hne
      dsimp only at hdue
      rw [if_neg (fun heq => hne heq.symm)] at hdue
      exact h _ (hdue List.mem_cons_self) rfl

theorem dotTag_truthful (h : DotsReported s log) {l r : Tag} (hdue : s.dotReports l r ⊆ log) :
    s.dotTag l r = s.truthful.dotTag l r := by
  unfold Settings.dotTag Settings.truthful
  unfold Settings.dotReports at hdue
  split
  · rename_i hmixed
    rw [if_pos hmixed] at hdue
    rcases h with h | h
    · rw [hmixed.2] at h; cases h
    · exact absurd rfl (h _ (hdue List.mem_cons_self))
  · simp

/-- A node whose reports are all in the log is as it were under truthful settings. -/
theorem NodeOK.truthful {nodes : List (Node α)} {i : Nat} {n : Node α} (hn : NodeOK s nodes i n)
    (hsigns : SignsReported s log) (hdots : DotsReported s log)
    (hdue : n.dueReports s nodes ⊆ log) : NodeOK s.truthful nodes i n := by
  unfold NodeOK at hn ⊢
  unfold Node.dueReports at hdue
  cases hkind : n.kind with
  | parameter | matrixParameter m =>
    rw [hkind] at hn hdue
    exact ⟨hn.1, hn.2.trans (ofValues_truthful hsigns hdue)⟩
  | «variable» bounds =>
    rw [hkind] at hn
    exact hn
  | function f =>
    rw [hkind] at hn hdue
    obtain ⟨hdim, hlt, σs, hσs, hfits, hsizes⟩ := hn
    refine ⟨hdim, hlt, σs, hσs, ?_, hsizes⟩
    -- the reports read the operands where they stand, the tables read their signatures
    have hmap : f.operands.map (signatureAt nodes) = σs.map some :=
      map_eq_of_forall₂ hσs fun _ _ hσ => hσ
    generalize n.dimension = d, n.tag = t at hfits
    obtain ⟨op, plan, operands, scratch⟩ := f
    dsimp only at hfits hmap hdue ⊢
    -- an inner product is the only function whose tag the settings decide
    cases hfits with
    | dot hl hr hd =>
      rw [hmap] at hdue
      rw [dotTag_truthful hdots hdue]
      exact .dot hl hr hd
    | arith hl hr hd => exact .arith hl hr hd
    | matvec hl hr hd => exact .matvec hl hr hd
    | log2 ho => exact .log2 ho
    | ln ho => exact .ln ho
    | neg ho => exact .neg ho
    | reciprocal ho => exact .reciprocal ho
    | sum ho => exact .sum ho
    | prod ho => exact .prod ho
    | list hne hos => exact .list hne hos
    | slice ho hpos hle => exact .slice ho hpos hle

/-- **The reports are complete**: where none says otherwise, the graph is as it were under truthful
settings. -/
theorem GraphOK.truthful {nextId : Nat} {g : Graph α} (h : GraphOK nextId log g)
    (hsigns : SignsReported g.settings log) (hdots : DotsReported g.settings log) :
    ArenaOK g.settings.truthful g.arena :=
  ⟨fun i n hn => (h.nodes i n hn).truthful hsigns hdots (h.reported n (List.mem_of_getElem? hn)),
    h.arena.ids, h.arena.table⟩

end Reports

/-! ## Values have the signs of their tags -/

variable {K : Type} [Field K] [LinearOrder K]

/-- The points have **the signs that the variables below a position declare**. -/
def RespectsSigns (nodes : List (Node K)) (i : Nat) (points : Points K) : Prop :=
  ∀ j n, Reaches nodes i j → nodes[j]? = some n → n.isVariable = true →
    (∀ a ∈ points.own, n.tag.Holds a) ∧ ∀ a ∈ points.swapped, n.tag.Holds a

namespace RespectsSigns

variable {nodes : List (Node K)} {i : Nat} {points : Points K}

theorem flip (h : RespectsSigns nodes i points) : RespectsSigns nodes i points.flip :=
  fun j n hij hn hv => (h j n hij hn hv).symm

theorem reaches (h : RespectsSigns nodes i points) {k : Nat} (hik : Reaches nodes i k) :
    RespectsSigns nodes k points := fun j n hkj => h j n (hik.trans hkj)

theorem operand (h : RespectsSigns nodes i points) {k : Nat} (hk : k ∈ operandsAt nodes i) :
    RespectsSigns nodes k points := h.reaches (.head hk (.refl k))

/-- It is enough that the points have the signs that all variables declare. -/
theorem of_all (h : ∀ n ∈ nodes, n.isVariable = true →
    (∀ a ∈ points.own, n.tag.Holds a) ∧ ∀ a ∈ points.swapped, n.tag.Holds a) :
    RespectsSigns nodes i points := fun _ n _ hn => h n (List.mem_of_getElem? hn)

end RespectsSigns

variable [Logarithms K]

/-- A constant has the sign that all its components have. -/
theorem Tag.holds_ofValues {values : List K} :
    ∀ a ∈ values, (Tag.ofValues values .reduced).Holds a := by
  intro a ha
  unfold Tag.ofValues Tag.ofBounds
  dsimp only
  split
  · rename_i hall
    exact Scalar.exact_le.mp (List.all_eq_true.1 hall a ha)
  · split
    · rename_i hall
      exact Scalar.exact_le.mp (List.all_eq_true.1 hall a ha)
    · trivial

variable {s : Settings} {nodes : List (Node K)}

section Values

variable (hsign : s.parameterSign = .reduced) (hdot : s.dotSign = .nonpositive)
    (hok : NodesOK s nodes)

include hsign hok

/-- The entries of a constant matrix have the sign that its tag says. -/
theorem matrix_holds {i : Nat} {n : Node K} (hn : nodes[i]? = some n) {m : Matrix K}
    (hm : n.matrix? = some m) : ∀ a ∈ m.values, n.tag.Holds a := by
  have hnode := hok i n hn
  unfold NodeOK at hnode
  unfold Node.matrix? at hm
  cases hkind : n.kind with
  | matrixParameter m' =>
    rw [hkind] at hnode hm
    obtain rfl : m' = m := Option.some.inj hm
    rw [hnode.2, hsign]
    exact Tag.holds_ofValues
  | _ => simp [hkind, Kind.matrix?] at hm

/-- Operands whose values have the signs of their tags. -/
theorem haveSigns_of_values {operands : List Nat} {σs : List (Signature K)} {points : Points K}
    (hσs : List.Forall₂ (fun k σ => signatureAt nodes k = some σ) operands σs)
    (hvalues : ∀ k ∈ operands, ∀ m, nodes[k]? = some m →
      (∀ a ∈ denote nodes k points, m.tag.Holds a) ∧
        ∀ a ∈ denote nodes k points.flip, m.tag.Holds a) :
    HaveSigns (operands.map (denoteBoth nodes points)) σs := by
  rw [HaveSigns, List.forall₂_map_left_iff]
  refine ((List.forall₂_and_left (p := (· ∈ operands)) _ _).2 ⟨fun _ hk => hk, hσs⟩).imp ?_
  rintro k σ ⟨hk, hσ⟩
  obtain ⟨m, hm, rfl⟩ := Option.map_eq_some_iff.1 hσ
  obtain ⟨hown, hswapped⟩ := hvalues k hk m hm
  exact ⟨hown, hswapped, fun matrix hmatrix => matrix_holds hsign hok hm hmatrix⟩

variable [IsStrictOrderedRing K]

include hdot

/-- **Every value has the sign that the node's tag says**, in whatever order the points are. -/
theorem denote_holds (i : Nat) :
    ∀ n points, nodes[i]? = some n → InputsFit nodes i points → RespectsSigns nodes i points →
      ∀ a ∈ denote nodes i points, n.tag.Holds a := by
  induction i using Nat.strong_induction_on with
  | _ i ih =>
    intro n points hn hin hsigns
    have hops := hok.before hn
    have hnode := hok i n hn
    unfold NodeOK at hnode
    cases hkind : n.kind with
    | parameter =>
      rw [hkind] at hnode
      rw [denote_eq hn hops, Node.denotes, hkind, hnode.2, hsign]
      exact Tag.holds_ofValues
    | matrixParameter m =>
      rw [denote_matrix hok hn (by simp [Node.isMatrix, Node.matrix?, hkind, Kind.matrix?])]
      exact fun a ha => absurd ha List.not_mem_nil
    | «variable» bounds =>
      rw [denote_eq hn hops, Node.denotes, hkind]
      exact (hsigns i n (.refl i) hn (by rw [Node.isVariable, hkind])).1
    | function f =>
      obtain ⟨hlt, σs, hσs, hfits, -⟩ := hok.application hn hkind
      have hmem : ∀ k ∈ f.operands, k ∈ operandsAt nodes i := fun k => mem_operandsAt hn hkind
      have hsizes := haveSizes_denoteBoth hok hn hkind hin hσs
      have hvalues : HaveSigns (f.operands.map (denoteBoth nodes points)) σs := by
        refine haveSigns_of_values hsign hok hσs fun k hk m hm => ?_
        have hkin := hin.operand (hmem k hk)
        have hksigns := hsigns.operand (hmem k hk)
        exact ⟨ih k (hlt k hk) m points hm hkin hksigns,
          ih k (hlt k hk) m points.flip hm hkin.flip hksigns.flip⟩
      rw [denote_function hn hkind hlt, Op.combine_eq_bound hfits hsizes hvalues, Option.getD_some]
      exact Op.bound_holds hdot hfits hsizes hvalues

/-- The operands of a node have the signs of their tags. -/
theorem haveSigns_denoteBoth {i : Nat} {n : Node K} {f : Application K} (hn : nodes[i]? = some n)
    (hf : n.kind = .function f) {points : Points K} (hin : InputsFit nodes i points)
    (hsigns : RespectsSigns nodes i points) {σs : List (Signature K)}
    (hσs : List.Forall₂ (fun k σ => signatureAt nodes k = some σ) f.operands σs) :
    HaveSigns (f.operands.map (denoteBoth nodes points)) σs := by
  refine haveSigns_of_values hsign hok hσs fun k hk m hm => ?_
  have hmem := mem_operandsAt hn hf hk
  exact ⟨denote_holds hsign hdot hok k m points hm (hin.operand hmem) (hsigns.operand hmem),
    denote_holds hsign hdot hok k m points.flip hm (hin.operand hmem).flip
    (hsigns.operand hmem).flip⟩

/-- **What a function node denotes is the bound of its operator.** -/
theorem denote_eq_bound {i : Nat} {n : Node K} {f : Application K} (hn : nodes[i]? = some n)
    (hf : n.kind = .function f) {points : Points K} (hin : InputsFit nodes i points)
    (hsigns : RespectsSigns nodes i points) {σs : List (Signature K)}
    (hσs : List.Forall₂ (fun k σ => signatureAt nodes k = some σ) f.operands σs)
    (hfits : f.op.Fits s f.plan σs n.dimension n.tag) :
    denote nodes i points =
      f.op.bound (firstMatrix? σs) (f.operands.map (denoteBoth nodes points)) n.dimension := by
  rw [denote_function hn hf (hok.application hn hf).before,
    Op.combine_eq_bound hfits (haveSizes_denoteBoth hok hn hf hin hσs)
      (haveSigns_denoteBoth hsign hdot hok hn hf hin hsigns hσs), Option.getD_some]

end Values

/-! ## Reachable graphs -/

/-- **Tags are sound and the reports are complete.** Under every configuration, if no report says
otherwise, an accepted evaluation is answered with values of the sign that the node's tag says, as
long as the points have the signs that the variables below it declare. The points need not be in
order, and a quotient by zero, which is zero here, does no harm. -/
theorem answer_has_sign_of_tag [IsStrictOrderedRing K] (commands : List (Command K NodeId))
    {g : Nat} {G : Graph K} (hG : (Session.runAll commands {}).graph? g = some G)
    (hsign : G.settings.parameterSign = .reduced ∨
      ∀ e ∈ (Session.runAll commands {}).log, e.message ≠ "parameter sign rules disagree")
    (hdot : G.settings.dotSign = .nonpositive ∨
      ∀ e ∈ (Session.runAll commands {}).log, e.message ≠ "dot product of mixed signs tagged NN")
    {id : NodeId} {x y : List K} {i : Nat} (h : G.evaluable id x y = .ok i)
    (hpoints : RespectsSigns G.nodes i ⟨x, y⟩) :
    ∃ n v, G.nodes[i]? = some n ∧ (Graph.evaluate id x y).answer G = .ok v ∧
      (n.tag = .nonneg → ∀ a ∈ v, 0 ≤ a) ∧ (n.tag = .nonpos → ∀ a ∈ v, a ≤ 0) := by
  have hok := graphOK_runAll hG
  have htrue := hok.truthful hsign hdot
  obtain ⟨hpos, hin, -⟩ := (Graph.evaluable_eq_ok hok.arena).1 h
  obtain ⟨n, hn, -⟩ := (hok.arena.table id i).1 hpos
  obtain ⟨G', hrun, -⟩ := Graph.evaluate_spec hok.arena h
  have hholds := denote_holds rfl rfl htrue.nodes i n ⟨x, y⟩ hn hin hpoints
  refine ⟨n, _, hn, Action.answer_eq_ok.2 ⟨G', hrun⟩, ?_, ?_⟩
  · intro htag
    rwa [htag] at hholds
  · intro htag
    rwa [htag] at hholds

/-- A nonnegative variable times a negative constant, both under the rules that need a report
if they go wrong. -/
def signCommands : List (Command ℚ NodeId) :=
  [.newGraph { parameterSign := .lastComponent }, .graph 0 (.build (.taggedVariable 2 .nonneg)),
    .graph 0 (.build (.parameter [-3, -1])), .graph 0 (.build (.mul ⟨1⟩ ⟨2⟩))]

/-- The product of the two is nowhere positive, also at points that are out of order. -/
theorem answer_has_sign_of_tag_mul : ∃ G, (Session.runAll signCommands {}).graph? 0 = some G ∧
    ∃ v, (Graph.evaluate ⟨3⟩ [5, 0] [2, 4]).answer G = .ok v ∧ ∀ a ∈ v, a ≤ 0 := by
  let G := ((Session.runAll signCommands {}).graph? 0).getD {}
  have hG : (Session.runAll signCommands {}).graph? 0 = some G := by decide +kernel
  have haccept : G.evaluable ⟨3⟩ [5, 0] [2, 4] = .ok 2 :=
    evaluable_of_all hG (by decide +kernel) (by decide +kernel) rfl
  obtain ⟨n, v, hn, hv, -, hnonpos⟩ := answer_has_sign_of_tag signCommands hG
    (.inr (by decide +kernel)) (.inr (by decide +kernel)) haccept (.of_all (by decide +kernel))
  have htag : (G.nodes[2]?.map Node.tag) = some .nonpos := by decide +kernel
  rw [hn] at htag
  exact ⟨G, hG, v, hv, hnonpos (Option.some.inj htag)⟩

end MixedMonotone
