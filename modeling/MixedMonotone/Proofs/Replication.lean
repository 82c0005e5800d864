import Mathlib
import MixedMonotone.Proofs.Leading

/-!
# A number stands for all components

An elementwise operator reads its operands component by component, and a number at every component
alike. A vector packed from copies of the number goes another way: it is a node of its own, with a
tag and a route for each copy.

* `View.ReadsAlike`: an elementwise operator cannot tell the two operands apart.
* `readsAlike_list`: a number and its copies; `View.ReadsAlike.neg`: so it is with their negations.
* `View.ReadsAlike.arith`: what is computed from such operands is the same.
* `broadcast_eq_copies`: **a number may be replaced by its copies**, on either side of the four
  operators.
-/

namespace MixedMonotone

variable {α : Type}

/-! ## Components -/

theorem Tag.list_replicate (t : Tag) {n : Nat} (hn : 0 < n) :
    Tag.list (List.replicate n t) = t := by
  unfold Tag.list
  cases t <;> simp [List.all_replicate, hn.ne']

namespace OperandValues

theorem component?_single (a b : α) (i : Nat) : component? ⟨[a], [b]⟩ i = some ⟨a, b⟩ := rfl

theorem component?_replicate {n i : Nat} (hi : i < n) (a b : α) :
    component? ⟨List.replicate n a, List.replicate n b⟩ i = some ⟨a, b⟩ := by
  have hindex : (if n = 1 then 0 else i) < n := by split <;> omega
  simp [component?, hindex]

/-- What is done to every value is done to every component. -/
theorem component?_map (f : α → α) (v : OperandValues α) (i : Nat) :
    component? ⟨v.own.map f, v.swapped.map f⟩ i = (v.component? i).map fun d =>
      ⟨f d.own, f d.swapped⟩ := by
  unfold component?
  simp only [List.length_map, List.getElem?_map]
  cases v.own[if v.own.length = 1 then 0 else i]? <;>
    cases v.swapped[if v.own.length = 1 then 0 else i]? <;> rfl

end OperandValues

/-! ## Operands that are read alike -/

/-- **An elementwise operator with `n` components cannot tell the two operands apart.** -/
structure View.ReadsAlike (n : Nat) (V W : View α) : Prop where
  tag : V.tag = W.tag
  inputs : V.inputs = W.inputs
  component : ∀ points, V.Fits points → ∀ i < n,
    (V.both points).component? i = (W.both points).component? i

theorem View.ReadsAlike.refl (n : Nat) (V : View α) : V.ReadsAlike n V :=
  ⟨rfl, rfl, fun _ _ _ _ => rfl⟩

variable [Scalar α]

namespace View.ReadsAlike

variable {n : Nat} {V W V' W' : View α} {s : Settings}

/-- Negations are read along the swapped route. -/
theorem neg (h : V.ReadsAlike n W) :
    (View.apply s .neg V.dimension [V]).ReadsAlike n (View.apply s .neg W.dimension [W]) := by
  refine ⟨congrArg Tag.negate h.tag, ?_, fun points hfits i hi => ?_⟩
  · simp only [View.apply, List.mem_singleton, exists_eq_left, h.inputs]
  · have hflip : V.Fits points.flip := (fits_apply.1 hfits V (List.mem_singleton_self V)).flip
    have hV := OperandValues.component?_map (- ·) (V.both points.flip) i
    have hW := OperandValues.component?_map (- ·) (W.both points.flip) i
    rw [← h.component points.flip hflip i hi] at hW
    exact hV.trans hW.symm

/-- **What is computed from operands that are read alike is the same.** -/
theorem arith (op : Arith) (hV : V.ReadsAlike n V') (hW : W.ReadsAlike n W') :
    (View.apply s (.arith op) n [V, W]).Same (View.apply s (.arith op) n [V', W']) := by
  refine ⟨rfl, congrArg₂ op.tag hV.tag hW.tag, rfl, ?_, fun points hfits => ?_⟩
  · simp only [View.apply, List.mem_cons, List.not_mem_nil, or_false, exists_eq_or_imp,
      exists_eq_left, hV.inputs, hW.inputs]
  · have hfit : ∀ U ∈ [V, W], U.Fits points := fits_apply.1 hfits
    have hstrategy : op.strategy V.tag W.tag = op.strategy V'.tag W'.tag := by rw [hV.tag, hW.tag]
    have hzip : Op.zipComponents op (op.strategy V.tag W.tag) (V.both points) (W.both points) n =
        Op.zipComponents op (op.strategy V'.tag W'.tag) (V'.both points) (W'.both points) n := by
      rw [hstrategy]
      refine mapM_congr fun i hi => ?_
      have hi := List.mem_range.1 hi
      rw [hV.component points (hfit V (by simp)) i hi, hW.component points (hfit W (by simp)) i hi]
    exact congrArg (Option.getD · []) hzip

end View.ReadsAlike

/-- **A number and its copies**, packed into a vector, are read alike. -/
theorem readsAlike_list {s : Settings} {n : Nat} (hn : 0 < n) {V : View α}
    (hV : ∀ points, V.Fits points → (V.both points).Has 1) :
    V.ReadsAlike n (View.apply s .list n (List.replicate n V)) := by
  refine ⟨?_, ?_, fun points hfits i hi => ?_⟩
  · have htags : ((List.replicate n V).map View.toSignature).map Signature.tag =
        List.replicate n V.tag := by
      rw [List.map_replicate, List.map_replicate]
    exact ((congrArg Tag.list htags).trans (Tag.list_replicate V.tag hn)).symm
  · ext σ
    simp [View.apply, List.mem_replicate, hn.ne']
  · -- along either route, the list is the one component over and over
    have hlist : ∀ points, V.Fits points → ∀ a, V.value points = [a] →
        (View.apply s .list n (List.replicate n V)).value points = List.replicate n a := by
      intro points hfits a ha
      have hhas : ∀ W ∈ List.replicate n V, (W.both points).Has 1 := fun W hW =>
        List.eq_of_mem_replicate hW ▸ hV points hfits
      rw [View.value_list hhas, List.map_replicate, ha]
      rfl
    obtain ⟨a, b, ha, hb⟩ := View.exists_numbers (hV points hfits)
    rw [View.both, View.both, ha, hb, hlist points hfits a ha, hlist points.flip hfits.flip b hb,
      OperandValues.component?_single, OperandValues.component?_replicate hi]

/-! ## Calls -/

/-- Each of the four operators adds elementwise arithmetic on its left operand and on what it makes
of its right one, which is read alike where that is. -/
theorem leads_elementwise {op : NodeId → NodeId → Build α NodeId}
    (hop : op ∈ [Build.add, Build.sub, Build.mul, Build.div]) (s : Settings) :
    ∃ (arith : Arith) (right : View α → View α),
      (∀ {n V W}, V.ReadsAlike n W → (right V).ReadsAlike n (right W)) ∧
      ∀ {b : Builder α} {x y V W d}, GraphOK b.nextId b.log b.graph → b.graph.settings = s →
        b.graph.Shows x V → b.graph.Shows y W → V.IsVector → W.IsVector →
        Broadcasts V.dimension W.dimension d →
        (op x y).Leads b (View.apply s (.arith arith) d [V, right W]) := by
  simp only [List.mem_cons, List.not_mem_nil, or_false] at hop
  rcases hop with rfl | rfl | rfl | rfl
  · exact ⟨.add, id, fun h => h, fun hb hs hx hy hV hW hd =>
      hs ▸ leads_arith hb hx hy hV hW .add hd⟩
  · exact ⟨.add, fun W => View.apply s .neg W.dimension [W], fun h => h.neg,
      fun hb hs hx hy hV hW hd => hs ▸ leads_sub hb hx hy hV hW hd⟩
  · exact ⟨.mul, id, fun h => h, fun hb hs hx hy hV hW hd =>
      hs ▸ leads_arith hb hx hy hV hW .mul hd⟩
  · exact ⟨.div, id, fun h => h, fun hb hs hx hy hV hW hd =>
      hs ▸ leads_arith hb hx hy hV hW .div hd⟩

variable [DecidableEq α]

/-- **A number may be replaced by its copies.** In every reachable graph, an elementwise operator
applied to a number and a vector adds a node that cannot be told apart from that on as many copies
of the number, packed into a vector: dimension, tag, accepted points and answers are the same.
Likewise with the operands exchanged. -/
theorem broadcast_eq_copies (commands : List (Command α NodeId)) {g : Nat} {b : Builder α}
    (hb : (Session.runAll commands {}).builder? g = some b) {number vector : NodeId} {n : Nat}
    (hnumber : b.graph.HasVector number 1) (hvector : b.graph.HasVector vector n)
    {op : NodeId → NodeId → Build α NodeId}
    (hop : op ∈ [Build.add, Build.sub, Build.mul, Build.div]) : ∃ left left' right right' b',
      (do
        let copies ← Build.list (List.replicate n number)
        return (← op number vector, ← op copies vector, ← op vector number, ← op vector copies)) b =
          .ok (left, left', right, right') b' ∧
      b'.graph.Interchangeable left left' ∧ b'.graph.Interchangeable right right' := by
  have hok := builderOK_runAll hb
  obtain ⟨S, hS, hSvec, hSdim⟩ := hnumber.exists_shows
  obtain ⟨V, hV, hVvec, rfl⟩ := hvector.exists_shows
  have hpos : 0 < V.dimension := hV.dimension_pos hok hVvec
  obtain ⟨arith, f, hf, hcall⟩ := leads_elementwise hop b.graph.settings
  obtain ⟨copies, b₀, hrun₀, h₀, hL⟩ : (Build.list (List.replicate V.dimension number)).Leads b
      (View.apply b.graph.settings .list V.dimension (List.replicate V.dimension S)) := by
    have hitems : List.Forall₂ (fun id V => b.graph.Shows id V ∧ V.IsVector ∧ V.dimension = 1)
        (List.replicate V.dimension number) (List.replicate V.dimension S) :=
      List.forall₂_iff_get.2 ⟨by simp, fun i _ _ => by simpa using ⟨hS, hSvec, hSdim⟩⟩
    have hlist := leads_list hok (by simpa using hpos.ne') hitems
    rwa [List.length_replicate] at hlist
  have hcopies := readsAlike_list (s := b.graph.settings) hpos fun points hfits =>
    hSdim ▸ hS.has hok hfits
  -- the operator four times, each node added to what was there
  obtain ⟨left, b₁, hrun₁, h₁, hleft⟩ :=
    hcall h₀.ok h₀.settings (h₀.keeps hS) (h₀.keeps hV) hSvec hVvec (.inr ⟨hSdim, rfl⟩)
  have h₀₁ := h₀.trans h₁
  obtain ⟨left', b₂, hrun₂, h₂, hleft'⟩ :=
    hcall h₁.ok h₀₁.settings (h₁.keeps hL) (h₀₁.keeps hV) rfl hVvec (.inl ⟨rfl, .inl rfl⟩)
  have h₀₂ := h₀₁.trans h₂
  obtain ⟨right, b₃, hrun₃, h₃, hright⟩ :=
    hcall h₂.ok h₀₂.settings (h₀₂.keeps hV) (h₀₂.keeps hS) hVvec hSvec (.inl ⟨rfl, .inr hSdim⟩)
  have h₀₃ := h₀₂.trans h₃
  obtain ⟨right', b₄, hrun₄, h₄, hright'⟩ :=
    hcall h₃.ok h₀₃.settings (h₀₃.keeps hV) ((h₁.trans (h₂.trans h₃)).keeps hL) hVvec rfl
      (.inl ⟨rfl, .inl rfl⟩)
  refine ⟨left, left', right, right', b₄, ?_, ?_, ?_⟩
  · rw [Action.bind_of_ok hrun₀, Action.bind_of_ok hrun₁, Action.bind_of_ok hrun₂,
      Action.bind_of_ok hrun₃, Action.bind_of_ok hrun₄]
    rfl
  · have hsame := View.ReadsAlike.arith (s := b.graph.settings) arith hcopies (hf (.refl _ V))
    exact ((h₂.trans (h₃.trans h₄)).keeps (hleft.congr hsame)).interchangeable
      ((h₃.trans h₄).keeps hleft') h₄.ok
  · have hsame := View.ReadsAlike.arith (s := b.graph.settings) arith (.refl _ V) (hf hcopies)
    exact (h₄.keeps (hright.congr hsame)).interchangeable hright' h₄.ok

/-- A variable with three components of either sign, and their sum. -/
def totalledCommands : List (Command ℚ NodeId) :=
  [.newGraph {}, .graph 0 (.build (.taggedVariable 3 .unknown)), .graph 0 (.build (.sum ⟨1⟩))]

/-- The quotients of the two in both orders, and those of three copies of the sum. -/
def quotientsBuild : Build ℚ (NodeId × NodeId × NodeId × NodeId) := do
  let copies ← Build.list (List.replicate 3 ⟨2⟩)
  return (← Build.div ⟨2⟩ ⟨1⟩, ← Build.div copies ⟨1⟩, ← Build.div ⟨1⟩ ⟨2⟩, ← Build.div ⟨1⟩ copies)

/-- The sum divided by the components, at points that are out of order. -/
theorem broadcast_eq_copies_div : ∃ (b b' : Builder ℚ) (right right' : NodeId) (v : List ℚ),
    (Session.runAll totalledCommands {}).builder? 0 = some b ∧
    quotientsBuild b = .ok (⟨4⟩, ⟨5⟩, right, right') b' ∧ b'.graph.Interchangeable right right' ∧
    b'.graph.Answers ⟨4⟩ [1, -2, 3] [4, 5, -6] v ∧
    b'.graph.Answers ⟨5⟩ [1, -2, 3] [4, 5, -6] v := by
  obtain ⟨b, hb, hnumber, hvector, hanswer, hplace, hall⟩ : ∃ b : Builder ℚ,
      (Session.runAll totalledCommands {}).builder? 0 = some b ∧ b.graph.HasVector ⟨2⟩ 1 ∧
        b.graph.HasVector ⟨1⟩ 3 ∧ quotientsBuild.answer b = .ok (⟨4⟩, ⟨5⟩, ⟨6⟩, ⟨7⟩) ∧
        (quotientsBuild.after b).graph.nodes[3]?.map Node.id = some ⟨4⟩ ∧
        ∀ n ∈ (quotientsBuild.after b).graph.nodes, n.isVariable = true → n.dimension = 3 :=
    ⟨((Session.runAll totalledCommands {}).builder? 0).getD ⟨{}, 0, []⟩, by decide +kernel⟩
  have hdiv : Build.div ∈ [Build.add (α := ℚ), Build.sub, Build.mul, Build.div] := by simp
  obtain ⟨left, left', right, right', b', hrun, hleft, hright⟩ :=
    broadcast_eq_copies totalledCommands hb hnumber hvector hdiv
  obtain ⟨b'', hrun'⟩ := Action.answer_eq_ok.1 hanswer
  obtain ⟨⟨rfl, rfl, rfl, rfl⟩, rfl⟩ : (⟨4⟩ = left ∧ ⟨5⟩ = left' ∧ ⟨6⟩ = right ∧ ⟨7⟩ = right') ∧
      b'' = b' := by
    simpa using hrun'.symm.trans hrun
  rw [Action.after_eq_of_ok hrun'] at hplace hall
  have haccepts : b''.graph.Accepts ⟨4⟩ [1, -2, 3] [4, 5, -6] :=
    Graph.accepts_of_all hplace rfl hall
  obtain ⟨v, hv, hv'⟩ := hleft.answers _ _ haccepts
  exact ⟨b, b'', ⟨6⟩, ⟨7⟩, v, hb, hrun', hright, hv, hv'⟩

end MixedMonotone
