import Mathlib
import MixedMonotone.Proofs.Leading
import MixedMonotone.Proofs.Residue
import MixedMonotone.Proofs.Signs

/-!
# Three ways to multiply by a row

A row times a vector can be had as a component of a matrix-vector product, as an inner product,
or as the sum of a product. The matrix is tagged as a whole and each row by itself, so the
three go different ways.

* `shows_constant`: a constant shows the same at all points.
* `sum_range_eq_rowBound`: the pairs of components make up the bound of a row.
* `View.value_matvec`, `View.value_dot_row`, `View.value_sum_mul`: **all three compute that bound**,
  whatever the tag of the vector says.
* `products_agree`: so their answers agree at all points, in whatever order these are.
-/

namespace MixedMonotone

/-! ## Constants -/

/-- **A constant shows the same at all points**, and no variable is below it. -/
theorem shows_constant {α : Type} [Scalar α] {s : Settings} {nodes : List (Node α)}
    (hok : NodesOK s nodes) {i : Nat} {n : Node α} (hn : nodes[i]? = some n) (hc : n.IsConstant) :
    Shows nodes i { n.signature with inputs := ∅, value := fun _ => n.value } := by
  have hleaf : n.isVariable = false ∧ n.operands = [] := by
    unfold Node.IsConstant at hc
    unfold Node.isVariable Node.operands
    cases hkind : n.kind <;> simp_all [Kind.operands]
  refine ⟨?_, ?_, fun points _ => hc.denote_eq hn (hok.before hn) points⟩
  · rw [signatureAt, hn]
    rfl
  · rw [inputsBelow_eq hn hleaf.1, hleaf.2]
    simp

/-! ## Values -/

/-- The sum of a product is the inner product, in whatever arithmetic. -/
theorem View.value_sum_mul {α : Type} [Scalar α] {s : Settings} {P V : View α} {points : Points α}
    {n : Nat} (hP : (P.both points).Has n) (hV : (V.both points).Has n) :
    (apply s .sum 1 [apply s (.arith .mul) n [P, V]]).value points =
      (apply s .dot 1 [P, V]).value points := by
  have hsum : (apply s .sum 1 [apply s (.arith .mul) n [P, V]]).value points =
      [Scalar.sum ((apply s (.arith .mul) n [P, V]).value points)] := rfl
  rw [hsum, value_arith hP hV (.inl ⟨rfl, .inl rfl⟩), value_dot hP hV]

variable {K : Type} [Field K] [LinearOrder K] [Logarithms K]

/-- The pairs of components **make up the bound of a row**. -/
theorem sum_range_eq_rowBound {row : List K} {v : OperandValues K} {n : Nat} (hrow : row.length = n)
    (hv : v.Has n) :
    ((List.range n).map fun i =>
        productBound (OperandValues.componentAt ⟨row, row⟩ i) (v.componentAt i)).sum =
          rowBound row v := by
  have hown := hv.1
  have hswapped := hv.2
  refine congrArg List.sum (List.ext_getElem (by simp [hrow, hown, hswapped]) fun i hi _ => ?_)
  have hi : i < n := by simpa using hi
  have hindex : (if n = 1 then 0 else i) = i := by split <;> omega
  simp [OperandValues.componentAt, hrow, hown, hswapped, hindex, hi]

namespace View

variable {s : Settings} {P V : View K} {points : Points K}

/-- A matrix of truthful tag computes the bound of every row. -/
theorem value_matvec {m : Matrix K} (hP : ∀ a ∈ m.values, P.tag.Holds a)
    (hV : (V.both points).Has m.cols) :
    (apply s (.matvec (Graph.matvecKernel m P.tag V.tag).2) m.rows [P, V]).value points =
      m.rowList.map (rowBound · (V.both points)) :=
  value_apply (Op.combine_matvec m V.tag hP hV _ _)

/-- A constant of truthful tag computes the bound of its row. -/
theorem value_dot_row {row : List K} {n : Nat} (hP : P.both points = ⟨row, row⟩)
    (hrow : row.length = n) (hsign : ∀ a ∈ row, P.tag.Holds a) (hV : (V.both points).Has n) :
    (apply s .dot 1 [P, V]).value points = [rowBound row (V.both points)] := by
  have hhas : (P.both points).Has n := hP ▸ ⟨hrow, hrow⟩
  rw [View.value_dot hhas hV, Scalar.exact_sum, ← sum_range_eq_rowBound hrow hV]
  refine congrArg (fun l => [List.sum l]) (List.map_congr_left fun i hi => ?_)
  have hi := List.mem_range.1 hi
  -- a component of the row has the sign that the tag says, and is the same along both routes
  have hcomponent : ∃ a ∈ row, OperandValues.componentAt ⟨row, row⟩ i = ⟨a, a⟩ := by
    have hmem := OperandValues.componentAt_mem (v := ⟨row, row⟩) ⟨hrow, hrow⟩ (.inr hi) .own
    exact ⟨_, hmem, rfl⟩
  obtain ⟨a, ha, hai⟩ := hcomponent
  have hleft : (P.both points).componentAt i = ⟨a, a⟩ := hP ▸ hai
  rw [hai, ← Arith.combine_mul_const V.tag (hsign a ha), ← hleft]

end View

/-! ## Handles of constants -/

section Constants

variable {g : Graph K} {nextId : Nat} {log : List Event} (hok : GraphOK nextId log g)
  (hsign : g.settings.parameterSign = .reduced) {id : NodeId} {n : Node K}

include hok hsign

/-- A matrix, tagged by all its entries. -/
theorem exists_shows_matrix (hn : g.arena.node id = .ok n) {m : Matrix K}
    (hm : n.matrix? = some m) :
    ∃ M : View K, g.Shows id M ∧ M.matrix? = some m ∧ M.inputs = ∅ ∧
      ∀ a ∈ m.values, M.tag.Holds a := by
  obtain ⟨o, ho, rfl⟩ := Arena.node_eq_ok.1 hn
  obtain ⟨-, hnode⟩ := Arena.find_eq_ok ho
  have hc : o.node.IsConstant := .of_matrix (by rw [Node.isMatrix, hm]; rfl)
  exact ⟨_, ⟨o, ho, shows_constant hok.nodes hnode hc⟩, hm, rfl,
    matrix_holds hsign hok.nodes hnode hm⟩

/-- A constant vector, tagged by all its components. -/
theorem exists_shows_parameter (hn : g.arena.node id = .ok n) (hkind : n.kind = .parameter) :
    ∃ P : View K, g.Shows id P ∧ P.IsVector ∧ P.dimension = n.value.length ∧ P.inputs = ∅ ∧
      (∀ points, P.both points = ⟨n.value, n.value⟩) ∧ ∀ a ∈ n.value, P.tag.Holds a := by
  obtain ⟨o, ho, rfl⟩ := Arena.node_eq_ok.1 hn
  obtain ⟨-, hnode⟩ := Arena.find_eq_ok ho
  have hc : o.node.IsConstant := by rw [Node.IsConstant, hkind]; trivial
  have hvec : o.node.matrix? = none := by rw [Node.matrix?, hkind]; rfl
  have htag : o.node.tag = Tag.ofValues o.node.value .reduced := by
    have hfits := hok.nodes _ _ hnode
    rw [NodeOK, hkind] at hfits
    rw [hfits.2, hsign]
  have hholds : ∀ a ∈ o.node.value, o.node.tag.Holds a := by
    rw [htag]
    exact Tag.holds_ofValues
  exact ⟨_, ⟨o, ho, shows_constant hok.nodes hnode hc⟩, hvec, rfl, rfl, fun _ => rfl, hholds⟩

end Constants

/-! ## Answers -/

/-- The three products are added one after the other. -/
theorem leads_products {α : Type} [Scalar α] {b : Builder α} (hb : GraphOK b.nextId b.log b.graph)
    {m v p : NodeId} {M V P : View α} {matrix : Matrix α} (hM : b.graph.Shows m M)
    (hmatrix : M.matrix? = some matrix) (hV : b.graph.Shows v V) (hVvec : V.IsVector)
    (hVdim : V.dimension = matrix.cols) (hP : b.graph.Shows p P) (hPvec : P.IsVector)
    (hPdim : P.dimension = matrix.cols) :
    ∃ product inner total b',
      (do return (← Build.matvec m v, ← Build.dot p v, ← Build.sum (← Build.mul p v))) b =
        .ok (product, inner, total) b' ∧
      GraphOK b'.nextId b'.log b'.graph ∧
      b'.graph.Shows product (View.apply b.graph.settings
        (.matvec (Graph.matvecKernel matrix M.tag V.tag).2) matrix.rows [M, V]) ∧
      b'.graph.Shows inner (View.apply b.graph.settings .dot 1 [P, V]) ∧
      b'.graph.Shows total (View.apply b.graph.settings .sum 1
        [View.apply b.graph.settings (.arith .mul) matrix.cols [P, V]]) := by
  obtain ⟨product, b₁, hrun₁, h₁, hproduct⟩ := leads_matvec hb hM hV hmatrix hVvec hVdim
  obtain ⟨inner, b₂, hrun₂, h₂, hinner⟩ :=
    leads_dot h₁.ok (h₁.keeps hP) (h₁.keeps hV) hPvec hVvec (hPdim.trans hVdim.symm)
  have h₁₂ := h₁.trans h₂
  obtain ⟨products, b₃, hrun₃, h₃, hproducts⟩ : (Build.mul p v).Leads b₂ _ :=
    leads_arith h₂.ok (h₁₂.keeps hP) (h₁₂.keeps hV) hPvec hVvec .mul (.inl ⟨hPdim, .inl hVdim⟩)
  have h₁₃ := h₁₂.trans h₃
  obtain ⟨total, b₄, hrun₄, h₄, htotal⟩ := leads_sum h₃.ok hproducts rfl
  rw [h₁.settings] at hinner
  rw [h₁₂.settings, h₁₃.settings] at htotal
  refine ⟨product, inner, total, b₄, ?_, h₄.ok, (h₂.trans (h₃.trans h₄)).keeps hproduct,
    (h₃.trans h₄).keeps hinner, htotal⟩
  rw [Action.bind_of_ok hrun₁, Action.bind_of_ok hrun₂, Action.bind_of_ok hrun₃,
    Action.bind_of_ok hrun₄]
  rfl

/-- **Matrix-vector product, inner product and sum of products agree**, at all points and not only
where the two are the same. In every reachable graph whose constants are tagged by all their
entries, let `m` be a matrix, `v` a vector of its width with any tag, sound or not, and `p` a
constant that holds one of the rows. The three nodes can be added, accept the same points as `v`,
and what the first one answers has at that row the one component of the other two. -/
theorem products_agree (commands : List (Command K NodeId)) {g : Nat} {b : Builder K}
    (hb : (Session.runAll commands {}).builder? g = some b)
    (hsign : b.graph.settings.parameterSign = .reduced) {m v p : NodeId} {M P : Node K}
    {matrix : Matrix K} {row : Fin matrix.rows} (hm : b.graph.arena.node m = .ok M)
    (hmatrix : M.matrix? = some matrix) (hv : b.graph.HasVector v matrix.cols)
    (hp : b.graph.arena.node p = .ok P) (hkind : P.kind = .parameter)
    (hrow : P.value = matrix.row row) : ∃ product inner total b',
      (do return (← Build.matvec m v, ← Build.dot p v, ← Build.sum (← Build.mul p v))) b =
        .ok (product, inner, total) b' ∧
      ∀ x y, (∀ id ∈ [product, inner, total], b'.graph.Accepts id x y ↔ b.graph.Accepts v x y) ∧
        (b.graph.Accepts v x y → ∃ w c, b'.graph.Answers product x y w ∧ w[row.val]? = some c ∧
          b'.graph.Answers inner x y [c] ∧ b'.graph.Answers total x y [c]) := by
  have hok := builderOK_runAll hb
  obtain ⟨M', hM, hMmatrix, hMinputs, hMsign⟩ := exists_shows_matrix hok hsign hm hmatrix
  obtain ⟨P', hP, hPvec, hPdim, hPinputs, hPvalue, hPsign⟩ :=
    exists_shows_parameter hok hsign hp hkind
  obtain ⟨V, hV, hVvec, hVdim⟩ := hv.exists_shows
  have hlen : (matrix.row row).length = matrix.cols :=
    matrix.length_of_mem_rowList (List.mem_map.2 ⟨row, List.mem_finRange row, rfl⟩)
  rw [hrow] at hPdim hPvalue hPsign
  have hPdim : P'.dimension = matrix.cols := hPdim.trans hlen
  obtain ⟨product, inner, total, b', hrun, hok', hproduct, hinner, htotal⟩ :=
    leads_products hok hM hMmatrix hV hVvec hVdim hP hPvec hPdim
  have haccepts : ∀ x y, ∀ id ∈ [product, inner, total], b'.graph.Accepts id x y ↔
      b.graph.Accepts v x y := by
    intro x y
    -- no variable is below the constants
    have hM : M'.Fits ⟨x, y⟩ := by simp [View.Fits, hMinputs]
    have hP : P'.Fits ⟨x, y⟩ := by simp [View.Fits, hPinputs]
    simp [hproduct.accepts_iff hok', hinner.accepts_iff hok', htotal.accepts_iff hok',
      hV.accepts_iff hok, View.fits_apply, hM, hP]
  refine ⟨product, inner, total, b', hrun, fun x y => ⟨haccepts x y, fun hxy => ?_⟩⟩
  obtain ⟨-, hfits⟩ := (hV.accepts_iff hok).1 hxy
  have hhas : (V.both ⟨x, y⟩).Has matrix.cols := hVdim ▸ hV.has hok hfits
  have hPhas : (P'.both ⟨x, y⟩).Has matrix.cols := hPvalue ⟨x, y⟩ ▸ ⟨hlen, hlen⟩
  have hall : ∀ id ∈ [product, inner, total], b'.graph.Accepts id x y := fun id hid =>
    (haccepts x y id hid).2 hxy
  have hw := hproduct.answers hok' (hall product (by simp))
  have hc := hinner.answers hok' (hall inner (by simp))
  have ht := htotal.answers hok' (hall total (by simp))
  rw [View.value_matvec hMsign hhas] at hw
  rw [View.value_dot_row (hPvalue _) hlen hPsign hhas] at hc
  rw [View.value_sum_mul hPhas hhas, View.value_dot_row (hPvalue _) hlen hPsign hhas] at ht
  refine ⟨_, _, hw, ?_, hc, ht⟩
  simp [Matrix.rowList]

/-- A matrix of mixed signs with a row of either sign. -/
def mixedRows : Matrix ℚ := ⟨3, 2, [1, -2, 3, 4, -5, -6], Nat.succ_pos 2, Nat.succ_pos 1, rfl⟩

/-- This matrix, a variable that is declared nonnegative, and the second row, which is. -/
def rowCommands : List (Command ℚ NodeId) :=
  [.newGraph {}, .graph 0 (.build (.matrixParameter mixedRows)),
    .graph 0 (.build (.taggedVariable 2 .nonneg)), .graph 0 (.build (.parameter [3, 4]))]

/-- The three products with the second row, where the variable does not keep to its tag and the
points are out of order: the matrix is split, the row is not. -/
theorem products_agree_split :
    ∃ b : Builder ℚ, (Session.runAll rowCommands {}).builder? 0 = some b ∧
    ∃ product inner total b' w c,
      (do
        return (← Build.matvec ⟨1⟩ ⟨2⟩, ← Build.dot ⟨3⟩ ⟨2⟩, ← Build.sum (← Build.mul ⟨3⟩ ⟨2⟩)))
          b = .ok (product, inner, total) b' ∧
      b'.graph.Answers product [1, -3] [-2, 4] w ∧ w[1]? = some c ∧
      b'.graph.Answers inner [1, -3] [-2, 4] [c] ∧ b'.graph.Answers total [1, -3] [-2, 4] [c] := by
  obtain ⟨b, hb, hsign, hmatrix, hvector, hrow, hplace, hall⟩ : ∃ b : Builder ℚ,
      (Session.runAll rowCommands {}).builder? 0 = some b ∧
      b.graph.settings.parameterSign = .reduced ∧
        (b.graph.arena.node ⟨1⟩).map Node.matrix? = .ok (some mixedRows) ∧
        b.graph.HasVector ⟨2⟩ mixedRows.cols ∧
        (b.graph.arena.node ⟨3⟩).map (fun n => (n.kind, n.value)) =
          .ok (.parameter, mixedRows.row ⟨1, by decide⟩) ∧
        b.graph.nodes[1]?.map Node.id = some ⟨2⟩ ∧
        ∀ n ∈ b.graph.nodes, n.isVariable = true → n.dimension = 2 :=
    ⟨((Session.runAll rowCommands {}).builder? 0).getD ⟨{}, 0, []⟩, by decide +kernel⟩
  obtain ⟨M, hM, hMmatrix⟩ := map_eq_ok.1 hmatrix
  obtain ⟨P, hP, hPkind⟩ := map_eq_ok.1 hrow
  obtain ⟨hkind, hvalue⟩ := Prod.mk.inj hPkind
  obtain ⟨product, inner, total, b', hrun, hanswers⟩ :=
    products_agree rowCommands hb hsign hM hMmatrix hvector hP hkind hvalue
  have haccepts : b.graph.Accepts ⟨2⟩ [1, -3] [-2, 4] := Graph.accepts_of_all hplace rfl hall
  obtain ⟨w, c, hw, hwc, hc, ht⟩ := (hanswers _ _).2 haccepts
  exact ⟨b, hb, product, inner, total, b', w, c, hrun, hw, hwc, hc, ht⟩

end MixedMonotone
