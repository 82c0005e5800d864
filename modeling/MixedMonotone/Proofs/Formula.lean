import Mathlib
import MixedMonotone.Proofs.Bounds
import MixedMonotone.Proofs.Compilation
import MixedMonotone.Proofs.Histories

/-!
# The formula of a node

What a node means as an ordinary formula of one point, in exact arithmetic. No tag,
route or plan enters.

* `Op.plain`: the ordinary value of an operator.
* `formula`: the ordinary value of a node at a point; a copy has the formula of its original
  (`formula_copy`).
* `Op.combine_diagonal`: where both routes of the operands agree, every plan computes the ordinary
  value, **whatever the tags say**.
* `denote_diagonal`: at a point and itself, a node denotes its formula, and `answer_is_formula` says
  so of every reachable graph.
-/

namespace MixedMonotone

/-- What a node stands for in a formula. -/
inductive Meaning (K : Type) where
  | vector (values : List K)
  | matrix (m : Matrix K)

/-- The components; a matrix has none. -/
def Meaning.values {K : Type} : Meaning K → List K
  | vector values => values
  | matrix _ => []

section Operands

variable {K : Type}

/-- What an operand means whose values along both routes agree. -/
def Signature.meaning (σ : Signature K) (values : List K) : Meaning K :=
  match σ.matrix? with
  | some m => .matrix m
  | none => .vector values

theorem Signature.IsVector.meaning {σ : Signature K} (h : σ.IsVector) (values : List K) :
    σ.meaning values = .vector values := by
  unfold Signature.meaning
  rw [h]

/-- Both routes of an operand agree. -/
def OperandValues.IsDiagonal (v : OperandValues K) : Prop := v.swapped = v.own

theorem OperandValues.IsDiagonal.get {v : OperandValues K} (h : v.IsDiagonal) (r : Route) :
    v.get r = v.own := by
  cases r
  · rfl
  · exact h

end Operands

variable {K : Type} [Field K] [LinearOrder K] [Logarithms K]

/-- Component `i`, a single component standing for all. -/
def broadcastAt (a : List K) (i : Nat) : K := a.getD (if a.length = 1 then 0 else i) 0

/-- **The ordinary value of an operator.** -/
def Op.plain (op : Op K) (operands : List (Meaning K)) (dimension : Nat) : List K :=
  match op, operands with
  | arith op, [.vector a, .vector b] =>
    (List.range dimension).map fun i => op.apply (broadcastAt a i) (broadcastAt b i)
  | dot, [.vector a, .vector b] => [dotRow a b]
  | matvec _, [.matrix m, .vector v] => m.rowList.map (dotRow · v)
  | log2, [.vector v] => v.map Logarithms.log2
  | ln, [.vector v] => v.map Logarithms.ln
  | neg, [.vector v] => v.map (- ·)
  | reciprocal, [.vector v] => v.map (·⁻¹)
  | sum, [.vector v] => [v.sum]
  | prod, [.vector v] => [v.prod]
  | list, vs => vs.map fun v => v.values.headD 0
  | slice start, [.vector v] => (v.drop start).take dimension
  | _, _ => []

/-- What a node means at a point, given what its operands mean. -/
def Node.means (n : Node K) (operands : List (List K → Meaning K)) (z : List K) : Meaning K :=
  match n.kind with
  | .parameter => .vector n.value
  | .matrixParameter m => .matrix m
  | .variable _ => .vector z
  | .function f => .vector (f.op.plain (operands.map (· z)) n.dimension)

/-- What the node at position `i` means at a point. -/
def meaning (nodes : List (Node K)) : Nat → List K → Meaning K :=
  byOperands Node.means (fun _ => .vector []) nodes

/-- **The ordinary value of the node** at position `i` at a point. -/
def formula (nodes : List (Node K)) (i : Nat) (z : List K) : List K := (meaning nodes i z).values

/-- The recursion equation. -/
theorem meaning_eq {nodes : List (Node K)} {i : Nat} {n : Node K} (hn : nodes[i]? = some n)
    (hlt : ∀ k ∈ n.operands, k < i) (z : List K) :
    meaning nodes i z = n.means (n.operands.map (meaning nodes)) z :=
  congrFun (byOperands_eq _ _ hn hlt) z

/-! ## Formulas of copies -/

theorem Node.blank_means (n : Node K) (operands : List (List K → Meaning K)) :
    n.blank.means operands = n.means operands := by
  funext z
  have hdim := n.blank_dimension
  unfold Node.means
  rw [hdim]
  unfold Node.blank
  cases n.kind <;> rfl

/-- Caches do not matter. -/
theorem formula_alike {nodes nodes' : List (Node K)} (h : Alike nodes nodes') :
    formula nodes = formula nodes' := by
  funext i z
  have key : ∀ ns : List (Node K), meaning (ns.map Node.blank) i = meaning ns i := fun ns =>
    byOperands_map _ _ Node.blank_means Node.blank_operands ns i
  rw [formula, formula, ← key nodes, h, key nodes']

theorem Node.Copy.means_eq {nodes nodes' : List (Node K)} {n m : Node K}
    (h : Node.Copy nodes nodes' n m) : m.means = n.means := by
  funext operands z
  have hkind := h.kind
  unfold Node.means
  rw [h.value, h.dimension_eq]
  generalize n.kind = k, m.kind = k' at hkind
  cases hkind <;> rfl

/-- **A copy has the formula of its original.** -/
theorem formula_copy {s s' : Settings} {nodes nodes' : List (Node K)} (h : Copies nodes nodes')
    (hinc : Increasing nodes) (hok : NodesOK s nodes) (hok' : NodesOK s' nodes') {i k : Nat}
    (hik : SameHandle nodes nodes' i k) (z : List K) : formula nodes' k z = formula nodes i z := by
  have hmeaning : meaning nodes' k = meaning nodes i :=
    h.byOperands_copy hinc hok.operands_lt hok'.operands_lt (fun _ _ h => h.means_eq) k i hik
  rw [formula, formula, hmeaning]

/-! ## The diagonal -/

theorem OperandValues.IsDiagonal.componentAt {v : OperandValues K} (h : v.IsDiagonal) (i : Nat) :
    v.componentAt i = ⟨broadcastAt v.own i, broadcastAt v.own i⟩ := by
  unfold OperandValues.componentAt broadcastAt
  rw [h]

/-- The inner product, component by component. -/
theorem sum_range_eq_dotRow {a b : List K} (h : a.length = b.length) :
    ((List.range a.length).map fun i => broadcastAt a i * broadcastAt b i).sum = dotRow a b := by
  refine congrArg List.sum (List.ext_getElem (by simp [h]) fun i hi _ => ?_)
  have hia : i < a.length := by simpa using hi
  have hindex : (if a.length = 1 then 0 else i) = i := by split <;> omega
  simp only [List.getElem_map, List.getElem_range, List.getElem_zipWith, broadcastAt, ← h, hindex,
    List.getD_eq_getElem _ _ hia, List.getD_eq_getElem _ _ (h ▸ hia)]

/-- Operands mean what they denote, if each of them does. -/
theorem map_meaning_eq {nodes : List (Node K)} {operands : List Nat} {σs : List (Signature K)}
    {z : List K} (hσs : List.Forall₂ (fun k σ => signatureAt nodes k = some σ) operands σs)
    (hvalues : ∀ k ∈ operands, ∀ m, nodes[k]? = some m →
      meaning nodes k z = m.signature.meaning (denote nodes k ⟨z, z⟩)) :
    operands.map (meaning nodes · z) =
      List.zipWith (fun v σ => σ.meaning v.own) (operands.map (denoteBoth nodes ⟨z, z⟩)) σs := by
  induction hσs with
  | nil => rfl
  | cons hσ _ ih =>
    obtain ⟨m, hm, rfl⟩ := Option.map_eq_some_iff.1 hσ
    obtain ⟨hhead, hrest⟩ := List.forall_mem_cons.1 hvalues
    rw [List.map_cons, List.map_cons, List.zipWith_cons_cons, hhead m hm, ih hrest, denoteBoth_own]

variable [IsStrictOrderedRing K]

/-- **Where the routes agree, every plan computes the ordinary value**, whatever the tags say. -/
theorem Op.combine_diagonal {s : Settings} {op : Op K} {plan : Plan} {σs : List (Signature K)}
    {d : Nat} {t : Tag} (hfits : op.Fits s plan σs d t) {vs : List (OperandValues K)}
    (hvs : HaveSizes vs σs) (hdiag : ∀ v ∈ vs, v.IsDiagonal) :
    op.combine plan vs d = some (op.plain (List.zipWith (fun v σ => σ.meaning v.own) vs σs) d) := by
  cases hfits with
  | arith hlvec hrvec hd =>
    obtain ⟨l, r, hl, hr, rfl⟩ := forall₂_pair hvs
    obtain ⟨hld, hrd⟩ : l.IsDiagonal ∧ r.IsDiagonal := by simpa using hdiag
    rw [combine_arith hl hr hd]
    simp only [List.zipWith, hlvec.meaning, hrvec.meaning, plain]
    refine congrArg some (List.map_congr_left fun i _ => ?_)
    rw [hld.componentAt, hrd.componentAt]
    exact Arith.combine_diagonal _ _ _ _ _
  | dot hlvec hrvec hd =>
    obtain ⟨l, r, hl, hr, rfl⟩ := forall₂_pair hvs
    obtain ⟨hld, hrd⟩ : l.IsDiagonal ∧ r.IsDiagonal := by simpa using hdiag
    rw [combine_dot hl (hd ▸ hr)]
    simp only [List.zipWith, hlvec.meaning, hrvec.meaning, plain]
    rw [Scalar.exact_sum, ← sum_range_eq_dotRow (hl.1.trans (hd.trans hr.1.symm)), hl.1]
    refine congrArg (fun l => some [List.sum l]) (List.map_congr_left fun i _ => ?_)
    rw [hld.componentAt, hrd.componentAt]
    exact Arith.combine_diagonal .mul _ _ _ _
  | @matvec σl σr m hm hrvec hd =>
    obtain ⟨l, r, -, hr, rfl⟩ := forall₂_pair hvs
    obtain ⟨-, hrd⟩ : l.IsDiagonal ∧ r.IsDiagonal := by simpa using hdiag
    have hml : σl.meaning l.own = .matrix m := by rw [Signature.meaning, hm]
    rw [hd] at hr
    simp only [List.zipWith, hml, hrvec.meaning, plain]
    rcases matvecKernel_cases m σl.tag σr.tag with ⟨-, hk⟩ | ⟨-, hk⟩ <;> simp only [hk, combine]
    · rw [hrd.get, m.mulVec_eq hr.1]
    · rw [m.mulSplit_eq hr.1 hr.2]
      obtain ⟨own, swapped⟩ := r
      obtain rfl : swapped = own := hrd
      exact congrArg some (List.map_congr_left fun row _ => rowBound_diagonal row _)
  | log2 ho | ln ho =>
    obtain ⟨v, -, rfl⟩ := forall₂_single hvs
    simp only [List.zipWith, ho.meaning, plain]
    rfl
  | neg ho =>
    obtain ⟨v, -, rfl⟩ := forall₂_single hvs
    obtain hv : v.IsDiagonal := by simpa using hdiag
    simp only [List.zipWith, ho.meaning, plain, combine, hv.get]
  | reciprocal ho =>
    obtain ⟨v, -, rfl⟩ := forall₂_single hvs
    obtain hv : v.IsDiagonal := by simpa using hdiag
    simp only [List.zipWith, ho.meaning, plain, combine, hv.get]
    exact congrArg some (List.map_congr_left fun a _ => Scalar.exact_reciprocal a)
  | sum ho =>
    obtain ⟨v, -, rfl⟩ := forall₂_single hvs
    simp only [List.zipWith, ho.meaning, plain, combine, Plan.route, Dual.get, Scalar.exact_sum]
  | @prod σ ho =>
    obtain ⟨v, -, rfl⟩ := forall₂_single hvs
    obtain hv : v.IsDiagonal := by simpa using hdiag
    simp only [List.zipWith, ho.meaning, plain, combine, Scalar.exact_product]
    by_cases htag : σ.tag = .nonneg
    · rw [if_pos htag, if_neg (by simp)]
      rfl
    -- the intervals are single numbers
    · obtain ⟨own, swapped⟩ := v
      obtain rfl : swapped = own := hv
      rw [if_neg htag, if_pos rfl, intervalProduct_eq, intervalFold_diagonal, one_mul]
  | list _ hos =>
    rw [combine_list (haveSizes_one hvs hos), plain]
    refine congrArg some (List.ext_getElem ?_ ?_)
    · simp [hvs.length_eq]
    · intro j hj _
      rw [List.length_map] at hj
      have hvec := (hos _ (List.getElem_mem (hvs.length_eq ▸ hj))).1
      rw [List.getElem_map, List.getElem_map, List.getElem_zipWith, hvec.meaning]
      rw [(hdiag _ (List.getElem_mem hj)).get, Meaning.values]
  | slice ho _ hle =>
    obtain ⟨v, hv, rfl⟩ := forall₂_single hvs
    simp only [List.zipWith, ho.meaning, plain]
    exact combine_slice hv hle

/-! ## Nodes at a point and itself -/

/-- What a node means at a point is what it denotes at the point and itself. -/
theorem meaning_eq_denote {s : Settings} {nodes : List (Node K)} (hok : NodesOK s nodes)
    {z : List K} (i : Nat) :
    ∀ n, nodes[i]? = some n → InputsFit nodes i ⟨z, z⟩ →
      meaning nodes i z = n.signature.meaning (denote nodes i ⟨z, z⟩) := by
  induction i using Nat.strong_induction_on with
  | _ i ih =>
    intro n hn hin
    have hops := hok.before hn
    rw [meaning_eq hn hops, Node.means]
    unfold Signature.meaning Node.signature Node.matrix?
    cases hkind : n.kind with
    | parameter | «variable» bounds => simp [denote_eq hn hops, Node.denotes, hkind, Kind.matrix?]
    | matrixParameter m => rfl
    | function f =>
      obtain ⟨hlt, σs, hσs, hfits, -⟩ := hok.application hn hkind
      have hsizes := haveSizes_denoteBoth hok hn hkind hin hσs
      have hdiag : ∀ v ∈ f.operands.map (denoteBoth nodes ⟨z, z⟩), v.IsDiagonal := by
        rw [List.forall_mem_map]
        exact fun k _ => rfl
      have hmeanings := map_meaning_eq hσs fun k hk m hm =>
        ih k (hlt k hk) m hm (hin.operand (mem_operandsAt hn hkind hk))
      have hoperands : n.operands = f.operands := by rw [Node.operands, hkind]; rfl
      rw [denote_function hn hkind hlt, Op.combine_diagonal hfits hsizes hdiag,
        hoperands, List.map_map]
      exact congrArg (fun l => Meaning.vector (f.op.plain l n.dimension)) hmeanings

/-- **At a point and itself, a node denotes its formula**, whatever the settings. -/
theorem denote_diagonal {s : Settings} {nodes : List (Node K)} (hok : NodesOK s nodes) {i : Nat}
    {n : Node K} (hn : nodes[i]? = some n) {z : List K} (hin : InputsFit nodes i ⟨z, z⟩) :
    denote nodes i ⟨z, z⟩ = formula nodes i z := by
  rw [formula, meaning_eq_denote hok i n hn hin]
  unfold Signature.meaning
  split
  · rename_i m hm
    exact denote_matrix hok hn
      (by simpa [Node.isMatrix, Node.signature] using congrArg Option.isSome hm) _
  · rfl

/-- **At a point and itself, every node is answered with its formula**, under every configuration
and whatever tags the variables were declared with, true or not. What a node means is given by
recursion on its operands, with no tag, route or plan; a quotient by zero is zero on both sides. -/
theorem answer_is_formula (commands : List (Command K NodeId)) {g : Nat} {G : Graph K}
    (hG : (Session.runAll commands {}).graph? g = some G) :
    (∀ i n, G.nodes[i]? = some n → ∀ z,
      meaning G.nodes i z = n.means (n.operands.map (meaning G.nodes)) z) ∧
    ∀ id z i, G.evaluable id z z = .ok i →
      (Graph.evaluate id z z).answer G = .ok (formula G.nodes i z) := by
  have hok := graphOK_runAll hG
  refine ⟨fun i n hn => meaning_eq hn (hok.nodes.before hn), fun id z i h => ?_⟩
  obtain ⟨hpos, hin, -⟩ := (Graph.evaluable_eq_ok hok.arena).1 h
  obtain ⟨n, hn, -⟩ := (hok.arena.table id i).1 hpos
  obtain ⟨G', hrun, -⟩ := Graph.evaluate_spec hok.arena h
  rw [denote_diagonal hok.nodes hn hin] at hrun
  exact Action.answer_eq_ok.2 ⟨G', hrun⟩

/-- A variable declared nonnegative, times a constant that is tagged by its last component only,
through a matrix of mixed sign, times the variable again under the tag that a mixed inner
product is given. -/
def mistaggedCommands : List (Command ℚ NodeId) :=
  [.newGraph { parameterSign := .lastComponent, dotSign := .nonnegative },
    .graph 0 (.build (.taggedVariable 2 .nonneg)), .graph 0 (.build (.parameter [-3, 1])),
    .graph 0 (.build (.mul ⟨1⟩ ⟨2⟩)),
    .graph 0 (.build (.matrixParameter ⟨2, 2, [1, -2, 0, 3], by decide, by decide, rfl⟩)),
    .graph 0 (.build (.matvec ⟨4⟩ ⟨3⟩)), .graph 0 (.build (.dot ⟨5⟩ ⟨1⟩)),
    .graph 0 (.build (.div ⟨3⟩ ⟨6⟩)), .graph 0 (.build (.prod ⟨7⟩))]

/-- At a point that contradicts every tag, the product of the quotients is what the formula
gives. -/
theorem answer_is_formula_prod : ∃ G, (Session.runAll mistaggedCommands {}).graph? 0 = some G ∧
    (Graph.evaluate ⟨8⟩ [-2, 5] [-2, 5]).answer G = .ok [6 / 83 * (5 / 83)] := by
  let G := ((Session.runAll mistaggedCommands {}).graph? 0).getD {}
  have hG : (Session.runAll mistaggedCommands {}).graph? 0 = some G := by decide +kernel
  have haccept : G.evaluable ⟨8⟩ [-2, 5] [-2, 5] = .ok 7 :=
    evaluable_of_all hG (by decide +kernel) (by decide +kernel) rfl
  have hvalue : formula G.nodes 7 [-2, 5] = [6 / 83 * (5 / 83)] := by decide +kernel
  refine ⟨G, hG, ?_⟩
  rw [(answer_is_formula mistaggedCommands hG).2 ⟨8⟩ [-2, 5] 7 haccept, hvalue]

end MixedMonotone
