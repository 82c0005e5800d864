import Mathlib
import MixedMonotone.Proofs.Signs

/-!
# Every node is mixed monotone

Raising the first point and lowering the second one never lowers a value.

* `Below`: the operands of a kind, divisors or those of logarithms, below a node.
* `function_rises`: **one node** rises where its operands do.
* `denoteBoth_rises`: so does every node, where divisors keep their signs and logarithms are taken
  of positive numbers.
-/

namespace MixedMonotone

section Operands

variable {α : Type}

/-- The positions of the operands that an application divides by. -/
def Application.divisors (f : Application α) : List Nat :=
  match f.op with
  | .arith .div => f.operands.drop 1
  | .reciprocal => f.operands
  | _ => []

/-- The positions of the operands that an application takes the logarithm of. -/
def Application.logarithms (f : Application α) : List Nat :=
  match f.op with
  | .log2 | .ln => f.operands
  | _ => []

theorem Application.divisors_subset (f : Application α) : f.divisors ⊆ f.operands := by
  unfold divisors
  split
  · exact List.drop_subset 1 f.operands
  · exact List.Subset.refl _
  · exact List.nil_subset _

theorem Application.logarithms_subset (f : Application α) : f.logarithms ⊆ f.operands := by
  unfold logarithms
  split
  · exact List.Subset.refl _
  · exact List.Subset.refl _
  · exact List.nil_subset _

/-- What is picked from the operands of a function node. -/
def Node.picked (n : Node α) (pick : Application α → List Nat) : List Nat :=
  match n.kind with
  | .function f => pick f
  | _ => []

/-- An operand is **picked at or below** a position. -/
def Below (nodes : List (Node α)) (i : Nat) (pick : Application α → List Nat) (k : Nat) : Prop :=
  ∃ j n, Reaches nodes i j ∧ nodes[j]? = some n ∧ k ∈ n.picked pick

namespace Below

variable {nodes : List (Node α)} {i : Nat} {pick : Application α → List Nat}

theorem here {n : Node α} {f : Application α} (hn : nodes[i]? = some n) (hf : n.kind = .function f)
    {k : Nat} (hk : k ∈ pick f) : Below nodes i pick k :=
  ⟨i, n, .refl i, hn, by rwa [Node.picked, hf]⟩

theorem reaches {j k : Nat} (hij : Reaches nodes i j) (h : Below nodes j pick k) :
    Below nodes i pick k := by
  obtain ⟨l, n, hjl, hn, hk⟩ := h
  exact ⟨l, n, hij.trans hjl, hn, hk⟩

theorem operand {j k : Nat} (hj : j ∈ operandsAt nodes i) (h : Below nodes j pick k) :
    Below nodes i pick k := h.reaches (.head hj (.refl j))

/-- What is picked is reached, and stands before. -/
theorem reached (hpick : ∀ f : Application α, pick f ⊆ f.operands)
    (hlt : ∀ i, ∀ k ∈ operandsAt nodes i, k < i) {k : Nat} (h : Below nodes i pick k) :
    k < i ∧ Reaches nodes i k := by
  obtain ⟨j, n, hij, hn, hk⟩ := h
  unfold Node.picked at hk
  cases hkind : n.kind with
  | function f =>
    rw [hkind] at hk
    have hmem : k ∈ operandsAt nodes j := mem_operandsAt hn hkind (hpick f hk)
    exact ⟨lt_of_lt_of_le (hlt j k hmem) (hij.le hlt), hij.operand hmem⟩
  | _ => rw [hkind] at hk; cases hk

/-- It is enough to look at all nodes. -/
theorem of_all {P : Nat → Prop} (h : ∀ n ∈ nodes, ∀ k ∈ n.picked pick, P k) :
    ∀ k, Below nodes i pick k → P k := by
  rintro k ⟨j, n, -, hn, hk⟩
  exact h n (List.mem_of_getElem? hn) k hk

end Below

end Operands

variable {K : Type} [Field K] [LinearOrder K]

/-- What is asked of divisors and of the operands of logarithms makes an application steady. -/
theorem steady_of_operands {f : Application K} {V V' : Nat → OperandValues K}
    (hdiv : ∀ k ∈ f.divisors, (V k).KeepsSign (V' k))
    (hlog : ∀ k ∈ f.logarithms, (V k).Positive ∧ (V' k).Positive) :
    f.op.Steady (f.operands.map V) (f.operands.map V') := by
  obtain ⟨op, plan, operands, scratch⟩ := f
  cases op with
  | arith op =>
    cases op with
    | div =>
      rcases operands with _ | ⟨a, _ | ⟨b, _ | _⟩⟩
      case cons.cons.nil => exact hdiv b (by simp [Application.divisors])
      all_goals trivial
    | _ => trivial
  | reciprocal =>
    rcases operands with _ | ⟨a, _ | _⟩
    case cons.nil => exact hdiv a (by simp [Application.divisors])
    all_goals trivial
  | log2 | ln =>
    rcases operands with _ | ⟨a, _ | _⟩
    case cons.nil =>
      obtain ⟨ha, ha'⟩ := hlog a (by simp [Application.logarithms])
      exact ⟨ha.1, ha'.1⟩
    all_goals trivial
  | _ => trivial

variable [IsStrictOrderedRing K] [Logarithms K] {s : Settings} {nodes : List (Node K)}

section Values

variable (hlog : LogarithmsRise K) (hsign : s.parameterSign = .reduced)
    (hdot : s.dotSign = .nonpositive)
  (hok : NodesOK s nodes)

include hlog hsign hdot hok

/-- **One node rises** where its operands do. -/
theorem function_rises {i : Nat} {n : Node K} {f : Application K} (hn : nodes[i]? = some n)
    (hf : n.kind = .function f) {points points' : Points K} (hin : InputsFit nodes i points)
    (hin' : InputsFit nodes i points') (hsigns : RespectsSigns nodes i points)
    (hsigns' : RespectsSigns nodes i points')
    (hops : ∀ k ∈ f.operands, (denoteBoth nodes points k).Rises (denoteBoth nodes points' k))
    (hdiv : ∀ k ∈ f.divisors, (denoteBoth nodes points k).KeepsSign (denoteBoth nodes points' k))
    (hpos : ∀ k ∈ f.logarithms,
      (denoteBoth nodes points k).Positive ∧ (denoteBoth nodes points' k).Positive) :
    (denoteBoth nodes points i).Rises (denoteBoth nodes points' i) := by
  obtain ⟨hlt, σs, hσs, hfits, -⟩ := hok.application hn hf
  have hbound := fun {p : Points K} (hp : InputsFit nodes i p) (hsp : RespectsSigns nodes i p) =>
    denote_eq_bound hsign hdot hok hn hf hp hsp hσs hfits
  have hsizes := fun {p : Points K} (hp : InputsFit nodes i p) =>
    haveSizes_denoteBoth hok hn hf hp hσs
  constructor
  · rw [denoteBoth_own, denoteBoth_own, hbound hin hsigns, hbound hin' hsigns']
    refine Op.bound_mono hlog hfits (hsizes hin) (hsizes hin') ?_ (steady_of_operands hdiv hpos)
    rw [List.forall₂_map_left_iff, List.forall₂_map_right_iff, List.forall₂_same]
    exact hops
  -- the same with the points in the other order, where all inequalities turn round
  · rw [denoteBoth_swapped, denoteBoth_swapped, hbound hin.flip hsigns.flip,
      hbound hin'.flip hsigns'.flip]
    refine Op.bound_mono hlog hfits (hsizes hin'.flip) (hsizes hin.flip) ?_
      (steady_of_operands (fun k hk => (hdiv k hk).flip)
        fun k hk => ⟨(hpos k hk).2.flip, (hpos k hk).1.flip⟩)
    rw [List.forall₂_map_left_iff, List.forall₂_map_right_iff, List.forall₂_same]
    exact fun k hk => (hops k hk).flip

/-- **Every node rises** with the first point and falls with the second one. -/
theorem denoteBoth_rises {points points' : Points K} (hrise : OperandValues.Rises points points')
    (i : Nat) : ∀ n, nodes[i]? = some n → InputsFit nodes i points → InputsFit nodes i points' →
      RespectsSigns nodes i points → RespectsSigns nodes i points' →
      (∀ k, Below nodes i Application.divisors k →
        (denoteBoth nodes points k).KeepsSign (denoteBoth nodes points' k)) →
      (∀ k, Below nodes i Application.logarithms k →
        (denoteBoth nodes points k).Positive ∧ (denoteBoth nodes points' k).Positive) →
      (denoteBoth nodes points i).Rises (denoteBoth nodes points' i) := by
  induction i using Nat.strong_induction_on with
  | _ i ih =>
    intro n hn hin hin' hsigns hsigns' hdiv hpos
    have hdenote := fun p : Points K => denote_eq hn (hok.before hn) p
    cases hkind : n.kind with
    | parameter | matrixParameter m =>
      -- a constant does not move
      have hconst : denoteBoth nodes points i = denoteBoth nodes points' i := by
        simp only [denoteBoth, hdenote, Node.denotes, hkind]
      exact hconst ▸ .refl _
    | «variable» bounds =>
      -- a variable is the point itself
      have hpoint : ∀ p : Points K, denoteBoth nodes p i = p := by
        intro p
        simp only [denoteBoth, hdenote, Node.denotes, hkind]
        rfl
      rw [hpoint, hpoint]
      exact hrise
    | function f =>
      have hmem : ∀ k ∈ f.operands, k ∈ operandsAt nodes i := fun k => mem_operandsAt hn hkind
      -- what is asked below the node is asked below its operands
      refine function_rises hlog hsign hdot hok hn hkind hin hin' hsigns hsigns' ?_
        (fun k hk => hdiv k (.here hn hkind hk)) (fun k hk => hpos k (.here hn hkind hk))
      intro k hk
      have hlt := (hok.application hn hkind).before k hk
      have hlen := lt_trans hlt (List.getElem?_eq_some_iff.1 hn).1
      exact ih k hlt _ (List.getElem?_eq_getElem hlen) (hin.operand (hmem k hk))
        (hin'.operand (hmem k hk)) (hsigns.operand (hmem k hk)) (hsigns'.operand (hmem k hk))
        (fun l hl => hdiv l (.operand (hmem k hk) hl)) fun l hl => hpos l (.operand (hmem k hk) hl)

end Values

/-! ## Reachable graphs -/

/-- Without a warning, no report says that a tag goes against the signs. -/
theorem reported_of_quiet {t : Settings} {log : List Event}
    (h : (t.parameterSign = .reduced ∧ t.dotSign = .nonpositive) ∨ ∀ e ∈ log, e.level ≠ .warn) :
    SignsReported t log ∧ DotsReported t log := by
  rcases h with ⟨hp, hd⟩ | hquiet
  · exact ⟨.inl hp, .inl hd⟩
  · refine ⟨.inr fun e he hmessage => hquiet e he ?_, .inr fun e he hmessage => hquiet e he ?_⟩
    all_goals cases e <;> simp_all [Event.message, Event.level]

/-- **Every node is mixed monotone.** In a graph built without a warning, or under the rules that
need none, raising the first point and lowering the second one lowers no component of any node,
whatever its tag and in whatever order the two points are. All points have the signs that the
variables declare, divisors keep their signs, and logarithms are taken of positive numbers. -/
theorem answer_mixed_monotone (hlog : LogarithmsRise K) (commands : List (Command K NodeId))
    {g : Nat} {G : Graph K} (hG : (Session.runAll commands {}).graph? g = some G)
    (hquiet : (G.settings.parameterSign = .reduced ∧ G.settings.dotSign = .nonpositive) ∨
      ∀ e ∈ (Session.runAll commands {}).log, e.level ≠ .warn)
    {id : NodeId} {x y x' y' : List K} {i : Nat} (h : G.evaluable id x y = .ok i)
    (h' : G.evaluable id x' y' = .ok i) (hx : List.Forall₂ (· ≤ ·) x x')
    (hy : List.Forall₂ (· ≤ ·) y' y) (hsigns : RespectsSigns G.nodes i ⟨x, y⟩)
    (hsigns' : RespectsSigns G.nodes i ⟨x', y'⟩)
    (hdiv : ∀ k, Below G.nodes i Application.divisors k →
      (denoteBoth G.nodes ⟨x, y⟩ k).KeepsSign (denoteBoth G.nodes ⟨x', y'⟩ k))
    (hpos : ∀ k, Below G.nodes i Application.logarithms k →
      (denoteBoth G.nodes ⟨x, y⟩ k).Positive ∧ (denoteBoth G.nodes ⟨x', y'⟩ k).Positive) :
    ∃ v v', (Graph.evaluate id x y).answer G = .ok v ∧ (Graph.evaluate id x' y').answer G = .ok v' ∧
      List.Forall₂ (· ≤ ·) v v' := by
  have hok := graphOK_runAll hG
  obtain ⟨hsignsReported, hdotsReported⟩ := reported_of_quiet hquiet
  have htrue := hok.truthful hsignsReported hdotsReported
  obtain ⟨hid, hin, -⟩ := (Graph.evaluable_eq_ok hok.arena).1 h
  obtain ⟨-, hin', -⟩ := (Graph.evaluable_eq_ok hok.arena).1 h'
  obtain ⟨n, hn, -⟩ := (hok.arena.table id i).1 hid
  obtain ⟨G₁, hrun, -⟩ := Graph.evaluate_spec hok.arena h
  obtain ⟨G₂, hrun', -⟩ := Graph.evaluate_spec hok.arena h'
  have hrises :=
    denoteBoth_rises hlog rfl rfl htrue.nodes ⟨hx, hy⟩ i n hn hin hin' hsigns hsigns' hdiv hpos
  exact ⟨_, _, Action.answer_eq_ok.2 ⟨G₁, hrun⟩, Action.answer_eq_ok.2 ⟨G₂, hrun'⟩, hrises.own⟩

theorem logarithmsRise_rat : LogarithmsRise ℚ := by
  constructor
  · intro a ha b _ hab
    exact Int.cast_le.2 (Int.log_mono_right ha hab)
  · intro a _ b _ hab
    simp only [Logarithms.ln]
    split <;> split <;> linarith

/-- The quotient of the two components of a variable, less the logarithm of the second one. -/
def monotoneCommands : List (Command ℚ NodeId) :=
  [.newGraph { dotSign := .nonpositive }, .graph 0 (.build (.boundedVariable [1, 2] [4, 8])),
    .graph 0 (.build (.component ⟨1⟩ 0)), .graph 0 (.build (.component ⟨1⟩ 1)),
    .graph 0 (.build (.div ⟨2⟩ ⟨3⟩)), .graph 0 (.build (.log2 ⟨3⟩)),
    .graph 0 (.build (.sub ⟨4⟩ ⟨5⟩))]

/-- Its values rise from one pair of points to another pair, which is out of order. -/
theorem answer_mixed_monotone_div : ∃ G, (Session.runAll monotoneCommands {}).graph? 0 = some G ∧
    ∃ v v', (Graph.evaluate ⟨7⟩ [1, 2] [4, 8]).answer G = .ok v ∧
      (Graph.evaluate ⟨7⟩ [2, 4] [1, 2]).answer G = .ok v' ∧ List.Forall₂ (· ≤ ·) v v' := by
  let G := ((Session.runAll monotoneCommands {}).graph? 0).getD {}
  have hG : (Session.runAll monotoneCommands {}).graph? 0 = some G := by decide +kernel
  have hid : G.arena.position? ⟨7⟩ = some 6 := by decide +kernel
  exact ⟨G, hG,
    answer_mixed_monotone logarithmsRise_rat monotoneCommands hG (.inl (by decide +kernel))
      (evaluable_of_all hG hid (by decide +kernel) rfl)
      (evaluable_of_all hG hid (by decide +kernel) rfl) (by decide +kernel) (by decide +kernel)
      (.of_all (by decide +kernel)) (.of_all (by decide +kernel))
      (Below.of_all (by decide +kernel)) (Below.of_all (by decide +kernel))⟩

end MixedMonotone
