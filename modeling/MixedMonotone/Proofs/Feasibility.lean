import Mathlib
import MixedMonotone.Proofs.Atomicity
import MixedMonotone.Proofs.Enclosure

/-!
# Constraints over a box

A branch-and-bound solver discards a box if a constraint fails even at the corners that favour it,
and keeps it whole if the constraint holds even at the corners that do not. Which order of the
corners is which depends on the relation.

* `EnclosingBox`: a box on which the values of a node at the corners enclose those between;
  `EnclosingBox.of_declared`: one inside the boxes that **the variables are declared with**.
* `Graph.fulfilled_eq`: the verdict on a constraint is that of its relation on the pure value.
* `formula_appendDifference`: what a difference means.
* `constraints_compare`: so **a constraint between two nodes compares their values**.
* `constraints_over_box`: **what holds at one order of the corners holds between them**, what holds
  between them holds at the other order, and a constraint between two nodes compares their values.
-/

namespace MixedMonotone

variable {K : Type} [Field K] [LinearOrder K] [Logarithms K]

/-! ## Relations -/

theorem Relation.nonPositive_holds {v : List K} {rule : ZeroRule} :
    nonPositive.holds v rule = true ↔ ∀ a ∈ v, a ≤ 0 := by
  simp [holds, Scalar.lt]

theorem Relation.nonNegative_holds {v : List K} {rule : ZeroRule} :
    nonNegative.holds v rule = true ↔ ∀ a ∈ v, 0 ≤ a := by
  simp [holds, Scalar.lt]

/-- What is nowhere positive stays so where it falls. -/
theorem forall_nonpos_of_le {v w : List K} (h : List.Forall₂ (· ≤ ·) v w) (hw : ∀ a ∈ w, a ≤ 0) :
    ∀ a ∈ v, a ≤ 0 := by
  intro a ha
  obtain ⟨b, hb, hab⟩ := forall₂_mem_left h ha
  exact le_trans hab (hw b hb)

/-- What is nowhere negative stays so where it rises. -/
theorem forall_nonneg_of_le {v w : List K} (h : List.Forall₂ (· ≤ ·) v w) (hv : ∀ a ∈ v, 0 ≤ a) :
    ∀ b ∈ w, 0 ≤ b := by
  intro b hb
  obtain ⟨a, ha, hab⟩ := forall₂_mem_left h.flip hb
  exact le_trans (hv a ha) hab

/-! ## Verdicts -/

/-- The graph says that the constraint holds at the points. -/
def Graph.Fulfils {α : Type} [Scalar α] (g : Graph α) (c : Constraint) (x y : List α) : Prop :=
  (Graph.fulfilled c x y).answer g = .ok true

section Verdicts

variable {α : Type} [Scalar α] {s : Settings} {g : Graph α} {c : Constraint} {x y : List α}

/-- **The verdict** at accepted points is that of the relation on the pure value. -/
theorem Graph.fulfilled_eq (hok : ArenaOK s g.arena) {i : Nat}
    (h : g.evaluable c.node x y = .ok i) : (Graph.fulfilled c x y).answer g =
      .ok (c.relation.holds (denote g.nodes i ⟨x, y⟩) g.settings.zeroRule) := by
  obtain ⟨g', hrun, -⟩ := Graph.evaluate_spec hok h
  refine Action.answer_eq_ok.2 ⟨g', ?_⟩
  rw [Graph.fulfilled, Action.get_bind, Action.bind_of_ok hrun]
  rfl

/-- There is a verdict at accepted points only. -/
theorem Graph.Fulfils.evaluable (h : g.Fulfils c x y) : ∃ i, g.evaluable c.node x y = .ok i := by
  cases hi : g.evaluable c.node x y with
  | ok i => exact ⟨i, rfl⟩
  | error e =>
    have hrun := Graph.evaluate_refused hi
    have hanswer : (Graph.fulfilled c x y).answer g = .error e := by
      refine Action.answer_eq_error.2 ⟨g, ?_⟩
      rw [Graph.fulfilled, Action.get_bind, Action.bind_of_error hrun]
    rw [Graph.Fulfils, hanswer] at h
    cases h

/-- Points of the lengths of accepted ones are accepted, and the verdict is on the same node. -/
theorem Graph.Fulfils.verdict (hok : ArenaOK s g.arena) (h : g.Fulfils c x y) :
    ∃ i n, g.arena.position? c.node = some i ∧ g.nodes[i]? = some n ∧ InputsFit g.nodes i ⟨x, y⟩ ∧
      c.relation.holds (denote g.nodes i ⟨x, y⟩) g.settings.zeroRule = true ∧
      ∀ x' y', x'.length = x.length → y'.length = y.length →
        (g.Fulfils c x' y' ↔
          c.relation.holds (denote g.nodes i ⟨x', y'⟩) g.settings.zeroRule = true) := by
  obtain ⟨i, hi⟩ := h.evaluable
  obtain ⟨hpos, hin, hlen⟩ := (Graph.evaluable_eq_ok hok).1 hi
  obtain ⟨n, hn, -⟩ := (hok.table c.node i).1 hpos
  have hverdict : ∀ x' y', x'.length = x.length → y'.length = y.length →
      (g.Fulfils c x' y' ↔
        c.relation.holds (denote g.nodes i ⟨x', y'⟩) g.settings.zeroRule = true) := by
    intro x' y' hx hy
    have hi' : g.evaluable c.node x' y' = .ok i :=
      (Graph.evaluable_eq_ok hok).2 ⟨hpos, hin.of_lengths hx hy, hx.trans (hlen.trans hy.symm)⟩
    rw [Graph.Fulfils, Graph.fulfilled_eq hok hi', Except.ok.injEq]
  exact ⟨i, n, hpos, hn, hin, (hverdict x y rfl rfl).1 h, hverdict⟩

end Verdicts

/-! ## Boxes -/

/-- **A box on which the values at the corners enclose those between.** It lies inside the declared
box of every variable below the node. At the corners, divisors stay away from zero and logarithms
are taken of positive numbers. -/
structure EnclosingBox (nodes : List (Node K)) (i : Nat) (lb ub : List K) : Prop where
  boxed : ∀ j n, Reaches nodes i j → nodes[j]? = some n → n.isVariable = true → n.FromBox
  inside : ∀ j n, Reaches nodes i j → nodes[j]? = some n → n.isVariable = true → ∀ box ∈ n.bounds?,
    List.Forall₂ (· ≤ ·) box.lower lb ∧ List.Forall₂ (· ≤ ·) ub box.upper
  divisors : ∀ k, Below nodes i Application.divisors k →
    List.Forall₂ (fun a b => 0 < a ∨ b < 0) (denote nodes k ⟨lb, ub⟩) (denote nodes k ⟨ub, lb⟩)
  logarithms : ∀ k, Below nodes i Application.logarithms k → ∀ a ∈ denote nodes k ⟨lb, ub⟩, 0 < a

namespace EnclosingBox

variable {nodes : List (Node K)} {i : Nat} {lb z ub : List K}

/-- **A box inside those of all declarations**, each of which has one, and no tag of its own. -/
theorem of_declared {specs : List (VariableSpec K)} {g : Graph K} (hg : g.Declared specs)
    (hboxes : ∀ v ∈ specs, v.FromBox)
    (hinside : ∀ v ∈ specs, ∀ box ∈ v.bounds,
      List.Forall₂ (· ≤ ·) box.lower lb ∧ List.Forall₂ (· ≤ ·) ub box.upper)
    (hdiv : ∀ k, Below g.nodes i Application.divisors k →
      List.Forall₂ (fun a b => 0 < a ∨ b < 0) (denote g.nodes k ⟨lb, ub⟩)
      (denote g.nodes k ⟨ub, lb⟩))
    (hpos : ∀ k, Below g.nodes i Application.logarithms k →
      ∀ a ∈ denote g.nodes k ⟨lb, ub⟩, 0 < a) :
    EnclosingBox g.nodes i lb ub where
  boxed _ n _ hn := hg.boxed hboxes n (List.mem_of_getElem? hn)
  inside _ n _ hn hv box hbox := by
    obtain ⟨v, hmem, hdeclared⟩ := hg n (List.mem_of_getElem? hn) hv
    exact hinside v hmem box (hdeclared.bounds.symm.trans hbox)
  divisors := hdiv
  logarithms := hpos

/-- Points of the box have the signs that the variables declare. -/
theorem respectsSigns (h : EnclosingBox nodes i lb ub) {x y : List K}
    (hx : List.Forall₂ (· ≤ ·) lb x) (hx' : List.Forall₂ (· ≤ ·) x ub)
    (hy : List.Forall₂ (· ≤ ·) lb y) (hy' : List.Forall₂ (· ≤ ·) y ub) :
    RespectsSigns nodes i ⟨x, y⟩ := by
  intro j n hij hn hv
  obtain ⟨box, hbox, htag⟩ := h.boxed j n hij hn hv
  obtain ⟨hlower, hupper⟩ := h.inside j n hij hn hv box hbox
  have hcontains : ∀ w : List K, List.Forall₂ (· ≤ ·) lb w → List.Forall₂ (· ≤ ·) w ub →
      box.Contains w :=
    fun w hw hw' => ⟨forall₂_le_trans hlower hw, forall₂_le_trans hw' hupper⟩
  rw [htag]
  exact ⟨Tag.holds_ofBounds (hcontains x hx hx'), Tag.holds_ofBounds (hcontains y hy hy')⟩

variable [IsStrictOrderedRing K]

/-- **The values at the corners enclose those between.** -/
theorem encloses (h : EnclosingBox nodes i lb ub) (hlog : LogarithmsRise K) {s : Settings}
    (hsign : s.parameterSign = .reduced) (hdot : s.dotSign = .nonpositive) (hok : NodesOK s nodes)
    {n : Node K} (hn : nodes[i]? = some n) (hlb : List.Forall₂ (· ≤ ·) lb z)
    (hub : List.Forall₂ (· ≤ ·) z ub) (hin : InputsFit nodes i ⟨z, z⟩) :
    List.Forall₂ (· ≤ ·) (denote nodes i ⟨lb, ub⟩) (denote nodes i ⟨z, z⟩) ∧
      List.Forall₂ (· ≤ ·) (denote nodes i ⟨z, z⟩) (denote nodes i ⟨ub, lb⟩) := by
  have hbox := forall₂_le_trans hlb hub
  have hlower : List.Forall₂ (· ≤ ·) lb lb := List.forall₂_same.2 fun _ _ => le_rfl
  have hupper : List.Forall₂ (· ≤ ·) ub ub := List.forall₂_same.2 fun _ _ => le_rfl
  have hcorners : InputsFit nodes i ⟨lb, ub⟩ := hin.of_lengths hlb.length_eq hub.length_eq.symm
  have hrises := denoteBoth_encloses hlog hsign hdot hok hlb hub i n hn hcorners hin
    (h.respectsSigns hlower hbox hbox hupper) (h.respectsSigns hlb hub hlb hub)
    h.divisors h.logarithms
  exact ⟨hrises.own, hrises.swapped⟩

end EnclosingBox

/-! ## Differences -/

/-- What is no matrix means a vector. -/
theorem meaning_of_vector {nodes : List (Node K)} {i : Nat} {n : Node K} (hn : nodes[i]? = some n)
    (hlt : ∀ k ∈ n.operands, k < i) (hmatrix : n.matrix? = none) (z : List K) :
    meaning nodes i z = .vector (formula nodes i z) := by
  rw [formula, meaning_eq hn hlt, Node.means]
  cases hkind : n.kind with
  | matrixParameter m => simp [Node.matrix?, hkind, Kind.matrix?] at hmatrix
  | _ => rfl

/-- The formula of a node has as many components as the node. -/
theorem length_formula [IsStrictOrderedRing K] {s : Settings} {nodes : List (Node K)}
    (hok : NodesOK s nodes) {i : Nat} {n : Node K} (hn : nodes[i]? = some n) {z : List K}
    (hin : InputsFit nodes i ⟨z, z⟩) : (formula nodes i z).length = n.dimension := by
  rw [← denote_diagonal hok hn hin]
  exact length_denote hok _ _ _ hn hin

/-- A sum with a negation of one size is a difference, component by component. -/
theorem plain_add_neg {u v : List K} (h : u.length = v.length) :
    Op.plain (.arith .add) [.vector u, .vector (v.map (- ·))] u.length =
      List.zipWith (· - ·) u v := by
  refine List.ext_getElem (by simp [Op.plain, h]) fun k hk _ => ?_
  have hku : k < u.length := by simpa [Op.plain] using hk
  have hkv : k < v.length := h ▸ hku
  have hindex : (if u.length = 1 then 0 else k) = k := by split <;> omega
  simp only [Op.plain, List.getElem_map, List.getElem_range, List.getElem_zipWith, broadcastAt,
    List.length_map, ← h, hindex, List.getD_eq_getElem?_getD, List.getElem?_map,
    List.getElem?_eq_getElem hku, List.getElem?_eq_getElem hkv, Option.map_some, Option.getD_some]
  exact (sub_eq_add_neg _ _).symm

section Added

variable {b : Builder K} {l r : Operand K} {d : Nat}

/-- The two nodes stand behind all others: first the negation, then the sum. -/
theorem getElem?_appendDifference (b : Builder K) (l r : Operand K) (d : Nat) :
    (b.appendDifference l r d).graph.nodes[b.graph.nodes.length]? = some (b.negationOf r) ∧
      (b.appendDifference l r d).graph.nodes[b.graph.nodes.length + 1]? = some (b.sumOf l r d) := by
  rw [nodes_appendDifference]
  simp

variable (hb : GraphOK b.nextId b.log b.graph) {x y : NodeId} (hl : b.graph.arena.operand x = .ok l)
  (hr : b.graph.arena.operand y = .ok r)
  (hd : broadcast (α := K) .difference l.node.dimension r.node.dimension = .ok d)

include hb hl hr hd

/-- A graph to which a difference was added is well formed. -/
theorem arenaOK_appendDifference :
    ArenaOK (b.appendDifference l r d).graph.settings (b.appendDifference l r d).graph.arena := by
  have hkept := keeps_sub builderOK_keptByAdding x y b ⟨hb, le_rfl, List.Subset.refl b.log⟩
  rw [Action.after_eq_of_ok (sub_eq hb hl hr hd)] at hkept
  exact hkept.graph.arena

/-- **A difference is accepted where both operands are.** -/
theorem evaluable_appendDifference {z : List K} (hlin : InputsFit b.graph.nodes l.position ⟨z, z⟩)
    (hrin : InputsFit b.graph.nodes r.position ⟨z, z⟩) :
    (b.appendDifference l r d).graph.evaluable ⟨b.nextId + 1⟩ z z =
      .ok (b.graph.nodes.length + 1) := by
  have hok := arenaOK_appendDifference hb hl hr hd
  have hnodes := nodes_appendDifference b l r d
  have hlt := hb.nodes.operands_lt
  obtain ⟨hlat, -⟩ := Graph.operand_spec hl
  obtain ⟨hrat, -⟩ := Graph.operand_spec hr
  have hlin' :=
    inputsFit_append hlt [b.negationOf r, b.sumOf l r d] (List.getElem?_eq_some_iff.1 hlat).1 hlin
  have hrin' :=
    inputsFit_append hlt [b.negationOf r, b.sumOf l r d] (List.getElem?_eq_some_iff.1 hrat).1 hrin
  rw [← hnodes] at hlin' hrin'
  obtain ⟨hneg, hsum⟩ := getElem?_appendDifference b l r d
  -- the negation reads the subtrahend, and the sum reads the minuend and the negation
  have hnegin : InputsFit (b.appendDifference l r d).graph.nodes b.graph.nodes.length ⟨z, z⟩ := by
    refine .of_operands hneg rfl fun k hk => ?_
    obtain rfl := List.mem_singleton.1 hk
    exact hrin'
  have hsumin :
      InputsFit (b.appendDifference l r d).graph.nodes (b.graph.nodes.length + 1) ⟨z, z⟩ := by
    refine .of_operands hsum rfl fun k hk => ?_
    rcases List.mem_pair.1 hk with rfl | rfl
    · exact hlin'
    · exact hnegin
  have hpos : (b.appendDifference l r d).graph.arena.position? ⟨b.nextId + 1⟩ =
      some (b.graph.nodes.length + 1) := (hok.table _ _).2 ⟨_, hsum, rfl⟩
  exact (Graph.evaluable_eq_ok hok).2 ⟨hpos, hsumin, rfl⟩

/-- **A difference of nodes of one size means their difference**, component by component. -/
theorem formula_appendDifference [IsStrictOrderedRing K]
    (hsize : l.node.dimension = r.node.dimension) {z : List K}
    (hlin : InputsFit b.graph.nodes l.position ⟨z, z⟩)
    (hrin : InputsFit b.graph.nodes r.position ⟨z, z⟩) :
    formula (b.appendDifference l r d).graph.nodes (b.graph.nodes.length + 1) z =
      List.zipWith (· - ·) (formula b.graph.nodes l.position z)
      (formula b.graph.nodes r.position z) := by
  have hok := arenaOK_appendDifference hb hl hr hd
  have hnodes := nodes_appendDifference b l r d
  obtain ⟨hlat, hlvec⟩ := Graph.operand_spec hl
  obtain ⟨hrat, hrvec⟩ := Graph.operand_spec hr
  obtain ⟨hneg, hsum⟩ := getElem?_appendDifference b l r d
  -- both operands mean what they meant before
  have hold : ∀ {o : Operand K}, o.IsAt b.graph.nodes → o.node.signature.IsVector →
      meaning (b.appendDifference l r d).graph.nodes o.position z =
        .vector (formula b.graph.nodes o.position z) := by
    intro o hat hvec
    rw [← meaning_of_vector hat (hb.nodes.before hat) hvec, hnodes]
    exact congrFun (byOperands_append hb.nodes.operands_lt _ (hnodes ▸ hok.nodes.operands_lt)
      (List.getElem?_eq_some_iff.1 hat).1 _ _) z
  have hllength := length_formula hb.nodes hlat hlin
  have hrlength := length_formula hb.nodes hrat hrin
  have hd : d = l.node.dimension := by
    have hbroadcasts := broadcast_eq_ok hd
    unfold Broadcasts at hbroadcasts
    omega
  have hnegation : meaning (b.appendDifference l r d).graph.nodes b.graph.nodes.length z =
      .vector ((formula b.graph.nodes r.position z).map (- ·)) := by
    rw [meaning_eq hneg (hok.nodes.before hneg)]
    change Meaning.vector (Op.plain .neg [meaning _ r.position z] _) = _
    rw [hold hrat hrvec]
    rfl
  have hdimension : (b.sumOf l r d).dimension = (formula b.graph.nodes l.position z).length := by
    rw [hllength, ← hd]
    exact List.length_replicate
  rw [formula, meaning_eq hsum (hok.nodes.before hsum)]
  change Op.plain (.arith .add) [meaning _ l.position z, meaning _ b.graph.nodes.length z]
    (b.sumOf l r d).dimension = _
  rw [hold hlat hlvec, hnegation, hdimension]
  exact plain_add_neg (by rw [hllength, hrlength, hsize])

/-- **A constraint between two nodes of one size compares their values**: its relation is asked of
the difference of `rhs` and `lhs`. -/
theorem fulfilled_appendDifference [IsStrictOrderedRing K]
    (hsize : l.node.dimension = r.node.dimension) {z : List K}
    (hlin : InputsFit b.graph.nodes l.position ⟨z, z⟩)
    (hrin : InputsFit b.graph.nodes r.position ⟨z, z⟩) (relation : Relation) :
    (Graph.fulfilled ⟨⟨b.nextId + 1⟩, relation⟩ z z).answer (b.appendDifference l r d).graph =
      .ok (relation.holds (List.zipWith (· - ·) (formula b.graph.nodes l.position z)
        (formula b.graph.nodes r.position z)) b.graph.settings.zeroRule) := by
  have hok := arenaOK_appendDifference hb hl hr hd
  have hi := evaluable_appendDifference hb hl hr hd hlin hrin
  obtain ⟨-, hin, -⟩ := (Graph.evaluable_eq_ok hok).1 hi
  obtain ⟨-, hsum⟩ := getElem?_appendDifference b l r d
  have hvalue : denote (b.appendDifference l r d).graph.nodes (b.graph.nodes.length + 1) ⟨z, z⟩ =
      formula (b.appendDifference l r d).graph.nodes (b.graph.nodes.length + 1) z :=
    denote_diagonal hok.nodes hsum hin
  rw [Graph.fulfilled_eq hok hi, hvalue, formula_appendDifference hb hl hr hd hsize hlin hrin]
  rfl

end Added

/-- **A constraint between two nodes of one size is built, and compares them**: at a point which
both accept it holds exactly where their formulas compare so, component by component. -/
theorem constraints_compare [IsStrictOrderedRing K] {b : Builder K}
    (hb : GraphOK b.nextId b.log b.graph) {lhs rhs : NodeId} {l r : Operand K}
    (hl : b.graph.arena.operand lhs = .ok l) (hr : b.graph.arena.operand rhs = .ok r)
    (hsize : l.node.dimension = r.node.dimension) :
    ∃ c c' b', Build.atLeast lhs rhs b = .ok c b' ∧ Build.atMost lhs rhs b = .ok c' b' ∧
      ∀ z i j, b.graph.evaluable lhs z z = .ok i → b.graph.evaluable rhs z z = .ok j →
        (∃ v, (Graph.fulfilled c z z).answer b'.graph = .ok v ∧ (v = true ↔
          List.Forall₂ (· ≥ ·) (formula b.graph.nodes i z) (formula b.graph.nodes j z))) ∧
        ∃ v, (Graph.fulfilled c' z z).answer b'.graph = .ok v ∧ (v = true ↔
          List.Forall₂ (· ≤ ·) (formula b.graph.nodes i z) (formula b.graph.nodes j z)) := by
  have hslack := slack_eq hb hl hr hsize
  refine ⟨_, _, _, Action.bind_of_ok hslack, Action.bind_of_ok hslack, fun z i j hi hj => ?_⟩
  obtain ⟨hipos, hlin, -⟩ := (Graph.evaluable_eq_ok hb.arena).1 hi
  obtain ⟨hjpos, hrin, -⟩ := (Graph.evaluable_eq_ok hb.arena).1 hj
  obtain ⟨hlpos, hlat⟩ := Arena.find_eq_ok (Arena.operand_eq_ok hl).1
  obtain ⟨hrpos, hrat⟩ := Arena.find_eq_ok (Arena.operand_eq_ok hr).1
  obtain rfl := Option.some.inj (hlpos.symm.trans hipos)
  obtain rfl := Option.some.inj (hrpos.symm.trans hjpos)
  have hbroadcast : broadcast (α := K) .difference r.node.dimension l.node.dimension =
      .ok r.node.dimension :=
    if_pos (.inl hsize.symm)
  -- the difference is that of `rhs` and `lhs`, so `lhs` is the larger one where it is not positive
  have hverdict := fulfilled_appendDifference hb hr hl hbroadcast hsize.symm hrin hlin
  have hlengths : (formula b.graph.nodes r.position z).length =
      (formula b.graph.nodes l.position z).length := by
    rw [length_formula hb.nodes hrat hrin, length_formula hb.nodes hlat hlin, hsize]
  refine ⟨⟨_, hverdict .nonPositive, ?_⟩, _, hverdict .nonNegative, ?_⟩
  · rw [Relation.nonPositive_holds,
      forall_zipWith_iff (S := (· ≤ ·)) (fun _ _ => sub_nonpos) hlengths]
    exact ⟨List.Forall₂.flip, List.Forall₂.flip⟩
  · rw [Relation.nonNegative_holds,
      forall_zipWith_iff (S := (· ≥ ·)) (fun _ _ => sub_nonneg) hlengths]
    exact ⟨List.Forall₂.flip, List.Forall₂.flip⟩

/-! ## Reachable graphs -/

section Reachable

variable [IsStrictOrderedRing K] {g : Graph K} {s : Settings}

/-- **At one order of the corners a constraint asks more than between them**, at the other one it
asks less; which is which depends on the relation. -/
theorem fulfils_over_box (hlog : LogarithmsRise K) (hsign : s.parameterSign = .reduced)
    (hdot : s.dotSign = .nonpositive) (hok : ArenaOK s g.arena) {node : NodeId} {lb z ub : List K}
    (hlb : List.Forall₂ (· ≤ ·) lb z) (hub : List.Forall₂ (· ≤ ·) z ub)
    (hbox : ∀ i, g.arena.position? node = some i → EnclosingBox g.nodes i lb ub) :
    ((g.Fulfils ⟨node, .nonPositive⟩ ub lb → g.Fulfils ⟨node, .nonPositive⟩ z z) ∧
      (g.Fulfils ⟨node, .nonPositive⟩ z z → g.Fulfils ⟨node, .nonPositive⟩ lb ub)) ∧
    (g.Fulfils ⟨node, .nonNegative⟩ lb ub → g.Fulfils ⟨node, .nonNegative⟩ z z) ∧
      (g.Fulfils ⟨node, .nonNegative⟩ z z → g.Fulfils ⟨node, .nonNegative⟩ ub lb) := by
  have hl := hlb.length_eq
  have hu := hub.length_eq
  have hencloses : ∀ {i n x y}, g.arena.position? node = some i → g.nodes[i]? = some n →
      InputsFit g.nodes i ⟨x, y⟩ → z.length = x.length → z.length = y.length →
      List.Forall₂ (· ≤ ·) (denote g.nodes i ⟨lb, ub⟩) (denote g.nodes i ⟨z, z⟩) ∧
        List.Forall₂ (· ≤ ·) (denote g.nodes i ⟨z, z⟩) (denote g.nodes i ⟨ub, lb⟩) := by
    intro i n x y hi hn hin hx hy
    have hinz : InputsFit g.nodes i ⟨z, z⟩ := hin.of_lengths hx hy
    exact (hbox i hi).encloses hlog hsign hdot hok.nodes hn hlb hub hinz
  refine ⟨⟨fun h => ?_, fun h => ?_⟩, fun h => ?_, fun h => ?_⟩
  all_goals obtain ⟨i, n, hi, hn, hin, hholds, hverdict⟩ := h.verdict hok
  · obtain ⟨-, habove⟩ := hencloses hi hn hin hu hl.symm
    rw [hverdict z z hu hl.symm, Relation.nonPositive_holds]
    exact forall_nonpos_of_le habove (Relation.nonPositive_holds.1 hholds)
  · obtain ⟨hbelow, -⟩ := hencloses hi hn hin rfl rfl
    rw [hverdict lb ub hl hu.symm, Relation.nonPositive_holds]
    exact forall_nonpos_of_le hbelow (Relation.nonPositive_holds.1 hholds)
  · obtain ⟨hbelow, -⟩ := hencloses hi hn hin hl.symm hu
    rw [hverdict z z hl.symm hu, Relation.nonNegative_holds]
    exact forall_nonneg_of_le hbelow (Relation.nonNegative_holds.1 hholds)
  · obtain ⟨-, habove⟩ := hencloses hi hn hin rfl rfl
    rw [hverdict ub lb hu.symm hl, Relation.nonNegative_holds]
    exact forall_nonneg_of_le habove (Relation.nonNegative_holds.1 hholds)

/-- **Constraints over a box.** Let a graph be built without a warning, or under the rules that need
none. On a box inside the declared boxes of all variables below a node, where divisors stay away
from zero and logarithms are taken of positive numbers, let `z` be any point. A constraint that the
node is not positive holds at `z` if it holds at the upper corner against the lower one, and if it
holds at `z` it does so at the lower corner against the upper one; for the constraint that it is not
negative, the corners change places. Whatever the settings, two nodes of one size can be put into a
constraint, and that holds at a point which both accept exactly where their formulas compare so,
component by component. -/
theorem constraints_over_box (hlog : LogarithmsRise K) (commands : List (Command K NodeId))
    {g : Nat} {b : Builder K} (hb : (Session.runAll commands {}).builder? g = some b) :
    (((b.graph.settings.parameterSign = .reduced ∧ b.graph.settings.dotSign = .nonpositive) ∨
        ∀ e ∈ b.log, e.level ≠ .warn) →
      ∀ node lb z ub, List.Forall₂ (· ≤ ·) lb z → List.Forall₂ (· ≤ ·) z ub →
        (∀ i, b.graph.arena.position? node = some i → EnclosingBox b.graph.nodes i lb ub) →
        ((b.graph.Fulfils ⟨node, .nonPositive⟩ ub lb → b.graph.Fulfils ⟨node, .nonPositive⟩ z z) ∧
          (b.graph.Fulfils ⟨node, .nonPositive⟩ z z → b.graph.Fulfils ⟨node, .nonPositive⟩ lb ub)) ∧
        (b.graph.Fulfils ⟨node, .nonNegative⟩ lb ub → b.graph.Fulfils ⟨node, .nonNegative⟩ z z) ∧
          (b.graph.Fulfils ⟨node, .nonNegative⟩ z z → b.graph.Fulfils ⟨node, .nonNegative⟩ ub lb)) ∧
    ∀ lhs rhs l r, b.graph.arena.operand lhs = .ok l → b.graph.arena.operand rhs = .ok r →
      l.node.dimension = r.node.dimension → ∃ c c' b', Build.atLeast lhs rhs b = .ok c b' ∧
        Build.atMost lhs rhs b = .ok c' b' ∧
        ∀ z i j, b.graph.evaluable lhs z z = .ok i → b.graph.evaluable rhs z z = .ok j →
          (∃ v, (Graph.fulfilled c z z).answer b'.graph = .ok v ∧ (v = true ↔
            List.Forall₂ (· ≥ ·) (formula b.graph.nodes i z) (formula b.graph.nodes j z))) ∧
          ∃ v, (Graph.fulfilled c' z z).answer b'.graph = .ok v ∧ (v = true ↔
            List.Forall₂ (· ≤ ·) (formula b.graph.nodes i z) (formula b.graph.nodes j z)) := by
  have hok := builderOK_runAll hb
  constructor
  · intro hquiet node lb z ub hlb hub hbox
    obtain ⟨hsigns, hdots⟩ := reported_of_quiet hquiet
    exact fulfils_over_box hlog rfl rfl (hok.truthful hsigns hdots) hlb hub hbox
  · exact fun lhs rhs l r hl hr hsize => constraints_compare hok hl hr hsize

end Reachable

/-- A quotient less a logarithm is nowhere positive on a box, since it is not at the upper corner
against the lower one. Of the two components, the first one is the smaller one at a point. -/
theorem constraints_over_box_div :
    ∃ b, (Session.runAll monotoneCommands {}).builder? 0 = some b ∧
      (∀ z, List.Forall₂ (· ≤ ·) [1, 2] z → List.Forall₂ (· ≤ ·) z [2, 8] →
        b.graph.Fulfils ⟨⟨7⟩, .nonPositive⟩ z z) ∧
      ∃ c c' b', Build.atLeast ⟨2⟩ ⟨3⟩ b = .ok c b' ∧ Build.atMost ⟨2⟩ ⟨3⟩ b = .ok c' b' ∧
        ¬ b'.graph.Fulfils c [2, 4] [2, 4] ∧ b'.graph.Fulfils c' [2, 4] [2, 4] := by
  obtain ⟨b, hb, hsettings, hlengths, hcorner, hdiv, hpos, ⟨n, hn, m, hm, hcomponents⟩, hvalues⟩ :
      ∃ b, (Session.runAll monotoneCommands {}).builder? 0 = some b ∧
        (b.graph.settings.parameterSign = .reduced ∧ b.graph.settings.dotSign = .nonpositive) ∧
        (∀ n ∈ b.graph.nodes, n.isVariable = true → n.dimension = 2) ∧
        (b.graph.arena.position? ⟨7⟩ = some 6 ∧ denote b.graph.nodes 6 ⟨[2, 8], [1, 2]⟩ = [0]) ∧
        (∀ n ∈ b.graph.nodes, ∀ k ∈ n.picked Application.divisors,
          List.Forall₂ (fun a b => 0 < a ∨ b < 0)
          (denote b.graph.nodes k ⟨[1, 2], [2, 8]⟩) (denote b.graph.nodes k ⟨[2, 8], [1, 2]⟩)) ∧
        (∀ n ∈ b.graph.nodes, ∀ k ∈ n.picked Application.logarithms,
          ∀ a ∈ denote b.graph.nodes k ⟨[1, 2], [2, 8]⟩, 0 < a) ∧
        (∃ n ∈ b.graph.nodes[1]?, ∃ m ∈ b.graph.nodes[2]?, (n.id = ⟨2⟩ ∧ m.id = ⟨3⟩) ∧
          (n.isMatrix = false ∧ m.isMatrix = false) ∧ n.dimension = m.dimension) ∧
        formula b.graph.nodes 1 [2, 4] = [2] ∧ formula b.graph.nodes 2 [2, 4] = [4] :=
    ⟨((Session.runAll monotoneCommands {}).builder? 0).getD ⟨{}, 0, []⟩, by decide +kernel⟩
  obtain ⟨⟨hnid, hmid⟩, ⟨hnvec, hmvec⟩, hsize⟩ := hcomponents
  obtain ⟨hnvalue, hmvalue⟩ := hvalues
  obtain ⟨hobjective, hzero⟩ := hcorner
  have hok := builderOK_runAll hb
  -- all variables have two components, so points with two components are accepted
  have haccept : ∀ {id : NodeId} {i : Nat} {x y : List ℚ}, b.graph.arena.position? id = some i →
      x.length = 2 → y.length = 2 → b.graph.evaluable id x y = .ok i := by
    intro id i x y hid hx hy
    refine (Graph.evaluable_eq_ok hok.arena).2 ⟨hid, fun j k hij hk hv => ?_, hx.trans hy.symm⟩
    rw [hlengths k (List.mem_of_getElem? hk) hv]
    exact ⟨hx, hy⟩
  have hl : b.graph.arena.operand ⟨2⟩ = .ok ⟨1, n⟩ :=
    hok.arena.operand_eq_ok_iff.2 ⟨hn, hnid, hnvec⟩
  have hr : b.graph.arena.operand ⟨3⟩ = .ok ⟨2, m⟩ :=
    hok.arena.operand_eq_ok_iff.2 ⟨hm, hmid, hmvec⟩
  have hdeclared : b.graph.Declared (declaredVariables monotoneCommands) := by
    obtain ⟨G, hG, rfl⟩ := Option.map_eq_some_iff.1 hb
    exact variables_declared hG
  -- the box lies inside the one that the variable is declared with
  have hinside : ∀ v ∈ declaredVariables monotoneCommands, ∀ box ∈ v.bounds,
      List.Forall₂ (· ≤ ·) box.lower [1, 2] ∧ List.Forall₂ (· ≤ ·) [2, 8] box.upper := by
        decide +kernel
  have hupper : b.graph.Fulfils ⟨⟨7⟩, .nonPositive⟩ [2, 8] [1, 2] := by
    rw [Graph.Fulfils, Graph.fulfilled_eq hok.arena (haccept hobjective rfl rfl), hzero]
    rfl
  obtain ⟨hover, hcompare⟩ := constraints_over_box logarithmsRise_rat monotoneCommands hb
  obtain ⟨c, c', b', hc, hc', hverdicts⟩ := hcompare ⟨2⟩ ⟨3⟩ _ _ hl hr hsize
  obtain ⟨⟨v, hv, hvtrue⟩, w, hw, hwtrue⟩ := hverdicts [2, 4] 1 2
    (haccept ((hok.arena.table _ _).2 ⟨n, hn, hnid⟩) rfl rfl)
    (haccept ((hok.arena.table _ _).2 ⟨m, hm, hmid⟩) rfl rfl)
  rw [hnvalue, hmvalue] at hvtrue hwtrue
  refine ⟨b, hb, fun z hlb hub => ?_, c, c', b', hc, hc', ?_, ?_⟩
  · have hbox : ∀ i, EnclosingBox b.graph.nodes i [1, 2] [2, 8] := fun i =>
      .of_declared hdeclared monotoneCommands_boxes hinside (Below.of_all hdiv) (Below.of_all hpos)
    obtain ⟨⟨hdown, -⟩, -⟩ := hover (.inl hsettings) ⟨7⟩ _ z _ hlb hub fun i _ => hbox i
    exact hdown hupper
  · rw [Graph.Fulfils, hv, Except.ok.injEq, hvtrue]
    decide
  · rw [Graph.Fulfils, hw, Except.ok.injEq, hwtrue]
    decide

end MixedMonotone
