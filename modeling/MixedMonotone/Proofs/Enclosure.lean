import Mathlib
import MixedMonotone.Proofs.DeclaredBox
import MixedMonotone.Proofs.Formula
import MixedMonotone.Proofs.Monotone
import MixedMonotone.Proofs.Variables

/-!
# The objective at the corners encloses its formula

A branch-and-bound solver evaluates the objective at the two corners of a box, once in either order.

* `Box.Contains`, `contains_of_declaredBounds`: a point in the box that a program declares is in the
  box of **every variable**.
* `Node.FromBox`, `Boxed`: a variable with a box and with the tag that follows from it, and nodes of
  which all variables are so; `boxed_runAll`: the nodes of every graph, **if all variables are
  declared with boxes**.
* `denoteBoth_encloses`: what a node denotes at the corners **encloses** what it
  denotes between them.
* `objective_encloses`: so do the objective's answers, and enclose the formula.
-/

namespace MixedMonotone

/-! ## Boxes -/

/-- The point is in the box. -/
structure Box.Contains {α : Type} [LE α] (box : Box α) (z : List α) : Prop where
  lower : List.Forall₂ (· ≤ ·) box.lower z
  upper : List.Forall₂ (· ≤ ·) z box.upper

/-- **A variable with a box**, and with the tag that follows from it. -/
def Node.FromBox {α : Type} [Scalar α] (n : Node α) : Prop :=
  ∃ box ∈ n.bounds?, n.tag = Tag.ofBounds box.lower box.upper

/-- All variables have boxes, and the tags that follow from them. -/
abbrev Boxed {α : Type} [Scalar α] (nodes : List (Node α)) : Prop :=
  ∀ n ∈ nodes, n.isVariable = true → n.FromBox

section Boxed

variable {α : Type} [Scalar α] {nodes nodes' : List (Node α)}

theorem Node.FromBox.of_eq {n m : Node α} (h : n.FromBox) (hbounds : m.bounds? = n.bounds?)
    (htag : m.tag = n.tag) : m.FromBox := by
  unfold FromBox
  rwa [hbounds, htag]

theorem Boxed.copies (h : Boxed nodes) (hcopies : Copies nodes nodes') : Boxed nodes' := by
  intro m hm hv
  obtain ⟨k, hk⟩ := List.mem_iff_getElem?.1 hm
  obtain ⟨i, n, hn, hcopy⟩ := hcopies k m hk
  exact (h n (List.mem_of_getElem? hn) (hcopy.isVariable_eq ▸ hv)).of_eq hcopy.bounds?_eq hcopy.tag

theorem Boxed.alike (h : Boxed nodes) (halike : Alike nodes nodes') : Boxed nodes' := by
  intro m hm hv
  obtain ⟨n, hn, hblank⟩ := halike.symm.mem hm
  have hnv : n.isVariable = true := (Node.eq_of_blank Node.blank_isVariable hblank).trans hv
  exact (h n hn hnv).of_eq (Node.eq_of_blank Node.blank_bounds? hblank.symm)
    (Node.eq_of_blank Node.blank_tag hblank.symm)

/-! ### Runs -/

/-- The declaration has a box, and the tag that follows from it. -/
def VariableSpec.FromBox (v : VariableSpec α) : Prop :=
  ∃ box ∈ v.bounds, v.tag = Tag.ofBounds box.lower box.upper

/-- **Bounded variables** are declared so. -/
theorem VariableSpec.withBounds_fromBox (v : VariableSpec α) (lower upper : List α) :
    (v.withBounds lower upper).FromBox := ⟨⟨lower, upper⟩, rfl, rfl⟩

/-- Where all declarations have boxes, all variables do. -/
theorem Graph.Declared.boxed {specs : List (VariableSpec α)} {g : Graph α} (h : g.Declared specs)
    (hboxes : ∀ v ∈ specs, v.FromBox) : Boxed g.nodes := by
  intro n hn hv
  obtain ⟨v, hmem, hdeclared⟩ := h n hn hv
  obtain ⟨box, hbox, htag⟩ := hboxes v hmem
  exact ⟨box, hdeclared.bounds.trans hbox, hdeclared.tag.trans htag⟩

variable [DecidableEq α]

/-- **If every variable that commands declare has a box**, and no tag of its own, then so has every
variable of a graph that they lead to. -/
theorem boxed_runAll {commands : List (Command α NodeId)}
    (hboxes : ∀ v ∈ declaredVariables commands, v.FromBox) {g : Nat} {G : Graph α}
    (hG : (Session.runAll commands {}).graph? g = some G) : Boxed G.nodes :=
  (variables_declared hG).boxed hboxes

end Boxed

variable {K : Type} [Field K] [LinearOrder K] [Logarithms K]

theorem Box.contains_iff_encloses {box : Box K} {z : List K} : box.Contains z ↔ box.Encloses z := by
  constructor
  · rintro ⟨hl, hu⟩
    exact ⟨by simpa using hl, by simpa using hu.flip⟩
  · rintro ⟨hl, hu⟩
    exact ⟨by simpa using hl, by simpa using hu.flip⟩

/-- **A point in the declared box** of a program is in the box of every variable. -/
theorem contains_of_declaredBounds {s : Settings} {p : Program K} (hok : ProgramOK s p) {z : List K}
    (h : ∀ box ∈ p.declaredBounds, box.Contains z) :
    ∀ n ∈ p.nodes, ∀ box ∈ n.bounds?, box.Contains z := by
  intro n hn box hbox
  have hdeclares : p.Declares box := ⟨n, hn, (bounds_sound hok.nodes hn hbox).1, hbox⟩
  cases hshared : p.declaredBounds with
  | none => exact absurd hdeclares (hok.declaredBounds_eq_none_iff.1 hshared box)
  | some shared =>
    obtain ⟨-, -, -, hspec⟩ := hok.declaredBounds_spec hshared
    have hz := Box.contains_iff_encloses.1 (h shared hshared)
    exact Box.contains_iff_encloses.2 ((hspec z).1 hz box hdeclares)

/-- A point in a box has the sign that the box's tag says. -/
theorem Tag.holds_ofBounds {box : Box K} {z : List K} (h : box.Contains z) :
    ∀ a ∈ z, (Tag.ofBounds box.lower box.upper).Holds a := by
  intro a ha
  unfold Tag.ofBounds
  split
  · rename_i hall
    obtain ⟨l, hl, hla⟩ := forall₂_mem_left h.lower.flip ha
    exact le_trans (Scalar.exact_le.mp (List.all_eq_true.1 hall l hl)) hla
  · split
    · rename_i hall
      obtain ⟨u, hu, hau⟩ := forall₂_mem_left h.upper ha
      exact le_trans hau (Scalar.exact_le.mp (List.all_eq_true.1 hall u hu))
    · trivial

/-- Points in all boxes have the signs that the variables declare. -/
theorem respectsSigns_of_contains {nodes : List (Node K)}
    (hboxed : Boxed nodes) {points : Points K}
    (hown : ∀ n ∈ nodes, ∀ box ∈ n.bounds?, box.Contains points.own)
    (hswapped : ∀ n ∈ nodes, ∀ box ∈ n.bounds?, box.Contains points.swapped) (i : Nat) :
    RespectsSigns nodes i points := by
  refine .of_all fun n hn hv => ?_
  obtain ⟨box, hbox, htag⟩ := hboxed n hn hv
  rw [htag]
  exact ⟨Tag.holds_ofBounds (hown n hn box hbox), Tag.holds_ofBounds (hswapped n hn box hbox)⟩

/-- A program whose variables have boxes accepts points in them. -/
theorem checkInput_of_contains {s : Settings} {p : Program K} (hok : ProgramOK s p)
    (hboxed : Boxed p.nodes) {x y : List K}
    (hx : ∀ n ∈ p.nodes, ∀ box ∈ n.bounds?, box.Contains x) (hlen : x.length = y.length) :
    p.checkInput x y = .ok () := by
  have hexpected : x.length = p.inputDimension.getD x.length := by
    cases hd : p.inputDimension with
    | none => rfl
    | some d =>
      obtain ⟨n, hn, hv⟩ := hok.declared d hd
      obtain ⟨box, hbox, -⟩ := hboxed n hn hv
      have hdim := Option.some.inj ((hok.inputs n hn hv).symm.trans hd)
      have hsound := (bounds_sound hok.nodes hn hbox).2
      rw [Option.getD_some, ← hdim, ← hsound.lower, (hx n hn box hbox).lower.length_eq]
  exact if_pos ⟨hexpected, hlen.symm.trans hexpected⟩

/-! ## Between the corners -/

/-- Where two values stay away from zero on one side, what is between them does. -/
theorem sameSign_between {a b c : K} (haway : 0 < a ∨ b < 0) (hac : a ≤ c) (hcb : c ≤ b) :
    SameSign a c ∧ SameSign c b := by
  rcases haway with ha | hb
  · have hc := lt_of_lt_of_le ha hac
    exact ⟨.inl ⟨ha, hc⟩, .inl ⟨hc, lt_of_lt_of_le hc hcb⟩⟩
  · have hc := lt_of_le_of_lt hcb hb
    exact ⟨.inr ⟨lt_of_le_of_lt hac hc, hc⟩, .inr ⟨hc, hb⟩⟩

theorem forall₂_sameSign_between {lo hi z : List K}
    (haway : List.Forall₂ (fun a b => 0 < a ∨ b < 0) lo hi) (hlo : List.Forall₂ (· ≤ ·) lo z)
    (hhi : List.Forall₂ (· ≤ ·) z hi) :
    List.Forall₂ SameSign lo z ∧ List.Forall₂ SameSign z hi := by
  induction haway generalizing z with
  | nil =>
    cases hlo
    exact ⟨.nil, .nil⟩
  | cons hab _ ih =>
    cases hlo with
    | cons hac hlo =>
      cases hhi with
      | cons hcb hhi =>
        obtain ⟨hsame, hsame'⟩ := sameSign_between hab hac hcb
        obtain ⟨hrest, hrest'⟩ := ih hlo hhi
        exact ⟨.cons hsame hrest, .cons hsame' hrest'⟩

theorem forall₂_pos {l l' : List K} (hle : List.Forall₂ (· ≤ ·) l l') (hl : ∀ a ∈ l, 0 < a) :
    ∀ b ∈ l', 0 < b := by
  intro b hb
  obtain ⟨a, ha, hab⟩ := forall₂_mem_left hle.flip hb
  exact lt_of_lt_of_le (hl a ha) hab

namespace OperandValues.Rises

variable {v w : OperandValues K}

/-- Values away from zero at the corners have one sign there and between. -/
theorem keepsSign (h : v.Rises w) (hdiag : w.IsDiagonal)
    (haway : List.Forall₂ (fun a b => 0 < a ∨ b < 0) v.own v.swapped) : v.KeepsSign w := by
  obtain ⟨own, swapped⟩ := w
  obtain rfl : swapped = own := hdiag
  obtain ⟨hown, hswapped⟩ := forall₂_sameSign_between haway h.own h.swapped
  exact ⟨hown, hswapped⟩

/-- Values that are positive at the lower corner are so at the upper one, and between. -/
theorem positive (h : v.Rises w) (hdiag : w.IsDiagonal) (hpos : ∀ a ∈ v.own, 0 < a) :
    v.Positive ∧ w.Positive := by
  obtain ⟨own, swapped⟩ := w
  obtain rfl : swapped = own := hdiag
  have hw := forall₂_pos h.own hpos
  exact ⟨⟨hpos, forall₂_pos h.swapped hw⟩, hw, hw⟩

end OperandValues.Rises

section Between

variable [IsStrictOrderedRing K] {s : Settings} (hlog : LogarithmsRise K)
  (hsign : s.parameterSign = .reduced) (hdot : s.dotSign = .nonpositive)

include hlog hsign hdot

/-- **What a node denotes at the corners encloses what it denotes between them.** Divisors keep away
from zero at the corners, and logarithms are taken of positive numbers there; the induction is what
carries both to the points between. -/
theorem denoteBoth_encloses {nodes : List (Node K)} (hok : NodesOK s nodes) {lb z ub : List K}
    (hlb : List.Forall₂ (· ≤ ·) lb z) (hub : List.Forall₂ (· ≤ ·) z ub) (i : Nat) :
    ∀ n, nodes[i]? = some n → InputsFit nodes i ⟨lb, ub⟩ → InputsFit nodes i ⟨z, z⟩ →
      RespectsSigns nodes i ⟨lb, ub⟩ → RespectsSigns nodes i ⟨z, z⟩ →
      (∀ k, Below nodes i Application.divisors k →
        List.Forall₂ (fun a b => 0 < a ∨ b < 0) (denote nodes k ⟨lb, ub⟩)
        (denote nodes k ⟨ub, lb⟩)) →
      (∀ k, Below nodes i Application.logarithms k → ∀ a ∈ denote nodes k ⟨lb, ub⟩, 0 < a) →
      (denoteBoth nodes ⟨lb, ub⟩ i).Rises (denoteBoth nodes ⟨z, z⟩ i) := by
  induction i using Nat.strong_induction_on with
  | _ i ih =>
    intro n hn hin hinz hsigns hsignsz hdiv hpos
    -- what is picked below the node is a smaller position, where all hypotheses hold as well
    have hbelow : ∀ pick : Application K → List Nat, (∀ f, pick f ⊆ f.operands) →
        ∀ k, Below nodes i pick k →
          (denoteBoth nodes ⟨lb, ub⟩ k).Rises (denoteBoth nodes ⟨z, z⟩ k) := by
      intro pick hpick k hk
      obtain ⟨hlt, hik⟩ := hk.reached hpick hok.operands_lt
      have hlen := lt_trans hlt (List.getElem?_eq_some_iff.1 hn).1
      exact ih k hlt _ (List.getElem?_eq_getElem hlen) (hin.reaches hik) (hinz.reaches hik)
        (hsigns.reaches hik) (hsignsz.reaches hik) (fun l hl => hdiv l (hl.reaches hik))
        fun l hl => hpos l (hl.reaches hik)
    refine denoteBoth_rises hlog hsign hdot hok ⟨hlb, hub⟩ i n hn hin hinz hsigns hsignsz ?_ ?_
    · intro k hk
      exact (hbelow _ (fun f => f.divisors_subset) k hk).keepsSign rfl (hdiv k hk)
    · intro k hk
      exact (hbelow _ (fun f => f.logarithms_subset) k hk).positive rfl (hpos k hk)

/-- **The objective at the corners** of a box encloses its formula between them. -/
theorem program_encloses {p : Program K} (hok : ProgramOK s p)
    (hboxed : Boxed p.nodes) {lb z ub : List K}
    (hlower : ∀ n ∈ p.nodes, ∀ box ∈ n.bounds?, box.Contains lb)
    (hupper : ∀ n ∈ p.nodes, ∀ box ∈ n.bounds?, box.Contains ub)
    (hlb : List.Forall₂ (· ≤ ·) lb z) (hub : List.Forall₂ (· ≤ ·) z ub)
    (hdiv : ∀ k, Below p.nodes p.root Application.divisors k →
      List.Forall₂ (fun a b => 0 < a ∨ b < 0) (denote p.nodes k ⟨lb, ub⟩)
      (denote p.nodes k ⟨ub, lb⟩))
    (hpos : ∀ k, Below p.nodes p.root Application.logarithms k →
      ∀ a ∈ denote p.nodes k ⟨lb, ub⟩, 0 < a) :
    ∃ lo F hi, formula p.nodes p.root z = [F] ∧ (Program.objective lb ub).answer p = .ok lo ∧
      (Program.objective ub lb).answer p = .ok hi ∧ lo ≤ F ∧ F ≤ hi := by
  -- what is between the corners is in the boxes as well
  have hz : ∀ n ∈ p.nodes, ∀ box ∈ n.bounds?, box.Contains z := fun n hn box hbox =>
    ⟨forall₂_le_trans (hlower n hn box hbox).lower hlb,
      forall₂_le_trans hub (hupper n hn box hbox).upper⟩
  have hlen := hlb.length_eq.trans hub.length_eq
  have haccept := checkInput_of_contains hok hboxed hlower hlen
  have haccept' := checkInput_of_contains hok hboxed hupper hlen.symm
  have hin := hok.inputsFit haccept p.root
  have hinz := hok.inputsFit (checkInput_of_contains hok hboxed hz rfl) p.root
  obtain ⟨n, hn, -⟩ := hok.root
  obtain ⟨lo, p₁, hrun, hlo, -⟩ := Program.objective_spec hok haccept
  obtain ⟨hi, p₂, hrun', hhi, -⟩ := Program.objective_spec hok haccept'
  obtain ⟨hbelow, habove⟩ := denoteBoth_encloses hlog hsign hdot hok.nodes hlb hub p.root n hn hin
    hinz (respectsSigns_of_contains hboxed hlower hupper _)
    (respectsSigns_of_contains hboxed hz hz _) hdiv hpos
  -- in the middle both points are one, and what is denoted there is the formula
  have hvalue := denote_diagonal hok.nodes hn hinz
  change List.Forall₂ _ (denote p.nodes p.root ⟨lb, ub⟩) (denote p.nodes p.root ⟨z, z⟩) at hbelow
  change List.Forall₂ _ (denote p.nodes p.root ⟨z, z⟩) (denote p.nodes p.root ⟨ub, lb⟩) at habove
  rw [hlo, hvalue] at hbelow
  rw [hhi, hvalue] at habove
  obtain ⟨F, hF, hformula⟩ := forall₂_single hbelow.flip
  rw [hformula] at habove
  obtain ⟨hFhi, -⟩ := List.forall₂_cons.1 habove
  exact ⟨lo, F, hi, hformula, Action.answer_eq_ok.2 ⟨p₁, hrun⟩, Action.answer_eq_ok.2 ⟨p₂, hrun'⟩,
    hF, hFhi⟩

end Between

/-! ## Compiled programs -/

/-- **The objective at the corners encloses its formula.** In a graph built without a warning, or
under the rules that need none, let all variables be bounded ones. Then every program compiled from
it, whatever has been evaluated since, answers at the corners of a box inside its declared one with
a bound below and a bound above: what the objective's formula in the graph gives at any point of the
box is between the two. At the corners, divisors stay away from zero and logarithms are taken of
positive numbers. -/
theorem objective_encloses [IsStrictOrderedRing K] (hlog : LogarithmsRise K)
    (commands : List (Command K NodeId)) {g : Nat} {G : Graph K}
    (hG : (Session.runAll commands {}).graph? g = some G)
    (hquiet : (G.settings.parameterSign = .reduced ∧ G.settings.dotSign = .nonpositive) ∨
      ∀ e ∈ (Session.runAll commands {}).log, e.level ≠ .warn)
    (hboxed : Boxed G.nodes) {extraction : Extraction} {root : NodeId}
    {constraints : List Constraint} {P₀ P : Program K}
    (hcompile : G.compile extraction root constraints = .ok P₀) (hP : P₀.blank = P.blank)
    {lb z ub : List K} (hlb : List.Forall₂ (· ≤ ·) lb z) (hub : List.Forall₂ (· ≤ ·) z ub)
    (hinside : ∀ box ∈ P.declaredBounds,
      List.Forall₂ (· ≤ ·) box.lower lb ∧ List.Forall₂ (· ≤ ·) ub box.upper)
    (hdiv : ∀ k, Below P.nodes P.root Application.divisors k →
      List.Forall₂ (fun a b => 0 < a ∨ b < 0) (denote P.nodes k ⟨lb, ub⟩)
      (denote P.nodes k ⟨ub, lb⟩))
    (hpos : ∀ k, Below P.nodes P.root Application.logarithms k →
      ∀ a ∈ denote P.nodes k ⟨lb, ub⟩, 0 < a) :
    ∃ i lo F hi, G.arena.position? root = some i ∧ formula G.nodes i z = [F] ∧
      (Program.objective lb ub).answer P = .ok lo ∧ (Program.objective ub lb).answer P = .ok hi ∧
      lo ≤ F ∧ F ≤ hi := by
  have hok := graphOK_runAll hG
  obtain ⟨hsigns, hdots⟩ := reported_of_quiet hquiet
  have htrue := hok.truthful hsigns hdots
  obtain ⟨hok₀, hcopies, i, hi, hsame⟩ := compile_spec htrue hcompile
  obtain ⟨harena, hroot, -⟩ := Program.blank_eq_iff.1 hP
  have halike : Alike P₀.nodes P.nodes := (Arena.blank_eq_iff.1 harena).1
  have hbox : Boxed P.nodes := (hboxed.copies hcopies).alike halike
  have hokP := hok₀.of_blank_eq hP
  have hlower := contains_of_declaredBounds hokP (z := lb) fun box hb =>
    ⟨(hinside box hb).1, forall₂_le_trans (forall₂_le_trans hlb hub) (hinside box hb).2⟩
  have hupper := contains_of_declaredBounds hokP (z := ub) fun box hb =>
    ⟨forall₂_le_trans (hinside box hb).1 (forall₂_le_trans hlb hub), (hinside box hb).2⟩
  obtain ⟨lo, F, hi', hformula, hlo, hhi, hbelow, habove⟩ :=
    program_encloses hlog rfl rfl hokP hbox hlower hupper hlb hub hdiv hpos
  have hcopied := formula_copy hcopies htrue.ids htrue.nodes hok₀.nodes hsame z
  refine ⟨i, lo, F, hi', hi, ?_, hlo, hhi, hbelow, habove⟩
  rw [← hcopied, formula_alike halike, hroot, hformula]

/-- The one variable is declared with a box. -/
theorem monotoneCommands_boxes : ∀ v ∈ declaredVariables monotoneCommands, v.FromBox := by
  intro v hv
  obtain rfl := List.mem_singleton.1 hv
  exact VariableSpec.withBounds_fromBox _ _ _

/-- A quotient less a logarithm, compiled, at the corners of a box inside the declared one. -/
theorem objective_encloses_div : ∃ G P, (Session.runAll monotoneCommands {}).graph? 0 = some G ∧
    G.compile .everything ⟨7⟩ [] = .ok P ∧
    ∃ lo hi, (Program.objective [1, 2] [2, 8]).answer P = .ok lo ∧
      (Program.objective [2, 8] [1, 2]).answer P = .ok hi ∧ lo ≤ -3 / 2 ∧ -3 / 2 ≤ hi := by
  let G := ((Session.runAll monotoneCommands {}).graph? 0).getD {}
  let P := (G.compile .everything ⟨7⟩ []).toOption.getD ⟨{}, 0, [], none, .rejectZero⟩
  have hG : (Session.runAll monotoneCommands {}).graph? 0 = some G := by decide +kernel
  have hcompile : G.compile .everything ⟨7⟩ [] = .ok P := by decide +kernel
  have hid : G.arena.position? ⟨7⟩ = some 6 := by decide +kernel
  have hvalue : formula G.nodes 6 [2, 4] = [-3 / 2] := by decide +kernel
  have hboxed : Boxed G.nodes := boxed_runAll monotoneCommands_boxes hG
  have hlb : List.Forall₂ (· ≤ ·) ([1, 2] : List ℚ) [2, 4] := by decide +kernel
  have hub : List.Forall₂ (· ≤ ·) ([2, 4] : List ℚ) [2, 8] := by decide +kernel
  obtain ⟨i, lo, F, hi, hi6, hF, hlo, hhi, hbelow, habove⟩ :=
    objective_encloses logarithmsRise_rat monotoneCommands hG (.inl (by decide +kernel)) hboxed
      hcompile rfl hlb hub (by decide +kernel) (Below.of_all (by decide +kernel))
      (Below.of_all (by decide +kernel))
  obtain rfl := Option.some.inj (hid.symm.trans hi6)
  obtain rfl : F = -3 / 2 := by simpa using hF.symm.trans hvalue
  exact ⟨G, P, hG, hcompile, lo, hi, hlo, hhi, hbelow, habove⟩

end MixedMonotone
