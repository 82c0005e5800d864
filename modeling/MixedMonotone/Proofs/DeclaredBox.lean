import Mathlib
import MixedMonotone.Proofs.Histories
import MixedMonotone.Proofs.NumericOrder

/-!
# The box that a program declares

Where comparisons order the numbers, the declared bounds of a program are **the intersection** of
the boxes of its variables.

* `Box.Encloses`: a point between the corners of a box.
* `Box.encloses_intersect`, `Box.encloses_foldl`: two boxes, and any number of them, share the
  points that are in all.
* `ProgramOK.sound_of_declares`: all boxes of a program have **one dimension**, that of its inputs.
* `declared_bounds_intersect`: the declared bounds, whatever happened before.
-/

namespace MixedMonotone

variable {α : Type}

namespace Box

variable [Scalar α]

/-- **The point is between the corners**, component by component. -/
structure Encloses (box : Box α) (z : List α) : Prop where
  lower : List.Forall₂ (fun l c => Scalar.le l c = true) box.lower z
  upper : List.Forall₂ (fun u c => Scalar.le c u = true) box.upper z

instance (box : Box α) (z : List α) : Decidable (box.Encloses z) :=
  decidable_of_iff (List.Forall₂ (fun l c => Scalar.le l c = true) box.lower z ∧
    List.Forall₂ (fun u c => Scalar.le c u = true) box.upper z) ⟨fun h => ⟨h.1, h.2⟩,
    fun h => ⟨h.lower, h.upper⟩⟩

/-- The corners have the given dimension, and their components are numbers. They may be in no order,
as those of an empty intersection are. -/
structure Numeric (box : Box α) (d : Nat) : Prop where
  lower : box.lower.length = d
  upper : box.upper.length = d
  lowerNumbers : ∀ l ∈ box.lower, Scalar.IsNumber l
  upperNumbers : ∀ u ∈ box.upper, Scalar.IsNumber u

variable [OrderedScalar α] {a b box : Box α} {d : Nat}

theorem Sound.numeric (h : box.Sound d) : box.Numeric d := by
  refine ⟨h.lower, h.upper, fun l hl => ?_, fun u hu => ?_⟩
  · obtain ⟨u, -, hle⟩ := forall₂_mem_left h.ordered hl
    exact OrderedScalar.le_left l u hle
  · obtain ⟨l, -, hle⟩ := forall₂_mem_left h.ordered.flip hu
    exact OrderedScalar.le_right l u hle

theorem Numeric.intersect (ha : a.Numeric d) (hb : b.Numeric d) : (a.intersect b).Numeric d where
  lower := by simp [Box.intersect, ha.lower, hb.lower]
  upper := by simp [Box.intersect, ha.upper, hb.upper]
  lowerNumbers :=
    forall_mem_zipWith (fun _ _ => Scalar.isNumber_max) ha.lowerNumbers hb.lowerNumbers
  upperNumbers :=
    forall_mem_zipWith (fun _ _ => Scalar.isNumber_min) ha.upperNumbers hb.upperNumbers

/-- **Two boxes share the points that are in both.** -/
theorem encloses_intersect (ha : a.Numeric d) (hb : b.Numeric d) {z : List α} :
    (a.intersect b).Encloses z ↔ a.Encloses z ∧ b.Encloses z := by
  have hlower := forall₂_zipWith_iff (c := z) (S := fun l c => Scalar.le l c = true)
    (fun _ _ _ => Scalar.max_le_iff) (ha.lower.trans hb.lower.symm) ha.lowerNumbers hb.lowerNumbers
  have hupper := forall₂_zipWith_iff (c := z) (S := fun u c => Scalar.le c u = true)
    (fun _ _ _ => Scalar.le_min_iff) (ha.upper.trans hb.upper.symm) ha.upperNumbers hb.upperNumbers
  constructor
  · rintro ⟨hl, hu⟩
    obtain ⟨hal, hbl⟩ := hlower.1 hl
    obtain ⟨hau, hbu⟩ := hupper.1 hu
    exact ⟨⟨hal, hau⟩, hbl, hbu⟩
  · rintro ⟨⟨hal, hau⟩, hbl, hbu⟩
    exact ⟨hlower.2 ⟨hal, hbl⟩, hupper.2 ⟨hau, hbu⟩⟩

/-- **What all boxes share**, intersected one after the other. -/
theorem encloses_foldl (boxes : List (Box α)) : ∀ box : Box α, (∀ b ∈ box :: boxes, b.Numeric d) →
    (boxes.foldl intersect box).Numeric d ∧
      ∀ z, (boxes.foldl intersect box).Encloses z ↔ ∀ b ∈ box :: boxes, b.Encloses z := by
  induction boxes with
  | nil =>
    intro box h
    obtain ⟨hbox, -⟩ := List.forall_mem_cons.1 h
    exact ⟨hbox, fun z => by simp⟩
  | cons next boxes ih =>
    intro box h
    obtain ⟨hbox, h⟩ := List.forall_mem_cons.1 h
    obtain ⟨hnext, h⟩ := List.forall_mem_cons.1 h
    obtain ⟨hnumeric, hshared⟩ :=
      ih (box.intersect next) (List.forall_mem_cons.2 ⟨hbox.intersect hnext, h⟩)
    refine ⟨hnumeric, fun z => (hshared z).trans ?_⟩
    rw [List.forall_mem_cons, List.forall_mem_cons, List.forall_mem_cons,
      encloses_intersect hbox hnext, and_assoc]

/-- **The lower corner** of a box with a point in it is in it. -/
theorem Numeric.encloses_lower (h : box.Numeric d) {z : List α} (hz : box.Encloses z) :
    box.Encloses box.lower where
  lower := List.forall₂_same.2 h.lowerNumbers
  upper := forall₂_comp hz.upper hz.lower.flip fun u c l hcu hlc =>
    OrderedScalar.le_trans l c u hlc hcu

end Box

/-! ## Programs -/

section Programs

variable [Scalar α] {s : Settings} {P : Program α}

/-- **A variable of the program has the box.** -/
def Program.Declares (P : Program α) (box : Box α) : Prop :=
  ∃ n ∈ P.nodes, n.isVariable = true ∧ n.bounds? = some box

theorem bounds_sound {nodes : List (Node α)} (hok : NodesOK s nodes) {n : Node α} (hn : n ∈ nodes)
    {box : Box α} (hbox : n.bounds? = some box) :
    n.isVariable = true ∧ box.Sound n.dimension := by
  obtain ⟨i, hi⟩ := List.mem_iff_getElem?.1 hn
  have hnode := hok i n hi
  unfold NodeOK at hnode
  unfold Node.bounds? at hbox
  unfold Node.isVariable
  cases hkind : n.kind with
  | «variable» bounds =>
    rw [hkind] at hnode hbox
    exact ⟨rfl, hnode.2 box hbox⟩
  | _ => rw [hkind] at hbox; cases hbox

namespace ProgramOK

variable {box : Box α}

theorem declares_iff (h : ProgramOK s P) : P.Declares box ↔
    box ∈ P.nodes.filterMap Node.bounds? := by
  rw [List.mem_filterMap]
  exact exists_congr fun n => and_congr_right fun hn =>
    ⟨And.right, fun hbox => ⟨(bounds_sound h.nodes hn hbox).1, hbox⟩⟩

/-- The boxes of a program have **one dimension**, that of its inputs. -/
theorem sound_of_declares (h : ProgramOK s P) (hbox : P.Declares box) :
    ∃ d, P.inputDimension = some d ∧ box.Sound d := by
  obtain ⟨n, hn, hv, hb⟩ := hbox
  exact ⟨n.dimension, h.inputs n hn hv, (bounds_sound h.nodes hn hb).2⟩

/-- **No box is declared** where no variable has one. -/
theorem declaredBounds_eq_none_iff (h : ProgramOK s P) :
    P.declaredBounds = none ↔ ∀ box, ¬ P.Declares box := by
  simp only [h.declares_iff, ← List.eq_nil_iff_forall_not_mem]
  unfold Program.declaredBounds
  cases P.nodes.filterMap Node.bounds? with
  | nil => simp
  | cons box boxes => simp

variable [OrderedScalar α] {shared : Box α}

/-- **The declared box is the intersection** of those that the variables have. -/
theorem declaredBounds_spec (h : ProgramOK s P) (hshared : P.declaredBounds = some shared) :
    ∃ d, P.inputDimension = some d ∧ shared.Numeric d ∧
      ∀ z, shared.Encloses z ↔ ∀ box, P.Declares box → box.Encloses z := by
  simp only [h.declares_iff]
  have hsound : ∀ b ∈ P.nodes.filterMap Node.bounds?, ∃ d, P.inputDimension = some d ∧ b.Sound d :=
    fun b hb => h.sound_of_declares (h.declares_iff.2 hb)
  unfold Program.declaredBounds at hshared
  cases hboxes : P.nodes.filterMap Node.bounds? with
  | nil => simp [hboxes] at hshared
  | cons first rest =>
    rw [hboxes] at hshared hsound
    obtain rfl := Option.some.inj hshared
    obtain ⟨d, hd, -⟩ := hsound first List.mem_cons_self
    -- all boxes are as long as the first, so the intersection cuts none of them short
    have hnumeric : ∀ b ∈ first :: rest, b.Numeric d := by
      intro b hb
      obtain ⟨d', hd', hb⟩ := hsound b hb
      obtain rfl := Option.some.inj (hd.symm.trans hd')
      exact hb.numeric
    exact ⟨d, hd, Box.encloses_foldl rest first hnumeric⟩

/-- **The point from which a search starts** is in every box, if any point is. -/
theorem feasiblePoint_encloses (h : ProgramOK s P) (hshared : P.declaredBounds = some shared)
    {z : List α} (hz : ∀ box, P.Declares box → box.Encloses z) :
    ∀ box, P.Declares box → box.Encloses (P.feasiblePoint shared.lower shared.upper) := by
  obtain ⟨d, -, hnumeric, hspec⟩ := h.declaredBounds_spec hshared
  exact (hspec _).1 (hnumeric.encloses_lower ((hspec z).2 hz))

end ProgramOK

end Programs

/-- **The declared bounds are the intersection** of the boxes that the variables of a program have.
There are none if and only if no variable has a box; otherwise both corners are as long as the
inputs, and a point is between them if and only if it is in every box. If any point is, the one from
which a search starts is. -/
theorem declared_bounds_intersect [Scalar α] [DecidableEq α] [OrderedScalar α]
    (commands : List (Command α NodeId)) {g p : Nat} {P : Program α}
    (hP : (Session.runAll commands {}).program? g p = some P) :
    (P.declaredBounds = none ↔ ∀ box, ¬ P.Declares box) ∧
    ∀ shared, P.declaredBounds = some shared →
      P.inputDimension = some shared.lower.length ∧ P.inputDimension = some shared.upper.length ∧
      (∀ z, shared.Encloses z ↔ ∀ box, P.Declares box → box.Encloses z) ∧
      ((∃ z, ∀ box, P.Declares box → box.Encloses z) →
        ∀ box, P.Declares box → box.Encloses (P.feasiblePoint shared.lower shared.upper)) := by
  obtain ⟨s, hok⟩ := programOK_runAll hP
  refine ⟨hok.declaredBounds_eq_none_iff, fun shared hshared => ?_⟩
  obtain ⟨d, hd, hnumeric, hspec⟩ := hok.declaredBounds_spec hshared
  refine ⟨by rw [hd, hnumeric.lower], by rw [hd, hnumeric.upper], hspec, ?_⟩
  rintro ⟨z, hz⟩
  exact hok.feasiblePoint_encloses hshared hz

/-- A variable without a box between two whose boxes have infinite ends. -/
def halfOpenCommands : List (Command Float NodeId) :=
  [.newGraph {}, .graph 0 (.build (.boundedVariable [0, -1 / 0] [1 / 0, 5])),
    .graph 0 (.build (.taggedVariable 2 .unknown)),
    .graph 0 (.build (.boundedVariable [1, 1] [2, 1 / 0])),
    .graph 0 (.build (.add ⟨1⟩ ⟨2⟩)), .graph 0 (.build (.add ⟨4⟩ ⟨3⟩)),
    .graph 0 (.build (.sum ⟨5⟩)), .graph 0 (.compile .everything ⟨6⟩ [])]

/-- The point `(2, 5)` is in both boxes, and so is the one from which a search starts; `(3, 5)`
is outside of one. -/
theorem declared_bounds_intersect_half_open :
    ∃ P, (Session.runAll halfOpenCommands {}).program? 0 0 = some P ∧
    P.declaredBounds = some ⟨[1, 1], [2, 5]⟩ ∧ (∀ box, P.Declares box → box.Encloses [2, 5]) ∧
    (∃ box, P.Declares box ∧ ¬ box.Encloses [3, 5]) ∧
    ∀ box, P.Declares box → box.Encloses (P.feasiblePoint [1, 1] [2, 5]) := by
  obtain ⟨P, hP, hbounds⟩ : ∃ P, (Session.runAll halfOpenCommands {}).program? 0 0 = some P ∧
      P.declaredBounds = some ⟨[1, 1], [2, 5]⟩ :=
    ⟨((Session.runAll halfOpenCommands {}).program? 0 0).getD ⟨{}, 0, [], none, .rejectZero⟩,
      by decide +kernel⟩
  obtain ⟨-, hsome⟩ := declared_bounds_intersect halfOpenCommands hP
  obtain ⟨-, -, hspec, hfeasible⟩ := hsome _ hbounds
  have hinside : ∀ box, P.Declares box → box.Encloses [2, 5] := (hspec [2, 5]).1 (by decide +kernel)
  have houtside : ¬ ∀ box, P.Declares box → box.Encloses [3, 5] :=
    fun h => absurd ((hspec _).2 h) (by decide +kernel)
  push Not at houtside
  exact ⟨P, hP, hbounds, hinside, houtside, hfeasible ⟨[2, 5], hinside⟩⟩

end MixedMonotone
