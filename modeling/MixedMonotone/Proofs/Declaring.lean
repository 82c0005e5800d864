import Mathlib
import MixedMonotone.Binary64.Scalar
import MixedMonotone.Proofs.Compaction

/-!
# Declaring a variable step by step

A declaration may set the tag and the box again and again, and the box sets the dimension and the
tag as well. What comes last wins, one field at a time.

* `VariableSpec.Step`, `VariableSpec.declare`: the steps, and a declaration as a sequence of them.
* `VariableSpec.declare_tags`, `VariableSpec.exists_last_box`: the tags after the last box
  **overwrite** the tag that it has set, and nothing else.
* `Tag.Suits`: a tag that promises no sign which the box does not have;
  `Tag.ofBounds_suits`: the tag of the box.
* `declared_box_is_last`: the variable that is added. Its tag suits its box **if the box
  is the last step**, and `tag_after_box_unsuited` is a declaration with a tag behind the
  box, where it does not.
-/

namespace MixedMonotone

variable {α : Type} [Scalar α]

namespace VariableSpec

/-- A step of a declaration. -/
inductive Step (α : Type) where
  | nonneg
  | nonpos
  | tag (t : Tag)
  /-- Confine the variable to a box. -/
  | bounds (lower upper : List α)
  deriving DecidableEq

/-- The tag that a step declares; a box brings its own. -/
def Step.tag? : Step α → Option Tag
  | nonneg => some .nonneg
  | nonpos => some .nonpos
  | tag t => some t
  | bounds .. => none

/-- The declaration after one more step. -/
def step (v : VariableSpec α) : Step α → VariableSpec α
  | .nonneg => v.withTag .nonneg
  | .nonpos => v.withTag .nonpos
  | .tag t => v.withTag t
  | .bounds lower upper => v.withBounds lower upper

/-- **The declaration after all steps**, in order. -/
def declare (v : VariableSpec α) (steps : List (Step α)) : VariableSpec α := steps.foldl step v

theorem declare_concat (v : VariableSpec α) (steps : List (Step α)) (s : Step α) :
    v.declare (steps ++ [s]) = (v.declare steps).step s := List.foldl_concat ..

/-- A step sets a tag or a box. -/
theorem step_cases (v : VariableSpec α) (s : Step α) :
    (∃ t, s.tag? = some t ∧ v.step s = v.withTag t) ∨
      ∃ lower upper, s = .bounds lower upper ∧ v.step s = v.withBounds lower upper := by
  cases s with
  | nonneg => exact .inl ⟨_, rfl, rfl⟩
  | nonpos => exact .inl ⟨_, rfl, rfl⟩
  | tag t => exact .inl ⟨t, rfl, rfl⟩
  | bounds lower upper => exact .inr ⟨lower, upper, rfl, rfl⟩

/-- **Of several tags the last one stays**, and the box is not touched. -/
theorem declare_tags (v : VariableSpec α) (steps : List (Step α))
    (htags : ∀ s ∈ steps, s.tag? ≠ none) :
    v.declare steps = v.withTag ((steps.getLast?.bind Step.tag?).getD v.tag) := by
  induction steps using List.reverseRecOn with
  | nil => rfl
  | append_singleton steps s ih =>
    have hlast : s.tag? ≠ none := htags s (by simp)
    have hrest := ih fun s' hs' => htags s' (List.mem_append_left _ hs')
    rw [declare_concat]
    rcases v.declare steps |>.step_cases s with ⟨t, ht, hstep⟩ | ⟨lower, upper, rfl, -⟩
    · rw [hstep, hrest, List.getLast?_concat, Option.bind_some, ht]
      rfl
    · exact absurd rfl hlast

/-- **The box of a declaration is the last one given**, and only tags come after it. -/
theorem exists_last_box {v : VariableSpec α} (hv : v.bounds = none) {steps : List (Step α)}
    {box : Box α} (hbox : (v.declare steps).bounds = some box) :
    ∃ earlier later, steps = earlier ++ .bounds box.lower box.upper :: later ∧
      ∀ s ∈ later, s.tag? ≠ none := by
  induction steps using List.reverseRecOn with
  | nil => exact absurd (hv.symm.trans hbox) nofun
  | append_singleton steps s ih =>
    rw [declare_concat] at hbox
    rcases v.declare steps |>.step_cases s with ⟨t, ht, hstep⟩ | ⟨lower, upper, rfl, hstep⟩
    · rw [hstep] at hbox
      obtain ⟨earlier, later, rfl, htags⟩ := ih hbox
      refine ⟨earlier, later ++ [s], by simp, fun s' hs' => ?_⟩
      rcases List.mem_append.1 hs' with hs' | hs'
      · exact htags s' hs'
      · rw [List.mem_singleton.1 hs', ht]
        exact Option.some_ne_none t
    · rw [hstep] at hbox
      obtain rfl := Option.some.inj hbox
      exact ⟨steps, [], rfl, by simp⟩

/-- What the last box and the tags after it make of a declaration. -/
theorem declare_last_box (v : VariableSpec α) (earlier : List (Step α)) (lower upper : List α)
    {later : List (Step α)} (htags : ∀ s ∈ later, s.tag? ≠ none) :
    v.declare (earlier ++ .bounds lower upper :: later) =
      ((v.declare earlier).withBounds lower upper).withTag
        ((later.getLast?.bind Step.tag?).getD (Tag.ofBounds lower upper)) := by
  have hsplit : v.declare (earlier ++ .bounds lower upper :: later) =
      ((v.declare earlier).withBounds lower upper).declare later := List.foldl_append ..
  rw [hsplit, declare_tags _ _ htags]
  rfl

end VariableSpec

/-! ## Signs -/

/-- **The tag promises no sign that the box does not have.** -/
def Tag.Suits (t : Tag) (box : Box α) : Prop :=
  (t = .nonneg → ∀ l ∈ box.lower, Scalar.le 0 l = true) ∧
    (t = .nonpos → ∀ u ∈ box.upper, Scalar.le u 0 = true)

/-- The tag of a box suits it. -/
theorem Tag.ofBounds_suits (box : Box α) : (Tag.ofBounds box.lower box.upper).Suits box := by
  unfold Tag.ofBounds
  split
  · rename_i hlower
    exact ⟨fun _ => List.all_eq_true.1 hlower, nofun⟩
  · split
    · rename_i hupper
      exact ⟨nofun, fun _ => List.all_eq_true.1 hupper⟩
    · exact ⟨nofun, nofun⟩

/-! ## The variable -/

omit [Scalar α] in
/-- A handle that was just issued names the node appended under it. -/
theorem Builder.node_append (b : Builder α) (d : Draft α) :
    (b.append d).graph.arena.node b.next = .ok (b.nodeOf d) := by
  rw [Arena.node, b.find_append]
  rfl

/-- What a declared variable is, once it has been added. -/
theorem declare_eq_ok {v : VariableSpec α} {b b' : Builder α} {id : NodeId}
    (h : Build.declare v b = .ok id b') :
    v.check = .ok () ∧ ∃ n, b'.graph.arena.node id = .ok n ∧ n.bounds? = v.bounds ∧
      n.dimension = v.dimension ∧ n.tag = v.tag := by
  unfold Build.declare Build.place VariableSpec.draft at h
  cases hcheck : v.check with
  | error e => rw [hcheck] at h; cases h
  | ok _ =>
    rw [hcheck] at h
    obtain ⟨rfl, rfl⟩ := EStateM.Result.ok.inj h
    exact ⟨rfl, _, b.node_append _, rfl, List.length_replicate, rfl⟩

/-- **The box of a variable is the last one given, and its tag is the last one set**, be it by that
box or after it. The box decides the dimension, and its corners are in order. So the tag suits the
box where no step comes after it; a tag that is set later stays, whatever the box. -/
theorem declared_box_is_last (dimension : Nat) (steps : List (VariableSpec.Step α))
    {b b' : Builder α} {id : NodeId}
    (h : Build.declare ((VariableSpec.vector dimension).declare steps) b = .ok id b') :
    ∃ n, b'.graph.arena.node id = .ok n ∧ ∀ box, n.bounds? = some box →
      ∃ earlier later, steps = earlier ++ .bounds box.lower box.upper :: later ∧
        (∀ s ∈ later, s.tag? ≠ none) ∧ n.dimension = box.lower.length ∧
          n.dimension = box.upper.length ∧
        List.Forall₂ (fun l u => Scalar.le l u = true) box.lower box.upper ∧
        n.tag = (later.getLast?.bind VariableSpec.Step.tag?).getD
          (Tag.ofBounds box.lower box.upper) ∧
        (later = [] → n.tag.Suits box) := by
  obtain ⟨hcheck, n, hn, hbounds, hdimension, htag⟩ := declare_eq_ok h
  obtain ⟨-, hsound⟩ := VariableSpec.check_eq_ok hcheck
  refine ⟨n, hn, fun box hbox => ?_⟩
  rw [hbounds] at hbox
  have hbox' := hsound box hbox
  rw [← hdimension] at hbox'
  obtain ⟨earlier, later, rfl, htags⟩ := VariableSpec.exists_last_box rfl hbox
  rw [VariableSpec.declare_last_box _ _ _ _ htags] at htag
  refine ⟨earlier, later, rfl, htags, hbox'.lower.symm, hbox'.upper.symm, hbox'.ordered, htag, ?_⟩
  rintro rfl
  rw [htag]
  exact Tag.ofBounds_suits box

/-- A half-open box of nonnegative points. -/
def halfOpenBox : Box Float := ⟨[0, 1], [2, 1 / 0]⟩

/-- A box out of order, a tag, and a box of another dimension and with another sign. -/
def overwrittenSteps : List (VariableSpec.Step Float) :=
  [.nonpos, .bounds [5] [4], .tag .nonpos, .bounds halfOpenBox.lower halfOpenBox.upper]

/-- Nothing is seen any more of what comes before the last box. -/
theorem declared_box_is_last_overwritten : ∃ (b' : Builder Float) (id : NodeId) (n : Node Float),
    Build.declare ((VariableSpec.vector 4).declare overwrittenSteps) ⟨{}, 1, []⟩ = .ok id b' ∧
    b'.graph.arena.node id = .ok n ∧ n.bounds? = some halfOpenBox ∧ n.dimension = 2 ∧
    n.tag = .nonneg ∧ n.tag.Suits halfOpenBox := by
  let act : Build Float NodeId := Build.declare ((VariableSpec.vector 4).declare overwrittenSteps)
  have hanswer : act.answer ⟨{}, 1, []⟩ = .ok ⟨1⟩ := by decide +kernel
  have hnode : ((act.after ⟨{}, 1, []⟩).graph.arena.node ⟨1⟩).map (fun n => (n.bounds?, n.tag)) =
      .ok (some halfOpenBox, .nonneg) := by decide +kernel
  obtain ⟨b', hrun⟩ := Action.answer_eq_ok.1 hanswer
  rw [Action.after_eq_of_ok hrun] at hnode
  obtain ⟨n, hn, hlast⟩ := declared_box_is_last 4 overwrittenSteps hrun
  rw [hn] at hnode
  obtain ⟨hbox, htag⟩ := Prod.mk.inj (Except.ok.inj hnode)
  obtain ⟨earlier, later, hsteps, htags, hdimension, -, -, -, hsuits⟩ := hlast _ hbox
  refine ⟨b', ⟨1⟩, n, hrun, hn, hbox, hdimension, htag, hsuits ?_⟩
  rcases List.eq_nil_or_concat' later with hnone | ⟨tags, s, rfl⟩
  · exact hnone
  · -- the last step is a box and no tag
    have hlast := congrArg List.getLast? hsteps
    rw [← List.cons_append, ← List.append_assoc, List.getLast?_concat] at hlast
    exact absurd (Option.some.inj hlast ▸ rfl) (htags s (by simp))

/-- **A tag that is set after the box stays, also where the box has another sign**: the declaration
is accepted, and the variable is taken for nonnegative on a box that is not. -/
theorem tag_after_box_unsuited :
    ¬ ∀ (steps : List (VariableSpec.Step Float)) (b b' : Builder Float) (id : NodeId)
    (n : Node Float)
        (box : Box Float),
      Build.declare (VariableSpec.scalar.declare steps) b = .ok id b' →
      b'.graph.arena.node id = .ok n → n.bounds? = some box → n.tag.Suits box := by
  intro hsuits
  let act : Build Float NodeId :=
    Build.declare (VariableSpec.scalar.declare [.bounds [-1] [1], .nonneg])
  have hanswer : act.answer ⟨{}, 1, []⟩ = .ok ⟨1⟩ := by decide +kernel
  have hnode : (act.after ⟨{}, 1, []⟩).graph.arena.node ⟨1⟩ =
      .ok ⟨⟨1⟩, .nonneg, .variable (some ⟨[-1], [1]⟩), [0]⟩ := by decide +kernel
  obtain ⟨b', hrun⟩ := Action.answer_eq_ok.1 hanswer
  rw [Action.after_eq_of_ok hrun] at hnode
  have hlower := (hsuits _ _ b' _ _ _ hrun hnode rfl).1 rfl (-1) (by simp)
  exact absurd hlower (by decide +kernel)

end MixedMonotone
