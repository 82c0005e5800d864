import Mathlib
import MixedMonotone.Proofs.Caches

/-!
# Reachability

The search keeps the positions that are still to visit. One position can be among them many times,
and there are more of them after a visit than before, so the search is counted in another way:
**every position that becomes pending is taken once.**

* `Search`, `Search.Turn`, `Search.Turns`: the marks with the pending positions, and what one turn
  and several turns do.
* `Search.Turn.count`, `Search.Turns.count`: how many turns there were, from the marks.
* `Search.Explores`: what every turn keeps, so that nothing pending means that
  everything reached is marked.
* `turns_mark`: `mark` takes such turns, until nothing is pending.
* `reachable_iff`: **a position is marked if and only if a root reaches it.**
* `search_ends`: the search, in whatever order it takes the positions.
-/

namespace MixedMonotone

variable {α : Type} {nodes : List (Node α)}

namespace Reaches

theorem trans {i j k : Nat} (hij : Reaches nodes i j) (hjk : Reaches nodes j k) :
    Reaches nodes i k := by
  induction hjk with
  | refl => exact hij
  | operand _ hk ih => exact ih.operand hk

theorem head {i j k : Nat} (hj : j ∈ operandsAt nodes i) (hjk : Reaches nodes j k) :
    Reaches nodes i k := ((Reaches.refl i).operand hj).trans hjk

/-- A path is empty or begins with an operand. -/
theorem eq_or_operand {i j : Nat} (h : Reaches nodes i j) :
    i = j ∨ ∃ k ∈ operandsAt nodes i, Reaches nodes k j := by
  induction h with
  | refl => exact .inl rfl
  | @operand j k _ hk ih =>
    rcases ih with rfl | ⟨l, hl, hlj⟩
    · exact .inr ⟨k, hk, .refl k⟩
    · exact .inr ⟨l, hl, hlj.operand hk⟩

/-- Paths lead towards smaller positions where operands stand before their parent. -/
theorem le (hlt : ∀ i, ∀ k ∈ operandsAt nodes i, k < i) {i j : Nat} (h : Reaches nodes i j) :
    j ≤ i := by
  induction h with
  | refl => exact le_rfl
  | operand _ hk ih => exact le_trans (hlt _ _ hk).le ih

theorem congr {nodes' : List (Node α)} (hops : ∀ i, operandsAt nodes i = operandsAt nodes' i)
    {i j : Nat} (h : Reaches nodes i j) : Reaches nodes' i j := by
  induction h with
  | refl => exact .refl i
  | operand _ hk ih => exact ih.operand (hops _ ▸ hk)

end Reaches

/-! ## Marks -/

/-- Position `i` is marked. -/
def Marked (seen : List Bool) (i : Nat) : Prop := seen[i]? = some true

instance (seen : List Bool) : DecidablePred (Marked seen) :=
  fun i => inferInstanceAs (Decidable (seen[i]? = some true))

/-- A position is marked, or it is not. -/
theorem marked_or_unmarked {seen : List Bool} {i : Nat} (hi : i < seen.length) :
    Marked seen i ∨ seen[i]? = some false := by
  unfold Marked
  rw [List.getElem?_eq_getElem hi]
  cases seen[i] with
  | true => exact .inl rfl
  | false => exact .inr rfl

theorem not_marked_replicate (n i : Nat) : ¬ Marked (List.replicate n false) i := by
  intro hi
  simp [Marked, List.getElem?_replicate] at hi

/-- Marks are determined by the marked positions. -/
theorem eq_of_marked_iff {seen seen' : List Bool} (hlength : seen.length = seen'.length)
    (h : ∀ i, Marked seen i ↔ Marked seen' i) : seen = seen' := by
  refine List.ext_getElem hlength fun i hi hi' => ?_
  have hi := h i
  unfold Marked at hi
  rw [List.getElem?_eq_getElem ‹_›, List.getElem?_eq_getElem hi', Option.some.injEq,
    Option.some.injEq] at hi
  exact Bool.eq_iff_iff.2 hi

theorem marked_set {seen : List Bool} {i : Nat} (h : seen[i]? = some false) (j : Nat) :
    Marked (seen.set i true) j ↔ j = i ∨ Marked seen j := by
  have hi : i < seen.length := (List.getElem?_eq_some_iff.1 h).1
  unfold Marked
  by_cases hji : j = i
  · subst hji; simp [hi]
  · simp [hji, List.getElem?_set_ne (Ne.symm hji)]

/-- **The operands of all marked positions**, each as often as it is an operand. -/
def expanded (nodes : List (Node α)) (seen : List Bool) : Nat :=
  ∑ i ∈ Finset.range nodes.length with Marked seen i, (operandsAt nodes i).length

/-- One more mark adds the operands of its position. -/
theorem expanded_set {seen : List Bool} {i : Nat} (hi : seen[i]? = some false)
    (hlt : i < nodes.length) :
    expanded nodes (seen.set i true) = expanded nodes seen + (operandsAt nodes i).length := by
  have hfresh : i ∉ (Finset.range nodes.length).filter (Marked seen) := by
    simp [Marked, hi]
  have hfilter : (Finset.range nodes.length).filter (Marked (seen.set i true)) =
      insert i ((Finset.range nodes.length).filter (Marked seen)) := by
    ext j
    simp only [Finset.mem_filter, Finset.mem_range, Finset.mem_insert, marked_set hi]
    constructor
    · rintro ⟨hj, rfl | hm⟩
      · exact .inl rfl
      · exact .inr ⟨hj, hm⟩
    · rintro (rfl | ⟨hj, hm⟩)
      · exact ⟨hlt, .inl rfl⟩
      · exact ⟨hj, .inr hm⟩
  rw [expanded, hfilter, Finset.sum_insert hfresh, add_comm]
  rfl

theorem expanded_replicate (nodes : List (Node α)) (n : Nat) :
    expanded nodes (List.replicate n false) = 0 := by
  refine Finset.sum_eq_zero fun i hi => ?_
  exact absurd (Finset.mem_filter.1 hi).2 (not_marked_replicate n i)

theorem expanded_le (nodes : List (Node α)) (seen : List Bool) :
    expanded nodes seen ≤ ∑ i ∈ Finset.range nodes.length, (operandsAt nodes i).length :=
  Finset.sum_le_sum_of_subset (Finset.filter_subset _ _)

/-! ## The search -/

/-- A search under way: the marks, and the positions that are still to visit, **in no order**. -/
structure Search where
  seen : List Bool
  pending : Multiset Nat

namespace Search

/-- Before the first turn nothing is marked, and the roots are pending, with their repetitions. -/
def start (nodes : List (Node α)) (roots : List Nat) : Search :=
  ⟨List.replicate nodes.length false, roots⟩

/-- **One turn**, on the pending position `i`: where it is marked it is dropped; otherwise it is
marked, and its operands become pending, with their repetitions. -/
inductive Turn (nodes : List (Node α)) (i : Nat) : Search → Search → Prop
  | drop {seen : List Bool} {rest : Multiset Nat} (hi : Marked seen i) :
      Turn nodes i ⟨seen, i ::ₘ rest⟩ ⟨seen, rest⟩
  | visit {seen : List Bool} {rest : Multiset Nat} (hi : seen[i]? = some false) :
      Turn nodes i ⟨seen, i ::ₘ rest⟩ ⟨seen.set i true, operandsAt nodes i + rest⟩

/-- So many turns, each on any position that is pending then. -/
inductive Turns (nodes : List (Node α)) : Nat → Search → Search → Prop
  | refl (s : Search) : Turns nodes 0 s s
  | turn {n i : Nat} {s t u : Search} (h : Turns nodes n s t) (hnext : Turn nodes i t u) :
      Turns nodes (n + 1) s u

variable {s t : Search}

theorem Turns.head {n i : Nat} {u : Search} (hfirst : Turn nodes i s t) (h : Turns nodes n t u) :
    Turns nodes (n + 1) s u := by
  induction h with
  | refl => exact (Turns.refl s).turn hfirst
  | turn _ hnext ih => exact (ih hfirst).turn hnext

/-- **One turn takes one position**, and what it adds are the operands of a new mark. -/
theorem Turn.count {i : Nat} (h : Turn nodes i s t) (hlength : s.seen.length = nodes.length) :
    1 + Multiset.card t.pending + expanded nodes s.seen = Multiset.card s.pending +
      expanded nodes t.seen := by
  cases h with
  | drop =>
    dsimp only
    rw [Multiset.card_cons]
    omega
  | visit hi =>
    have hlt : i < nodes.length := hlength ▸ (List.getElem?_eq_some_iff.1 hi).1
    dsimp only
    rw [expanded_set hi hlt, Multiset.card_cons, Multiset.card_add, Multiset.coe_card]
    omega

/-- **Where the search stands**: what is marked or pending is reached from the roots, the roots are
among it, and so are the operands of whatever is marked. -/
structure Explores (nodes : List (Node α)) (roots : List Nat) (s : Search) : Prop where
  length : s.seen.length = nodes.length
  inside : ∀ i ∈ s.pending, i < nodes.length
  reached : ∀ i, Marked s.seen i ∨ i ∈ s.pending → ∃ r ∈ roots, Reaches nodes r i
  roots : ∀ r ∈ roots, Marked s.seen r ∨ r ∈ s.pending
  closed : ∀ i, Marked s.seen i → ∀ k ∈ operandsAt nodes i, Marked s.seen k ∨ k ∈ s.pending

namespace Explores

variable {roots : List Nat}

theorem start (hroots : ∀ r ∈ roots, r < nodes.length) :
    Explores nodes roots (start nodes roots) := by
  refine ⟨List.length_replicate, hroots, ?_, fun r hr => .inr hr,
    fun i hi => absurd hi (not_marked_replicate _ i)⟩
  rintro i (hi | hi)
  · exact absurd hi (not_marked_replicate _ i)
  · exact ⟨i, hi, .refl i⟩

/-- **Every turn keeps it.** -/
theorem turn (hlt : ∀ i, ∀ k ∈ operandsAt nodes i, k < i) {i : Nat} (h : Explores nodes roots s)
    (hturn : Turn nodes i s t) : Explores nodes roots t := by
  cases hturn with
  | @drop seen rest hi =>
    -- what is no longer pending is marked
    have hkept : ∀ k, Marked seen k ∨ k ∈ i ::ₘ rest → Marked seen k ∨ k ∈ rest := by
      rintro k (hk | hk)
      · exact .inl hk
      · rcases Multiset.mem_cons.1 hk with rfl | hk
        · exact .inl hi
        · exact .inr hk
    refine ⟨h.length, fun k hk => h.inside k (Multiset.mem_cons_of_mem hk), ?_, ?_, ?_⟩
    · rintro k (hk | hk)
      · exact h.reached k (.inl hk)
      · exact h.reached k (.inr (Multiset.mem_cons_of_mem hk))
    · exact fun r hr => hkept r (h.roots r hr)
    · exact fun j hj k hk => hkept k (h.closed j hj k hk)
  | @visit seen rest hi =>
    have hset := marked_set hi
    have hnew : ∀ k, k ∈ (operandsAt nodes i : Multiset Nat) + rest ↔ k ∈ operandsAt nodes i ∨
        k ∈ rest := by
      intro k
      rw [Multiset.mem_add, Multiset.mem_coe]
    have hkept : ∀ k, Marked seen k ∨ k ∈ i ::ₘ rest →
        Marked (seen.set i true) k ∨ k ∈ (operandsAt nodes i : Multiset Nat) + rest := by
      rintro k (hk | hk)
      · exact .inl ((hset k).2 (.inr hk))
      · rcases Multiset.mem_cons.1 hk with rfl | hk
        · exact .inl ((hset k).2 (.inl rfl))
        · exact .inr ((hnew k).2 (.inr hk))
    have hinside : i < nodes.length := h.inside i (Multiset.mem_cons_self i rest)
    obtain ⟨r, hr, hri⟩ := h.reached i (.inr (Multiset.mem_cons_self i rest))
    refine ⟨List.length_set.trans h.length, ?_, ?_, fun r hr => hkept r (h.roots r hr), ?_⟩
    · intro k hk
      rcases (hnew k).1 hk with hk | hk
      · exact lt_trans (hlt i k hk) hinside
      · exact h.inside k (Multiset.mem_cons_of_mem hk)
    · rintro k (hk | hk)
      · rcases (hset k).1 hk with rfl | hk
        · exact ⟨r, hr, hri⟩
        · exact h.reached k (.inl hk)
      · rcases (hnew k).1 hk with hk | hk
        · exact ⟨r, hr, hri.operand hk⟩
        · exact h.reached k (.inr (Multiset.mem_cons_of_mem hk))
    · intro j hj k hk
      rcases (hset j).1 hj with rfl | hj
      · exact .inr ((hnew k).2 (.inl hk))
      · exact hkept k (h.closed j hj k hk)

/-- So do several turns. -/
theorem turns (hlt : ∀ i, ∀ k ∈ operandsAt nodes i, k < i) {n : Nat} (h : Explores nodes roots s)
    (hturns : Turns nodes n s t) : Explores nodes roots t := by
  induction hturns with
  | refl => exact h
  | turn _ hnext ih => exact (ih h).turn hlt hnext

/-- **Any pending position can be taken next.** -/
theorem exists_turn (h : Explores nodes roots s) {i : Nat} (hi : i ∈ s.pending) :
    ∃ t, Turn nodes i s t := by
  obtain ⟨seen, pending⟩ := s
  obtain ⟨rest, rfl⟩ := Multiset.exists_cons_of_mem hi
  have hinside : i < seen.length := h.length ▸ h.inside i hi
  rcases marked_or_unmarked hinside with hmark | hmark
  · exact ⟨_, .drop hmark⟩
  · exact ⟨_, .visit hmark⟩

/-- **When nothing is pending, the marks are on what the roots reach.** -/
theorem marked_iff (h : Explores nodes roots s) (hend : s.pending = 0) (i : Nat) :
    Marked s.seen i ↔ ∃ r ∈ roots, Reaches nodes r i := by
  have hmarked : ∀ k, Marked s.seen k ∨ k ∈ s.pending → Marked s.seen k := by
    intro k hk
    simpa [hend] using hk
  constructor
  · exact fun hi => h.reached i (.inl hi)
  -- along the path: a marked position has marked operands
  · rintro ⟨r, hr, hri⟩
    induction hri with
    | refl => exact hmarked r (h.roots r hr)
    | @operand j k _ hk ih => exact hmarked k (h.closed j ih k hk)

end Explores

/-- **As many turns were taken** as positions became pending and are not any more. -/
theorem Turns.count {roots : List Nat} (hlt : ∀ i, ∀ k ∈ operandsAt nodes i, k < i) {n : Nat}
    (hs : Explores nodes roots s) (h : Turns nodes n s t) :
    n + Multiset.card t.pending + expanded nodes s.seen = Multiset.card s.pending +
      expanded nodes t.seen := by
  induction h with
  | refl => omega
  | turn hturns hnext ih =>
    have hstep := hnext.count (hs.turns hlt hturns).length
    have hbefore := ih hs
    omega

end Search

/-- **`mark` takes turns**, on the first position of its stack, until nothing is pending. -/
theorem turns_mark (hlt : ∀ i, ∀ k ∈ operandsAt nodes i, k < i) {roots : List Nat}
    (seen : List Bool) (stack : List Nat) (h : Search.Explores nodes roots ⟨seen, stack⟩) :
    ∃ n, Search.Turns nodes n ⟨seen, stack⟩ ⟨mark nodes seen stack, 0⟩ := by
  fun_induction mark nodes seen stack with
  | case1 seen => exact ⟨0, .refl _⟩
  | case2 seen i stack hi ih =>
    have hturn : Search.Turn nodes i ⟨seen, (i :: stack : List Nat)⟩
        ⟨seen.set i true, (operandsAt nodes i ++ stack : List Nat)⟩ := by
      rw [← Multiset.cons_coe, ← Multiset.coe_add]
      exact .visit hi
    obtain ⟨n, hturns⟩ := ih (h.turn hlt hturn)
    exact ⟨n + 1, hturns.head hturn⟩
  | case3 seen i stack hi ih =>
    have hinside : i < seen.length := h.length ▸ h.inside i List.mem_cons_self
    have hturn : Search.Turn nodes i ⟨seen, (i :: stack : List Nat)⟩ ⟨seen, stack⟩ := by
      rw [← Multiset.cons_coe]
      exact .drop ((marked_or_unmarked hinside).resolve_right hi)
    obtain ⟨n, hturns⟩ := ih (h.turn hlt hturn)
    exact ⟨n + 1, hturns.head hturn⟩

/-- The search ends with the marks that are answered. -/
theorem turns_reachable (hlt : ∀ i, ∀ k ∈ operandsAt nodes i, k < i) {roots : List Nat}
    (hroots : ∀ r ∈ roots, r < nodes.length) :
    ∃ n, Search.Turns nodes n (.start nodes roots) ⟨reachable nodes roots, 0⟩ :=
  turns_mark hlt _ roots (.start hroots)

/-- **A position is marked if and only if a root reaches it.** -/
theorem reachable_iff (hlt : ∀ i, ∀ k ∈ operandsAt nodes i, k < i) {roots : List Nat}
    (hroots : ∀ r ∈ roots, r < nodes.length) (j : Nat) :
    Marked (reachable nodes roots) j ↔ ∃ r ∈ roots, Reaches nodes r j := by
  obtain ⟨n, hturns⟩ := turns_reachable hlt hroots
  exact ((Search.Explores.start hroots).turns hlt hturns).marked_iff rfl j

/-- **The search ends, and its marks are exact**, in whatever order it takes the positions. It takes
as many turns as there are roots and operands of marked nodes, repetitions counted, so their number
is bounded beforehand; as long as a position is pending any of them can be taken; and when none is,
the marks are those of `reachable`. They are on the positions to which paths of operands lead from
the roots, on the roots themselves and on the operands of whatever is marked. -/
theorem search_ends (hlt : ∀ i, ∀ k ∈ operandsAt nodes i, k < i) {roots : List Nat}
    (hroots : ∀ r ∈ roots, r < nodes.length) :
    (∃ n, Search.Turns nodes n (.start nodes roots) ⟨reachable nodes roots, 0⟩) ∧
    (∀ n s, Search.Turns nodes n (.start nodes roots) s →
      n + Multiset.card s.pending = roots.length + expanded nodes s.seen ∧
      n ≤ roots.length + ∑ i ∈ Finset.range nodes.length, (operandsAt nodes i).length ∧
      (∀ i ∈ s.pending, ∃ t, Search.Turn nodes i s t) ∧
        (s.pending = 0 → s.seen = reachable nodes roots)) ∧
    (∀ i, Marked (reachable nodes roots) i ↔ ∃ r ∈ roots, Reaches nodes r i) ∧
    (∀ r ∈ roots, Marked (reachable nodes roots) r) ∧
    ∀ i, Marked (reachable nodes roots) i →
      ∀ k ∈ operandsAt nodes i, Marked (reachable nodes roots) k := by
  have hstart := Search.Explores.start hroots
  have hiff := reachable_iff hlt hroots
  obtain ⟨m, hreachable⟩ := turns_reachable hlt hroots
  refine ⟨⟨m, hreachable⟩, fun n s hturns => ?_, hiff, fun r hr => (hiff r).2 ⟨r, hr, .refl r⟩,
    fun i hi k hk => ?_⟩
  · have hs := hstart.turns hlt hturns
    have hcount := hturns.count hlt hstart
    dsimp only [Search.start] at hcount
    rw [expanded_replicate, Multiset.coe_card, Nat.add_zero] at hcount
    have hle := expanded_le nodes s.seen
    refine ⟨hcount, by omega, fun i hi => hs.exists_turn hi, fun hend => ?_⟩
    refine eq_of_marked_iff (hs.length.trans (hstart.turns hlt hreachable).length.symm) fun i => ?_
    exact (hs.marked_iff hend i).trans (hiff i).symm
  · obtain ⟨r, hr, hri⟩ := (hiff i).1 hi
    exact (hiff k).2 ⟨r, hr, hri.operand hk⟩

/-- A product of two equal operands, the sum of it with one of them, and a node that neither
reads. -/
def sharedNodes : List (Node ℚ) :=
  [⟨⟨1⟩, .unknown, .variable none, [0]⟩, ⟨⟨2⟩, .nonneg, .parameter, [5]⟩,
    ⟨⟨3⟩, .unknown, .function ⟨.arith .mul, .binary .splitBoth, [0, 0], []⟩, [0]⟩,
    ⟨⟨4⟩, .unknown, .function ⟨.arith .add, .binary (.direct .own .own), [2, 0], []⟩, [0]⟩]

/-- From three roots, one of them twice, there are seven turns: four operands become pending, three
of them the first node. -/
theorem search_ends_shared : (∀ i, ∀ k ∈ operandsAt sharedNodes i, k < i) ∧
    (∀ r ∈ [3, 2, 3], r < sharedNodes.length) ∧
      reachable sharedNodes [3, 2, 3] = [true, false, true, true] ∧
    Search.Turns sharedNodes 7 (.start sharedNodes [3, 2, 3])
      ⟨reachable sharedNodes [3, 2, 3], 0⟩ := by
  have hlt : ∀ i, ∀ k ∈ operandsAt sharedNodes i, k < i := by
    intro i
    by_cases hi : i < 4
    · interval_cases i <;> decide
    · have hnone : sharedNodes[i]? = none := List.getElem?_eq_none (Nat.not_lt.1 hi)
      simp [operandsAt, hnone]
  have hroots : ∀ r ∈ [3, 2, 3], r < sharedNodes.length := by decide
  have hmarks : reachable sharedNodes [3, 2, 3] = [true, false, true, true] := by
    simp [reachable, mark, sharedNodes, operandsAt, Node.operands, Kind.operands]
  obtain ⟨⟨n, hturns⟩, hruns, -⟩ := search_ends hlt hroots
  obtain ⟨hcount, -⟩ := hruns n _ hturns
  have hexpanded : expanded sharedNodes (reachable sharedNodes [3, 2, 3]) = 4 := by
    rw [hmarks]
    decide
  obtain rfl : n = 7 := by simpa [hexpanded] using hcount
  exact ⟨hlt, hroots, hmarks, hturns⟩

end MixedMonotone
