import Mathlib
import MixedMonotone.Proofs.Compaction

/-!
# What can be compiled

Compiling is refused for a handle that names no operand, for an objective that is no number, and for
variables of different sizes, **and for nothing else**.

* `Graph.Compilable`: what can be compiled; `Graph.CompileFault`: why the rest cannot.
* `commonDimension_eq_error_iff`: the first variable, and the first that differs from it.
* `Graph.CompilesAsDocumented`: compiling succeeds on what can be compiled, is refused for the first
  fault, and never misses a node it has to look up.
* `compiles_as_documented`: it is so for **every reachable graph**.
-/

namespace MixedMonotone

variable {α : Type}

/-! ## Roots -/

/-- The handle names an operand with one component. -/
def NamesNumber (nodes : List (Node α)) (id : NodeId) : Prop :=
  ∃ n ∈ nodes, n.id = id ∧ n.isMatrix = false ∧ n.dimension = 1

/-- The first thing that is wrong with an objective and constraints. -/
inductive RootFault (nodes : List (Node α)) (root : NodeId) (constraints : List Constraint) :
    Error α → Prop
  | objective {e : Error α} (he : OperandFault nodes root e) : RootFault nodes root constraints e
  | notScalar {n : Node α} (hn : n ∈ nodes) (hid : n.id = root) (hmatrix : n.isMatrix = false)
      (hdim : n.dimension ≠ 1) : RootFault nodes root constraints (.notScalar root n.dimension)
  /-- The objective and the constraints before are as they should be. -/
  | «constraint» {e : Error α} {before after : List Constraint} {c : Constraint}
      (hroot : NamesNumber nodes root) (hsplit : constraints = before ++ c :: after)
      (hbefore : ∀ b ∈ before, NamesVector nodes b.node) (he : OperandFault nodes c.node e) :
      RootFault nodes root constraints e

section Roots

variable {g : Graph α} {root : NodeId} {constraints : List Constraint}

/-- Past the check of the objective, the constraints are looked up. -/
theorem roots_of_operand {o : Operand α} (ho : g.arena.operand root = .ok o)
    (hdim : o.node.dimension = 1) : g.roots root constraints = (do
      let os ← constraints.mapM fun c => g.arena.operand c.node
      return o.position :: os.map (·.position)) := by
  rw [Graph.roots, ho]
  exact if_neg (not_not.2 hdim)

variable [Scalar α] {s : Settings}

/-- The objective, looked up and found to be a number. -/
theorem namesNumber_of_operand (hok : ArenaOK s g.arena) {o : Operand α}
    (ho : g.arena.operand root = .ok o) (hdim : o.node.dimension = 1) :
    NamesNumber g.nodes root := by
  obtain ⟨hat, hid, hmatrix⟩ := hok.operand_eq_ok_iff.1 ho
  exact ⟨o.node, List.mem_of_getElem? hat, hid, hmatrix, hdim⟩

theorem NamesNumber.operand (h : NamesNumber g.nodes root) (hok : ArenaOK s g.arena) :
    ∃ o, g.arena.operand root = .ok o ∧ o.node.dimension = 1 := by
  obtain ⟨n, hn, hid, hmatrix, hdim⟩ := h
  obtain ⟨i, hi⟩ := List.mem_iff_getElem?.1 hn
  exact ⟨⟨i, n⟩, hok.operand_eq_ok_iff.2 ⟨hi, hid, hmatrix⟩, hdim⟩

theorem exists_roots_iff (hok : ArenaOK s g.arena) :
    (∃ roots, g.roots root constraints = .ok roots) ↔
      NamesNumber g.nodes root ∧ ∀ c ∈ constraints, NamesVector g.nodes c.node := by
  constructor
  · rintro ⟨roots, h⟩
    obtain ⟨o, os, ho, hdim, hos, -⟩ := Graph.roots_eq_ok h
    refine ⟨namesNumber_of_operand hok ho hdim, fun c hc => ?_⟩
    obtain ⟨o', -, ho'⟩ := forall₂_mem_left hos hc
    exact hok.exists_operand_iff.1 ⟨o', ho'⟩
  · rintro ⟨hroot, hconstraints⟩
    obtain ⟨o, ho, hdim⟩ := hroot.operand hok
    obtain ⟨os, hos⟩ : ∃ os, constraints.mapM (fun c => g.arena.operand c.node) = .ok os :=
      exists_mapM_iff.2 fun c hc => hok.exists_operand_iff.2 (hconstraints c hc)
    exact ⟨_, (roots_of_operand ho hdim).trans (bind_eq_ok.2 ⟨os, hos, rfl⟩)⟩

/-- **The roots are refused for the first fault.** -/
theorem roots_eq_error_iff (hok : ArenaOK s g.arena) {e : Error α} :
    g.roots root constraints = .error e ↔ RootFault g.nodes root constraints e := by
  constructor
  · intro h
    rcases bind_eq_error.1 h with ho | ⟨o, ho, h⟩
    · exact .objective (hok.operand_eq_error_iff.1 ho)
    · obtain ⟨hat, hid, hmatrix⟩ := hok.operand_eq_ok_iff.1 ho
      by_cases hdim : o.node.dimension = 1
      · rw [if_neg (not_not.2 hdim)] at h
        rcases bind_eq_error.1 h with hos | ⟨os, -, h⟩
        · obtain ⟨before, c, after, hsplit, hbefore, he⟩ := mapM_eq_error_iff.1 hos
          exact .constraint (namesNumber_of_operand hok ho hdim) hsplit
            (fun b hb => hok.exists_operand_iff.1 (hbefore b hb)) (hok.operand_eq_error_iff.1 he)
        · cases h
      · rw [if_pos hdim] at h
        obtain rfl := Except.error.inj h
        exact .notScalar (List.mem_of_getElem? hat) hid hmatrix hdim
  · intro h
    cases h with
    | objective he => exact bind_eq_error.2 (.inl (hok.operand_eq_error_iff.2 he))
    | @notScalar n hn hid hmatrix hdim =>
      obtain ⟨i, hi⟩ := List.mem_iff_getElem?.1 hn
      refine bind_eq_error.2 (.inr ⟨⟨i, n⟩, hok.operand_eq_ok_iff.2 ⟨hi, hid, hmatrix⟩, ?_⟩)
      exact if_pos hdim
    | «constraint» hroot hsplit hbefore he =>
      obtain ⟨o, ho, hdim⟩ := hroot.operand hok
      have hfirst := mapM_eq_error_iff.2 ⟨_, _, _, hsplit,
        fun b hb => hok.exists_operand_iff.2 (hbefore b hb), hok.operand_eq_error_iff.2 he⟩
      rw [roots_of_operand ho hdim]
      exact bind_eq_error.2 (.inl hfirst)

end Roots

/-! ## Variables -/

/-- The node is **the first** of those with a property, in the order of creation. -/
def IsFirst (P : Node α → Prop) (n : Node α) : Prop := P n ∧ ∀ m, P m → n.id.number ≤ m.id.number

theorem IsFirst.congr {P Q : Node α → Prop} (h : ∀ n, P n ↔ Q n) {n : Node α} :
    IsFirst P n ↔ IsFirst Q n := by
  simp only [IsFirst, h]

/-- A handle's number has one bearer. -/
theorem Increasing.eq_of_number {nodes : List (Node α)} (hinc : Increasing nodes) {m n : Node α}
    (hm : m ∈ nodes) (hn : n ∈ nodes) (h : m.id.number = n.id.number) : m = n := by
  obtain ⟨i, hi⟩ := List.mem_iff_getElem?.1 hm
  obtain ⟨j, hj⟩ := List.mem_iff_getElem?.1 hn
  obtain rfl := hinc.position_unique hi hj (congrArg NodeId.mk h)
  exact Option.some.inj (hi.symm.trans hj)

/-- Searching nodes in order finds the first one. -/
theorem Increasing.find?_eq_some_iff {nodes : List (Node α)} (hinc : Increasing nodes)
    {p : Node α → Bool} {n : Node α} :
    nodes.find? p = some n ↔ IsFirst (fun m => m ∈ nodes ∧ p m = true) n := by
  have first : ∀ {n}, nodes.find? p = some n → IsFirst (fun m => m ∈ nodes ∧ p m = true) n := by
    intro n h
    obtain ⟨hp, before, after, rfl, hbefore⟩ := List.find?_eq_some_iff_append.1 h
    refine ⟨⟨by simp, hp⟩, ?_⟩
    rintro m ⟨hm, hpm⟩
    rcases List.mem_append.1 hm with hm | hm
    · have hnot := hbefore m hm
      rw [hpm] at hnot
      cases hnot
    · rcases List.mem_cons.1 hm with rfl | hm
      · exact le_rfl
      · exact ((List.pairwise_cons.1 (List.pairwise_append.1 hinc).2.1).1 m hm).le
  refine ⟨first, fun h => ?_⟩
  obtain ⟨⟨hn, hp⟩, hleast⟩ := h
  cases hfind : nodes.find? p with
  | none =>
    have hnot := List.find?_eq_none.1 hfind n hn
    exact absurd hp hnot
  | some m =>
    -- both are first, and a handle has one bearer
    obtain ⟨⟨hm, hpm⟩, hleast'⟩ := first hfind
    have hid : m.id.number = n.id.number := le_antisymm (hleast' n ⟨hn, hp⟩) (hleast m ⟨hm, hpm⟩)
    rw [hinc.eq_of_number hm hn hid]

/-- **Only variables matter**, and they are searched twice. -/
theorem commonDimension_eq (nodes : List (Node α)) :
    commonDimension nodes =
      match nodes.find? Node.isVariable with
      | none => .ok none
      | some n =>
        match nodes.find? fun m => m.isVariable && m.dimension != n.dimension with
        | some m => .error (.dimensionMismatch .inputs (.size n.dimension) (.size m.dimension))
        | none => .ok (some n.dimension) := by
  have hfilter : ∀ d, (nodes.find? fun m => m.isVariable && m.dimension != d) =
      (nodes.filter Node.isVariable).find? fun m => m.dimension != d := by
    intro d
    rw [List.find?_filter]
    refine congrArg (List.find? · nodes) (funext fun m => ?_)
    by_cases hv : m.isVariable = true <;> by_cases hdim : m.dimension = d <;> simp [hv, hdim]
  simp only [hfilter, ← List.head?_filter]
  unfold commonDimension
  cases hvars : nodes.filter Node.isVariable with
  | nil => rfl
  | cons n rest =>
    simp only [List.map_cons, List.head?_cons, List.find?_map]
    -- the first variable does not differ from itself
    cases hfind : rest.find? fun m => m.dimension != n.dimension with
    | none => simp [hfind]
    | some m => simp [hfind]

/-- The first variable of nodes in order, and the first that **differs from it**, are reported. -/
theorem commonDimension_eq_error_iff {nodes : List (Node α)} (hinc : Increasing nodes)
    {e : Error α} : commonDimension nodes = .error e ↔
      ∃ n m, IsFirst (fun n => n ∈ nodes ∧ n.isVariable = true) n ∧
        IsFirst (fun m => m ∈ nodes ∧ m.isVariable = true ∧ m.dimension ≠ n.dimension) m ∧
        e = .dimensionMismatch .inputs (.size n.dimension) (.size m.dimension) := by
  have hother : ∀ n m : Node α,
      (nodes.find? fun m => m.isVariable && m.dimension != n.dimension) = some m ↔
        IsFirst (fun m => m ∈ nodes ∧ m.isVariable = true ∧ m.dimension ≠ n.dimension) m := by
    intro n m
    rw [hinc.find?_eq_some_iff]
    exact IsFirst.congr fun m => by simp
  simp only [← hother, ← hinc.find?_eq_some_iff, commonDimension_eq]
  cases nodes.find? Node.isVariable with
  | none => simp
  | some n =>
    dsimp only
    cases hfind : nodes.find? fun m => m.isVariable && m.dimension != n.dimension with
    | none => simp [hfind]
    | some m => simp [hfind, eq_comm]

theorem exists_commonDimension_iff {nodes : List (Node α)} :
    (∃ d, commonDimension nodes = .ok d) ↔
      ∀ n ∈ nodes, ∀ m ∈ nodes, n.isVariable = true → m.isVariable = true →
        n.dimension = m.dimension := by
  constructor
  · rintro ⟨d, hd⟩ n hn m hm hnv hmv
    have hdn := commonDimension_eq_ok hd n hn hnv
    have hdm := commonDimension_eq_ok hd m hm hmv
    exact Option.some.inj (hdn.symm.trans hdm)
  · intro hall
    rw [commonDimension_eq]
    cases hfirst : nodes.find? Node.isVariable with
    | none => exact ⟨none, rfl⟩
    | some n =>
      dsimp only
      cases hfind : nodes.find? fun m => m.isVariable && m.dimension != n.dimension with
      | none => exact ⟨some n.dimension, rfl⟩
      | some m =>
        have hn := List.mem_of_find?_eq_some hfirst
        have hm := List.mem_of_find?_eq_some hfind
        have hdiffer := List.find?_some hfind
        simp only [Bool.and_eq_true, bne_iff_ne] at hdiffer
        exact absurd (hall m hm n hn hdiffer.1 (List.find?_some hfirst)) hdiffer.2

/-- Copies have the sizes of their originals. -/
theorem commonDimension_copy {nodes nodes' kept copies : List (Node α)}
    (h : List.Forall₂ (Node.Copy nodes nodes') kept copies) :
    commonDimension copies = commonDimension kept := by
  have hdims : (copies.filter Node.isVariable).map Node.dimension =
      (kept.filter Node.isVariable).map Node.dimension := by
    induction h with
    | nil => rfl
    | cons hcopy _ ih =>
      rw [List.filter_cons, List.filter_cons, hcopy.isVariable_eq]
      split
      · rw [List.map_cons, List.map_cons, hcopy.dimension_eq, ih]
      · exact ih
  rw [commonDimension, commonDimension, hdims]

/-! ## Compiling -/

section Compiling

variable [Scalar α] {s : Settings} {g : Graph α} {root : NodeId} {constraints : List Constraint}
  {roots : List Nat}

/-- Past the roots, **only the variables' sizes** decide: copying the kept nodes and finding the
roots among the copies succeeds. -/
theorem compile_of_roots (hok : ArenaOK s g.arena) (extraction : Extraction)
    (hroots : g.roots root constraints = .ok roots) :
    ∃ a : Arena α, commonDimension a.nodes =
      commonDimension (keptNodes g.nodes (g.marks extraction roots)) ∧
      (∀ d, commonDimension a.nodes = .ok d → ∃ p, g.compile extraction root constraints = .ok p) ∧
      ∀ e, commonDimension a.nodes = .error e →
        g.compile extraction root constraints = .error e := by
  obtain ⟨a, ha, hfound⟩ := roots_compact hok hroots extraction
  refine ⟨a, commonDimension_copy (compact_copies hok ha), ?_, ?_⟩
  · intro d hd
    obtain ⟨k, hk⟩ := hfound root List.mem_cons_self
    obtain ⟨checks, hchecks⟩ : ∃ checks, constraints.mapM (fun c => do
        return (⟨← a.locate root c.node, c.relation⟩ : Check)) = .ok checks := by
      refine exists_mapM_iff.2 fun c hc => ?_
      obtain ⟨j, hj⟩ := hfound c.node (List.mem_cons_of_mem _ (List.mem_map_of_mem hc))
      exact ⟨⟨j, c.relation⟩, bind_eq_ok.2 ⟨j, locate_eq_ok.2 hj, rfl⟩⟩
    exact ⟨_, bind_eq_ok.2 ⟨roots, hroots, bind_eq_ok.2 ⟨a, ha, bind_eq_ok.2 ⟨d, hd,
      bind_eq_ok.2 ⟨k, locate_eq_ok.2 hk, bind_eq_ok.2 ⟨checks, hchecks, rfl⟩⟩⟩⟩⟩⟩
  · intro e he
    exact bind_eq_error.2 (.inr ⟨roots, hroots, bind_eq_error.2 (.inr ⟨a, ha,
      bind_eq_error.2 (.inl he)⟩)⟩)

end Compiling

/-- **What can be compiled.** -/
structure Graph.Compilable (g : Graph α) (extraction : Extraction) (root : NodeId)
    (constraints : List Constraint) : Prop where
  /-- The objective is a number. -/
  number : NamesNumber g.nodes root
  vectors : ∀ c ∈ constraints, NamesVector g.nodes c.node
  /-- The variables that are kept have one size. -/
  sizes : ∀ n m, g.Keeps extraction root constraints n → g.Keeps extraction root constraints m →
    n.isVariable = true → m.isVariable = true → n.dimension = m.dimension

/-- **Why the rest cannot be compiled**, the first cause there is. -/
inductive Graph.CompileFault (g : Graph α) (extraction : Extraction) (root : NodeId)
    (constraints : List Constraint) : Error α → Prop
  | roots {e : Error α} (he : RootFault g.nodes root constraints e) :
      CompileFault g extraction root constraints e
  /-- The first variable that is kept, and the first that is kept and differs from it. -/
  | sizes {n m : Node α} (hroot : NamesNumber g.nodes root)
      (hconstraints : ∀ c ∈ constraints, NamesVector g.nodes c.node)
      (hn : IsFirst (fun n => g.Keeps extraction root constraints n ∧ n.isVariable = true) n)
      (hm : IsFirst (fun m => g.Keeps extraction root constraints m ∧ m.isVariable = true ∧
        m.dimension ≠ n.dimension) m) :
      CompileFault g extraction root constraints
        (.dimensionMismatch .inputs (.size n.dimension) (.size m.dimension))

/-- **Compiling answers and is refused as documented.** -/
structure Graph.CompilesAsDocumented (g : Graph α) (extraction : Extraction) (root : NodeId)
    (constraints : List Constraint) : Prop where
  answered : (∃ p, g.compile extraction root constraints = .ok p) ↔
    g.Compilable extraction root constraints
  refused : ∀ e, g.compile extraction root constraints = .error e ↔
    g.CompileFault extraction root constraints e
  /-- No operand is missed while the nodes are copied, and no root afterwards. -/
  complete : ∀ roots, g.roots root constraints = .ok roots →
    ∃ a, g.arena.compact (g.marks extraction roots) = .ok a ∧
      ∀ id ∈ root :: constraints.map ConstraintOn.node, ∃ k, a.locate root id = .ok k

section Compiling

variable [Scalar α] {s : Settings} {g : Graph α}

theorem exists_compile_iff (hok : ArenaOK s g.arena) (extraction : Extraction) (root : NodeId)
    (constraints : List Constraint) :
    (∃ p, g.compile extraction root constraints = .ok p) ↔
      g.Compilable extraction root constraints := by
  constructor
  · rintro ⟨p, h⟩
    obtain ⟨roots, hroots, -⟩ := Graph.compile_eq_ok h
    obtain ⟨hroot, hconstraints⟩ := (exists_roots_iff hok).1 ⟨roots, hroots⟩
    obtain ⟨a, hcopy, -, hrefused⟩ := compile_of_roots hok extraction hroots
    refine ⟨hroot, hconstraints, fun n m hn hm hnv hmv => ?_⟩
    have hcommon : ∃ d, commonDimension (keptNodes g.nodes (g.marks extraction roots)) = .ok d := by
      rw [← hcopy]
      cases hd : commonDimension a.nodes with
      | ok d => exact ⟨d, rfl⟩
      | error e =>
        rw [hrefused e hd] at h
        cases h
    exact exists_commonDimension_iff.1 hcommon n ((mem_keptNodes_marks hok hroots).2 hn) m
      ((mem_keptNodes_marks hok hroots).2 hm) hnv hmv
  · rintro ⟨hroot, hconstraints, hsizes⟩
    obtain ⟨roots, hroots⟩ := (exists_roots_iff hok).2 ⟨hroot, hconstraints⟩
    obtain ⟨a, hcopy, hanswered, -⟩ := compile_of_roots hok extraction hroots
    obtain ⟨d, hd⟩ : ∃ d, commonDimension (keptNodes g.nodes (g.marks extraction roots)) =
        .ok d := by
      refine exists_commonDimension_iff.2 fun n hn m hm hnv hmv => ?_
      exact hsizes n m ((mem_keptNodes_marks hok hroots).1 hn)
        ((mem_keptNodes_marks hok hroots).1 hm) hnv hmv
    exact hanswered d (hcopy.trans hd)

/-- The kept nodes' common dimension is refused for the kept variables. -/
theorem commonDimension_kept_eq_error_iff (hok : ArenaOK s g.arena) (extraction : Extraction)
    {root : NodeId} {constraints : List Constraint} {roots : List Nat}
    (hroots : g.roots root constraints = .ok roots) {e : Error α} :
    commonDimension (keptNodes g.nodes (g.marks extraction roots)) = .error e ↔
      ∃ n m, IsFirst (fun n => g.Keeps extraction root constraints n ∧ n.isVariable = true) n ∧
        IsFirst (fun m => g.Keeps extraction root constraints m ∧ m.isVariable = true ∧
          m.dimension ≠ n.dimension) m ∧
        e = .dimensionMismatch .inputs (.size n.dimension) (.size m.dimension) := by
  have hinc : Increasing (keptNodes g.nodes (g.marks extraction roots)) :=
    hok.ids.sublist (keptNodes_sublist ..)
  simp only [commonDimension_eq_error_iff hinc, mem_keptNodes_marks hok hroots]

theorem compile_eq_error_iff (hok : ArenaOK s g.arena) (extraction : Extraction) (root : NodeId)
    (constraints : List Constraint) (e : Error α) :
    g.compile extraction root constraints = .error e ↔
    g.CompileFault extraction root constraints e := by
  constructor
  · intro h
    cases hroots : g.roots root constraints with
    | error e' =>
      have hrefused : g.compile extraction root constraints = .error e' :=
        bind_eq_error.2 (.inl hroots)
      rw [hrefused] at h
      obtain rfl := Except.error.inj h
      exact .roots ((roots_eq_error_iff hok).1 hroots)
    | ok roots =>
      obtain ⟨hroot, hconstraints⟩ := (exists_roots_iff hok).1 ⟨roots, hroots⟩
      obtain ⟨a, hcopy, hanswered, hrefused⟩ := compile_of_roots hok extraction hroots
      cases hd : commonDimension a.nodes with
      | ok d =>
        obtain ⟨p, hp⟩ := hanswered d hd
        rw [hp] at h
        cases h
      | error e' =>
        rw [hrefused e' hd] at h
        obtain rfl := Except.error.inj h
        obtain ⟨n, m, hn, hm, rfl⟩ :=
          (commonDimension_kept_eq_error_iff hok extraction hroots).1 (hcopy.symm.trans hd)
        exact .sizes hroot hconstraints hn hm
  · intro h
    cases h with
    | roots he => exact bind_eq_error.2 (.inl ((roots_eq_error_iff hok).2 he))
    | sizes hroot hconstraints hn hm =>
      obtain ⟨roots, hroots⟩ := (exists_roots_iff hok).2 ⟨hroot, hconstraints⟩
      obtain ⟨a, hcopy, -, hrefused⟩ := compile_of_roots hok extraction hroots
      exact hrefused _ (hcopy.trans
        ((commonDimension_kept_eq_error_iff hok extraction hroots).2 ⟨_, _, hn, hm, rfl⟩))

theorem ArenaOK.compilesAsDocumented (hok : ArenaOK s g.arena) (extraction : Extraction)
    (root : NodeId) (constraints : List Constraint) :
    g.CompilesAsDocumented extraction root constraints := by
  refine ⟨exists_compile_iff hok extraction root constraints,
    compile_eq_error_iff hok extraction root constraints, fun roots hroots => ?_⟩
  obtain ⟨a, ha, hfound⟩ := roots_compact hok hroots extraction
  refine ⟨a, ha, fun id hid => ?_⟩
  obtain ⟨k, hk⟩ := hfound id hid
  exact ⟨k, locate_eq_ok.2 hk⟩

variable [DecidableEq α]

/-- **Every reachable graph compiles as documented**, for any objective and any constraints. -/
theorem compiles_as_documented (commands : List (Command α NodeId)) {h : Nat} {G : Graph α}
    (hG : (Session.runAll commands {}).graph? h = some G) (extraction : Extraction) (root : NodeId)
    (constraints : List Constraint) : G.CompilesAsDocumented extraction root constraints :=
  (graphOK_runAll hG).arena.compilesAsDocumented extraction root constraints

end Compiling

/-- The sum of a variable, and a variable of another size. -/
def strayCommands : List (Command ℚ NodeId) :=
  [.newGraph {}, .graph 0 (.build (.taggedVariable 2 .nonneg)), .graph 0 (.build (.sum ⟨1⟩)),
    .graph 0 (.build (.taggedVariable 3 .unknown))]

/-- The other variable matters if all nodes are kept, and only then. -/
theorem compiles_as_documented_stray : ∃ G, (Session.runAll strayCommands {}).graph? 0 = some G ∧
    (∃ p, G.compile .reachable ⟨2⟩ [⟨⟨2⟩, .zero⟩] = .ok p) ∧
    G.compile .everything ⟨2⟩ [⟨⟨2⟩, .zero⟩] =
      .error (.dimensionMismatch .inputs (.size 2) (.size 3)) := by
  obtain ⟨G, hG, ⟨o, ho, hid, hmatrix, hdim⟩, hbelow, n, hn, hnv, hnd, hleast, m, hm,
      hmv, hmd, hnext⟩ : ∃ G, (Session.runAll strayCommands {}).graph? 0 = some G ∧
        (∃ o, G.nodes[1]? = some o ∧ o.id = ⟨2⟩ ∧ o.isMatrix = false ∧ o.dimension = 1) ∧
        (∀ n ∈ G.nodes.take 2, n.isVariable = true → n.dimension = 2) ∧
        ∃ n ∈ G.nodes, n.isVariable = true ∧ n.dimension = 2 ∧
        (∀ m ∈ G.nodes, n.id.number ≤ m.id.number) ∧
          ∃ m ∈ G.nodes, m.isVariable = true ∧ m.dimension = 3 ∧
            ∀ k ∈ G.nodes, k.isVariable = true ∧ k.dimension ≠ 2 → m.id.number ≤ k.id.number :=
    ⟨((Session.runAll strayCommands {}).graph? 0).getD {}, by decide +kernel⟩
  have hok := (graphOK_runAll hG).arena
  have hnumber : NamesNumber G.nodes ⟨2⟩ := ⟨o, List.mem_of_getElem? ho, hid, hmatrix, hdim⟩
  have hvectors : ∀ c ∈ [(⟨⟨2⟩, .zero⟩ : Constraint)], NamesVector G.nodes c.node := by
    intro c hc
    obtain rfl := List.mem_singleton.1 hc
    exact ⟨o, List.mem_of_getElem? ho, hid, hmatrix⟩
  -- the other variable stands behind the sum, so no path leads there
  have hkept : ∀ k, G.Keeps .reachable ⟨2⟩ [⟨⟨2⟩, .zero⟩] k → k.isVariable = true →
      k.dimension = 2 := by
    rintro k ⟨i, hi, heverything | ⟨r, root, hr, hroot, hri⟩⟩ hv
    · cases heverything
    · have hroot : root.id = ⟨2⟩ := by simpa using hroot
      obtain rfl : r = 1 := Increasing.position_unique hok.ids hr ho (hroot.trans hid.symm)
      have hle : i ≤ 1 := hri.le hok.nodes.operands_lt
      have hmem : (G.nodes.take 2)[i]? = some k := by rw [List.getElem?_take_of_lt (by omega), hi]
      exact hbelow k (List.mem_of_getElem? hmem) hv
  have hall : ∀ k, G.Keeps .everything ⟨2⟩ [⟨⟨2⟩, .zero⟩] k ↔ k ∈ G.nodes := by
    intro k
    rw [List.mem_iff_getElem?]
    exact exists_congr fun i => and_iff_left (.inl rfl)
  refine ⟨G, hG, ?_, ?_⟩
  · refine (compiles_as_documented strayCommands hG _ _ _).answered.2 ⟨hnumber, hvectors, ?_⟩
    intro k l hk hl hkv hlv
    rw [hkept k hk hkv, hkept l hl hlv]
  · have hfault := Graph.CompileFault.sizes (n := n) (m := m) hnumber hvectors
      (IsFirst.congr (fun k => and_congr_left fun _ => hall k) |>.2
        ⟨⟨hn, hnv⟩, fun k hk => hleast k hk.1⟩)
      (IsFirst.congr (fun k => and_congr_left fun _ => hall k) |>.2
        ⟨⟨hm, hmv, by omega⟩, fun k hk => hnext k hk.1 ⟨hk.2.1, hnd ▸ hk.2.2⟩⟩)
    rw [hnd, hmd] at hfault
    exact ((compiles_as_documented strayCommands hG _ _ _).refused _).2 hfault

end MixedMonotone
