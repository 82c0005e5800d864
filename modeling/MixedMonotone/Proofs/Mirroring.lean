import Mathlib
import MixedMonotone.Proofs.Compilable
import MixedMonotone.Proofs.Correspondence
import MixedMonotone.Proofs.ProgramShape
import MixedMonotone.Proofs.Simulation

/-!
# Graphs that hold the same nodes

Two graphs may hold the same nodes at other positions, under other handles, and one of them some of
these nodes more than once. Nothing that a graph answers shows it.

* `Node.Same`: the same node, as far as evaluating and compiling go.
* `Graph.Mirrors`: both graphs hold **the same nodes and no others**, whatever their caches hold.
* `Graph.Mirrors.answer_evaluate_iff`: so evaluations are **answered alike**.
* `Graph.Mirrors.exists_compile_iff`: compiling **succeeds for both or for neither**.
* `Program.Mirrors`: and the programs answer alike, too.
* `Graph.Indistinguishable`: all this together.
-/

namespace MixedMonotone

variable {α : Type}

/-! ## Constraints -/

/-- The same constraint, on a node with a corresponding handle. -/
structure ConstraintOn.Renamed {ρ σ : Type} (H : ρ → σ → Prop) (c : ConstraintOn ρ)
    (c' : ConstraintOn σ) : Prop where
  node : H c.node c'.node
  relation : c'.relation = c.relation

/-- Constraints on nodes at related positions, seen from the other side. -/
theorem ConstraintOn.renamed_flip {R : Nat → Nat → Prop} {nodes nodes' : List (Node α)}
    {constraints constraints' : List Constraint}
    (h : List.Forall₂ (ConstraintOn.Renamed (NamesTogether R nodes nodes')) constraints
      constraints') :
    List.Forall₂ (ConstraintOn.Renamed (NamesTogether (flip R) nodes' nodes)) constraints'
      constraints :=
  h.flip.imp fun _ _ hc => ⟨hc.node.flip, hc.relation.symm⟩

variable [Scalar α]

/-! ## Nodes -/

/-- **The same node**, as far as evaluating and compiling go. The handles, the positions of the
operands and the caches may differ. -/
structure Node.Same (n m : Node α) : Prop where
  tag : m.tag = n.tag
  name : m.name = n.name
  dimension : m.dimension = n.dimension
  isMatrix : m.isMatrix = n.isMatrix
  isVariable : m.isVariable = n.isVariable
  denotes : m.denotes = n.denotes

namespace Node.Same

variable {n m n' m' : Node α}

theorem symm (h : n.Same m) : m.Same n :=
  ⟨h.tag.symm, h.name.symm, h.dimension.symm, h.isMatrix.symm, h.isVariable.symm, h.denotes.symm⟩

/-- What evaluations leave makes no difference. -/
theorem of_blank_eq (h : n.Same m) (hn : n'.blank = n.blank) (hm : m'.blank = m.blank) :
    n'.Same m' := by
  have hcarried : ∀ {β : Type} {f : Node α → β}, (∀ n : Node α, f n.blank = f n) → f m = f n →
      f m' = f n' := by
    intro β f hf hfield
    rw [Node.eq_of_blank hf hn, Node.eq_of_blank hf hm, hfield]
  exact ⟨hcarried Node.blank_tag h.tag, hcarried Node.blank_name h.name,
    hcarried Node.blank_dimension h.dimension,
    hcarried (fun n => congrArg Option.isSome n.blank_matrix?) h.isMatrix,
    hcarried Node.blank_isVariable h.isVariable,
    hcarried (fun n => funext n.blank_denotes) h.denotes⟩

end Node.Same

/-! ## Programs -/

/-- **Two programs of the same objective and the same constraints.** -/
structure Program.Mirrors (p p' : Program α) : Prop where
  left : ∃ s, ProgramOK s p
  right : ∃ s, ProgramOK s p'
  inputDimension : p'.inputDimension = p.inputDimension
  zeroRule : p'.zeroRule = p.zeroRule
  root : denote p'.nodes p'.root = denote p.nodes p.root
  checks : List.Forall₂ (fun c c' => c'.relation = c.relation ∧
    denote p'.nodes c'.position = denote p.nodes c.position) p.constraints p'.constraints

namespace Program

variable {p p' q q' : Program α}

/-- Checking a constraint changes caches only. -/
theorem blank_after_fulfilled {s : Settings} (hok : ProgramOK s p) (index : Nat) (x y : List α) :
    p.blank = ((fulfilled index x y).after p).blank :=
  blank_after (fun _ hP => keeps_fulfilled hP index x y) hok

namespace Mirrors

/-- What evaluations leave makes no difference. -/
theorem of_blank_eq (h : p.Mirrors p') (hq : p.blank = q.blank) (hq' : p'.blank = q'.blank) :
    q.Mirrors q' := by
  obtain ⟨harena, hroot, hchecks, hinput, hzero⟩ := Program.blank_eq_iff.1 hq
  obtain ⟨harena', hroot', hchecks', hinput', hzero'⟩ := Program.blank_eq_iff.1 hq'
  have hdenote : denote q.nodes = denote p.nodes :=
    (denote_alike (Arena.blank_eq_iff.1 harena).1).symm
  have hdenote' : denote q'.nodes = denote p'.nodes :=
    (denote_alike (Arena.blank_eq_iff.1 harena').1).symm
  obtain ⟨s, hok⟩ := h.left
  obtain ⟨s', hok'⟩ := h.right
  refine ⟨⟨s, hok.of_blank_eq hq⟩, ⟨s', hok'.of_blank_eq hq'⟩, ?_, ?_, ?_, ?_⟩
  · rw [← hinput, ← hinput', h.inputDimension]
  · rw [← hzero, ← hzero', h.zeroRule]
  · rw [hdenote, hdenote', ← hroot, ← hroot', h.root]
  · rw [hdenote, hdenote', ← hchecks, ← hchecks']
    exact h.checks

theorem checkInput_eq (h : p.Mirrors p') (x y : List α) : p'.checkInput x y = p.checkInput x y := by
  rw [checkInput, checkInput, h.inputDimension]

/-- **The objective is answered or refused alike.** -/
theorem answer_objective (h : p.Mirrors p') (x y : List α) :
    (objective x y).answer p' = (objective x y).answer p := by
  obtain ⟨s, hok⟩ := h.left
  obtain ⟨s', hok'⟩ := h.right
  have hrefused : ∀ {q : Program α} {e : Error α}, q.checkInput x y = .error e →
      (objective x y).answer q = .error e := by
    intro q e he
    rw [objective, Action.answer_bind, Action.answer_inquire, he]
  cases hcheck : p.checkInput x y with
  | error e => rw [hrefused hcheck, hrefused ((h.checkInput_eq x y).trans hcheck)]
  | ok _ =>
    obtain ⟨v, q, hrun, hv, -⟩ := objective_spec hok hcheck
    obtain ⟨v', q', hrun', hv', -⟩ := objective_spec hok' ((h.checkInput_eq x y).trans hcheck)
    rw [h.root, hv] at hv'
    obtain rfl := List.singleton_inj.1 hv'
    rw [Action.answer_eq_ok.2 ⟨q, hrun⟩, Action.answer_eq_ok.2 ⟨q', hrun'⟩]

/-- **A constraint is checked or refused alike.** -/
theorem answer_fulfilled (h : p.Mirrors p') (index : Nat) (x y : List α) :
    (fulfilled index x y).answer p' = (fulfilled index x y).answer p := by
  obtain ⟨s, hok⟩ := h.left
  obtain ⟨s', hok'⟩ := h.right
  have hchecked := forall₂_rel_getElem? h.checks index
  generalize hc : p.constraints[index]? = c, hc' : p'.constraints[index]? = c' at hchecked
  have hrefused : ∀ {q : Program α} {e : Error α}, q.checkable index x y = .error e →
      (fulfilled index x y).answer q = .error e := by
    intro q e he
    rw [fulfilled, Action.answer_bind, Action.answer_inquire, he]
  cases hchecked with
  | none =>
    rw [hrefused (q := p) (by rw [checkable, hc]), hrefused (q := p') (by rw [checkable, hc']),
      h.checks.length_eq]
  | @some c c' hsame =>
    cases hcheck : p.checkInput x y with
    | error e =>
      have hcheck' := (h.checkInput_eq x y).trans hcheck
      rw [hrefused (q := p) (by rw [checkable, hc, hcheck]; rfl),
        hrefused (q := p') (by rw [checkable, hc', hcheck']; rfl)]
    | ok _ =>
      have hcheck' := (h.checkInput_eq x y).trans hcheck
      have hcheckable : p.checkable index x y = .ok c := by rw [checkable, hc, hcheck]; rfl
      have hcheckable' : p'.checkable index x y = .ok c' := by rw [checkable, hc', hcheck']; rfl
      obtain ⟨q, hrun, -⟩ :=
        onArena_evaluate_spec hok (hok.checks c (List.mem_of_getElem? hc)) hcheck
      obtain ⟨q', hrun', -⟩ :=
        onArena_evaluate_spec hok' (hok'.checks c' (List.mem_of_getElem? hc')) hcheck'
      rw [Action.answer_eq_ok.2 ⟨q, fulfilled_of_onArena hcheckable hrun⟩,
        Action.answer_eq_ok.2 ⟨q', fulfilled_of_onArena hcheckable' hrun'⟩, hsame.1,
        hsame.2, h.zeroRule]

/-- Constraints asked in order are asked in step, as every check changes caches only. -/
theorem answer_fulfilledInOrder (indices : List Nat) (x y : List α) :
    ∀ {p p' : Program α}, p.Mirrors p' →
      (fulfilledInOrder x y indices).answer p' = (fulfilledInOrder x y indices).answer p := by
  induction indices with
  | nil => exact fun _ => rfl
  | cons index rest ih =>
    intro p p' h
    obtain ⟨s, hok⟩ := h.left
    obtain ⟨s', hok'⟩ := h.right
    have hafter :=
      h.of_blank_eq (blank_after_fulfilled hok index x y) (blank_after_fulfilled hok' index x y)
    rw [fulfilledInOrder, Action.answer_bind, Action.answer_bind, h.answer_fulfilled]
    cases (fulfilled index x y).answer p with
    | error e => rfl
    | ok b =>
      cases b
      · rfl
      · exact ih hafter

/-- **All constraints are checked or refused alike.** -/
theorem answer_constraintsHold (h : p.Mirrors p') (x y : List α) :
    (constraintsHold x y).answer p' = (constraintsHold x y).answer p := by
  change (fulfilledInOrder x y (List.range p'.constraints.length)).answer p' =
    (fulfilledInOrder x y (List.range p.constraints.length)).answer p
  rw [← h.checks.length_eq]
  exact answer_fulfilledInOrder _ x y h

end Mirrors

end Program

/-! ## Graphs -/

/-- **Two graphs hold the same nodes** at corresponding positions, and no others. -/
structure Graph.Mirrors (R : Nat → Nat → Prop) (g g' : Graph α) : Prop where
  arena : ArenaOK g.settings g.arena
  arena' : ArenaOK g'.settings g'.arena
  nodes : Corresponds Node.Same R g.nodes g'.nodes
  left : ∀ i < g.nodes.length, ∃ k, R i k
  right : ∀ k < g'.nodes.length, ∃ i, R i k
  zeroRule : g'.settings.zeroRule = g.settings.zeroRule

namespace Graph.Mirrors

variable {R : Nat → Nat → Prop} {g g' G G' : Graph α} {id id' : NodeId}

theorem flip (h : g.Mirrors R g') : g'.Mirrors (flip R) g where
  arena := h.arena'
  arena' := h.arena
  nodes := fun k i hik => by
    obtain ⟨m, n, hm, hn, hnm, hops⟩ := h.nodes.flip k i hik
    exact ⟨m, n, hm, hn, hnm.symm, hops⟩
  left := h.right
  right := h.left
  zeroRule := h.zeroRule.symm

/-- What evaluations leave makes no difference. -/
theorem of_blank_eq (h : g.Mirrors R g') (hG : g.blank = G.blank) (hG' : g'.blank = G'.blank) :
    G.Mirrors R G' := by
  obtain ⟨harena, hsettings, -⟩ := Graph.blank_eq_iff.1 hG
  obtain ⟨harena', hsettings', -⟩ := Graph.blank_eq_iff.1 hG'
  have halike : Alike g.nodes G.nodes := (Arena.blank_eq_iff.1 harena).1
  have halike' : Alike g'.nodes G'.nodes := (Arena.blank_eq_iff.1 harena').1
  refine ⟨hsettings ▸ h.arena.of_blank_eq harena, hsettings' ▸ h.arena'.of_blank_eq harena',
    h.nodes.alike halike halike' fun _ _ _ _ => Node.Same.of_blank_eq, ?_, ?_, ?_⟩
  · rw [← halike.length_eq]
    exact h.left
  · rw [← halike'.length_eq]
    exact h.right
  · rw [← hsettings, ← hsettings', h.zeroRule]

/-- **Two handles of one node**, with where they stand. -/
theorem places (h : g.Mirrors R g') (hid : NamesTogether R g.nodes g'.nodes id id') :
    ∃ i k n m, R i k ∧ g.nodes[i]? = some n ∧ g'.nodes[k]? = some m ∧ n.id = id ∧ m.id = id' ∧
      g.arena.position? id = some i ∧ g'.arena.position? id' = some k ∧ n.Same m := by
  obtain ⟨i, k, n, m, hik, hn, hm, rfl, rfl⟩ := hid
  obtain ⟨n', m', hn', hm', hsame, -⟩ := h.nodes i k hik
  obtain rfl := Option.some.inj (hn.symm.trans hn')
  obtain rfl := Option.some.inj (hm.symm.trans hm')
  exact ⟨i, k, n, m, hik, hn, hm, rfl, rfl, (h.arena.table n.id i).2 ⟨n, hn, rfl⟩,
    (h.arena'.table m.id k).2 ⟨m, hm, rfl⟩, hsame⟩

/-- The one node that bears a handle is the same node. -/
theorem same (h : g.Mirrors R g') (hid : NamesTogether R g.nodes g'.nodes id id') :
    ∃ m ∈ g'.nodes, m.id = id' ∧ ∀ n ∈ g.nodes, n.id = id → n.Same m := by
  obtain ⟨i, k, n, m, -, hn, hm, rfl, rfl, -, -, hsame⟩ := h.places hid
  refine ⟨m, List.mem_of_getElem? hm, rfl, fun n' hn' hid' => ?_⟩
  rwa [h.arena.eq_of_id hn' (List.mem_of_getElem? hn) hid']

/-! ### Evaluating -/

/-- **The same nodes denote the same.** -/
theorem denote_eq (h : g.Mirrors R g') {i k : Nat} (hik : R i k) :
    denote g'.nodes k = denote g.nodes i :=
  h.nodes.byOperands_eq h.arena.nodes.operands_lt h.arena'.nodes.operands_lt (fun _ _ hsame =>
    hsame.denotes) k i hik

/-- What the one graph accepts the other one accepts. -/
theorem evaluable (h : g.Mirrors R g') (hid : NamesTogether R g.nodes g'.nodes id id')
    {x y : List α} {i : Nat} (hi : g.evaluable id x y = .ok i) :
    ∃ k, g'.evaluable id' x y = .ok k ∧ R i k := by
  obtain ⟨hpos, hin, hlen⟩ := (Graph.evaluable_eq_ok h.arena).1 hi
  obtain ⟨j, k, n, m, hjk, hn, hm, -, -, hj, hk, -⟩ := h.places hid
  obtain rfl := Option.some.inj (hpos.symm.trans hj)
  have hin' : InputsFit g'.nodes k ⟨x, y⟩ :=
    h.flip.nodes.inputsFit (fun _ _ hsame => ⟨hsame.isVariable, hsame.dimension⟩) hjk hin
  exact ⟨k, (Graph.evaluable_eq_ok h.arena').2 ⟨hk, hin', hlen⟩, hjk⟩

/-- Accepted points are answered with the value that both nodes denote. -/
theorem answer_evaluate (h : g.Mirrors R g') (hid : NamesTogether R g.nodes g'.nodes id id')
    {x y v : List α} (hv : (Graph.evaluate id x y).answer g = .ok v) :
    (Graph.evaluate id' x y).answer g' = .ok v := by
  cases hi : g.evaluable id x y with
  | error e =>
    rw [Action.answer_eq_error.2 ⟨g, Graph.evaluate_refused hi⟩] at hv
    cases hv
  | ok i =>
    obtain ⟨k, hk, hik⟩ := h.evaluable hid hi
    obtain ⟨g₁, hrun, -⟩ := Graph.evaluate_spec h.arena hi
    obtain ⟨g₁', hrun', -⟩ := Graph.evaluate_spec h.arena' hk
    rw [Action.answer_eq_ok.2 ⟨g₁, hrun⟩] at hv
    rw [Action.answer_eq_ok.2 ⟨g₁', hrun'⟩, h.denote_eq hik, hv]

/-- **The same points are accepted, and answered alike.** -/
theorem answer_evaluate_iff (h : g.Mirrors R g') (hid : NamesTogether R g.nodes g'.nodes id id')
    (x y v : List α) :
    (Graph.evaluate id x y).answer g = .ok v ↔ (Graph.evaluate id' x y).answer g' = .ok v :=
  ⟨h.answer_evaluate hid, h.flip.answer_evaluate hid.flip⟩

/-! ### Compiling -/

section Compiling

variable {root root' : NodeId} {constraints constraints' : List Constraint}
    {extraction : Extraction}

/-- A program's node denotes what the graph's node with its handle denotes, and so does that of a
program on the other side. -/
theorem denote_copy_eq (h : g.Mirrors R g') (hid : NamesTogether R g.nodes g'.nodes id id')
    {s s' : Settings} {p p' : Program α} (hp : p.CompiledFrom s g root)
    (hp' : p'.CompiledFrom s' g' root') {j j' : Nat} (hj : p.nodes[j]?.map Node.id = some id)
    (hj' : p'.nodes[j']?.map Node.id = some id') :
    denote p'.nodes j' = denote p.nodes j := by
  obtain ⟨i, k, n, m, hik, hn, hm, rfl, rfl, -, -, -⟩ := h.places hid
  obtain ⟨c, hc, hcid⟩ := Option.map_eq_some_iff.1 hj
  obtain ⟨c', hc', hcid'⟩ := Option.map_eq_some_iff.1 hj'
  rw [denote_copy hp.copies h.arena.ids h.arena.nodes hp.ok.nodes ⟨n, c, hn, hc, hcid⟩,
    denote_copy hp'.copies h.arena'.ids h.arena'.nodes hp'.ok.nodes ⟨m, c', hm, hc', hcid'⟩,
    h.denote_eq hik]

variable (h : g.Mirrors R g') (hroot : NamesTogether R g.nodes g'.nodes root root')
  (hconstraints : List.Forall₂ (ConstraintOn.Renamed (NamesTogether R g.nodes g'.nodes))
    constraints constraints')

include h hroot hconstraints

/-- **The same nodes are kept.** -/
theorem keeps {n : Node α} (hn : g.Keeps extraction root constraints n) :
    ∃ m, g'.Keeps extraction root' constraints' m ∧ n.Same m := by
  obtain ⟨i, hi, hkept⟩ := hn
  obtain ⟨k, hik, hkept'⟩ : ∃ k, R i k ∧ (extraction = .everything ∨ ∃ r m, g'.nodes[r]? = some m ∧
      m.id ∈ root' :: constraints'.map ConstraintOn.node ∧ Reaches g'.nodes r k) := by
    rcases hkept with heverything | ⟨r, o, ho, hmem, hri⟩
    · obtain ⟨k, hik⟩ := h.left i (List.getElem?_eq_some_iff.1 hi).1
      exact ⟨k, hik, .inl heverything⟩
    · -- the path starts at the objective or at a constraint, and so does the one on the other side
      have hids : List.Forall₂ (NamesTogether R g.nodes g'.nodes)
          (root :: constraints.map ConstraintOn.node)
          (root' :: constraints'.map ConstraintOn.node) := by
        refine .cons hroot ?_
        rw [List.forall₂_map_left_iff, List.forall₂_map_right_iff]
        exact hconstraints.imp fun _ _ hc => hc.node
      obtain ⟨id', hmem', hid⟩ := forall₂_mem_left hids hmem
      obtain ⟨j, l, -, m, hjl, -, hm, -, rfl, hj, -, -⟩ := h.places hid
      obtain rfl := Option.some.inj (hj.symm.trans ((h.arena.table o.id r).2 ⟨o, ho, rfl⟩))
      obtain ⟨k, hik, hlk⟩ := h.nodes.reaches hjl hri
      exact ⟨k, hik, .inr ⟨l, m, hm, hmem', hlk⟩⟩
  obtain ⟨n', m, hn', hm, hsame, -⟩ := h.nodes i k hik
  obtain rfl := Option.some.inj (hi.symm.trans hn')
  exact ⟨m, ⟨k, hm, hkept'⟩, hsame⟩

theorem compilable (hcompilable : g.Compilable extraction root constraints) :
    g'.Compilable extraction root' constraints' := by
  refine ⟨?_, fun c' hc' => ?_, fun n' m' hn' hm' hnv' hmv' => ?_⟩
  · obtain ⟨n, hn, hid, hmatrix, hdim⟩ := hcompilable.number
    obtain ⟨m, hm, hid', hall⟩ := h.same hroot
    have hsame := hall n hn hid
    exact ⟨m, hm, hid', hsame.isMatrix.trans hmatrix, hsame.dimension.trans hdim⟩
  · obtain ⟨c, hc, hrenamed⟩ := forall₂_mem_left hconstraints.flip hc'
    obtain ⟨n, hn, hid, hmatrix⟩ := hcompilable.vectors c hc
    obtain ⟨m, hm, hid', hall⟩ := h.same hrenamed.node
    exact ⟨m, hm, hid', (hall n hn hid).isMatrix.trans hmatrix⟩
  · have hconstraints' := ConstraintOn.renamed_flip hconstraints
    obtain ⟨n, hn, hsame⟩ := h.flip.keeps hroot.flip hconstraints' hn'
    obtain ⟨m, hm, hsame'⟩ := h.flip.keeps hroot.flip hconstraints' hm'
    rw [← hsame.dimension, ← hsame'.dimension]
    exact hcompilable.sizes n m hn hm (hsame.isVariable.trans hnv') (hsame'.isVariable.trans hmv')

/-- **Compiling succeeds for both or for neither.** -/
theorem exists_compile_iff :
    (∃ p, g.compile extraction root constraints = .ok p) ↔
      ∃ p', g'.compile extraction root' constraints' = .ok p' := by
  rw [MixedMonotone.exists_compile_iff h.arena, MixedMonotone.exists_compile_iff h.arena']
  exact ⟨h.compilable hroot hconstraints,
    h.flip.compilable hroot.flip (ConstraintOn.renamed_flip hconstraints)⟩

/-- The variables of a program have the sizes of those that it keeps. -/
theorem inputDimension_of_keeps {p p' : Program α}
    (hp : g.compile extraction root constraints = .ok p)
    (hp' : g'.compile extraction root' constraints' = .ok p') {d : Nat}
    (hd : p.inputDimension = some d) : p'.inputDimension = some d := by
  have hshape := h.arena.shapedBy hp
  have hshape' := h.arena'.shapedBy hp'
  obtain ⟨kept, -, hkeeps, hcopies⟩ := hshape.nodes
  obtain ⟨kept', -, hkeeps', hcopies'⟩ := hshape'.nodes
  obtain ⟨⟨c, hc, hcv⟩, hall⟩ := (hshape.dimension d).1 hd
  refine (hshape'.dimension d).2 ⟨?_, fun c' hc' hcv' => ?_⟩
  · obtain ⟨n, hn, hcopy⟩ := forall₂_mem_left hcopies.flip hc
    obtain ⟨m, hm, hsame⟩ := h.keeps hroot hconstraints ((hkeeps n).1 hn)
    obtain ⟨c', hc', hcopy'⟩ := forall₂_mem_left hcopies' ((hkeeps' m).2 hm)
    exact ⟨c', hc', by rw [hcopy'.isVariable_eq, hsame.isVariable, ← hcopy.isVariable_eq, hcv]⟩
  · obtain ⟨m, hm, hcopy'⟩ := forall₂_mem_left hcopies'.flip hc'
    obtain ⟨n, hn, hsame⟩ :=
      h.flip.keeps hroot.flip (ConstraintOn.renamed_flip hconstraints) ((hkeeps' m).1 hm)
    obtain ⟨c, hc, hcopy⟩ := forall₂_mem_left hcopies ((hkeeps n).2 hn)
    have hcv : c.isVariable = true := by
      rw [hcopy.isVariable_eq, hsame.isVariable, ← hcopy'.isVariable_eq, hcv']
    rw [← hall c hc hcv, hcopy'.dimension_eq, hcopy.dimension_eq, hsame.dimension]

/-- **The programs are of the same objective and constraints.** -/
theorem compile_mirrors {p p' : Program α} (hp : g.compile extraction root constraints = .ok p)
    (hp' : g'.compile extraction root' constraints' = .ok p') : p.Mirrors p' := by
  have hcompiled := compile_spec h.arena hp
  have hcompiled' := compile_spec h.arena' hp'
  have hshape := h.arena.shapedBy hp
  have hshape' := h.arena'.shapedBy hp'
  refine ⟨⟨_, hcompiled.ok⟩, ⟨_, hcompiled'.ok⟩, ?_, ?_, ?_, ?_⟩
  · refine Option.ext fun d => ⟨fun hd => ?_, fun hd => ?_⟩
    · exact h.flip.inputDimension_of_keeps hroot.flip
        (ConstraintOn.renamed_flip hconstraints) hp' hp hd
    · exact h.inputDimension_of_keeps hroot hconstraints hp hp' hd
  · rw [(compile_simulates h.arena hp).zeroRule, (compile_simulates h.arena' hp').zeroRule,
      h.zeroRule]
  · exact h.denote_copy_eq hroot hcompiled hcompiled' hshape.root hshape'.root
  · -- the checks stand in the order of the constraints on both sides
    have hlen := hshape.constraints.length_eq.symm.trans
      (hconstraints.length_eq.trans hshape'.constraints.length_eq)
    refine forall₂_of_getElem? hlen fun j check check' hcheck hcheck' => ?_
    obtain ⟨c, hc, hrelation, hat⟩ := forall₂_getElem?_right hshape.constraints hcheck
    obtain ⟨c', hc', hrenamed⟩ := forall₂_getElem? hconstraints hc
    obtain ⟨_, hsecond, hrelation', hat'⟩ := forall₂_getElem? hshape'.constraints hc'
    obtain rfl := Option.some.inj (hcheck'.symm.trans hsecond)
    exact ⟨by rw [hrelation', hrenamed.relation, hrelation],
      h.denote_copy_eq hrenamed.node hcompiled hcompiled' hat hat'⟩

end Compiling

end Graph.Mirrors

/-! ## Telling graphs apart -/

/-- **Nothing tells two graphs apart**, where handles correspond. -/
structure Graph.Indistinguishable (H : NodeId → NodeId → Prop) (g g' : Graph α) : Prop where
  nodes : ∀ id id', H id id' → ∃ n m, g.arena.node id = .ok n ∧ g'.arena.node id' = .ok m ∧
    m.dimension = n.dimension ∧ m.tag = n.tag ∧ m.name = n.name
  /-- The same points are accepted, and answered alike. -/
  evaluate : ∀ id id', H id id' → ∀ x y v,
    (Graph.evaluate id x y).answer g = .ok v ↔ (Graph.evaluate id' x y).answer g' = .ok v
  /-- Compiling succeeds for both or for neither. -/
  compile : ∀ extraction root root' constraints constraints', H root root' →
    List.Forall₂ (ConstraintOn.Renamed H) constraints constraints' →
      ((∃ p, g.compile extraction root constraints = .ok p) ↔
        ∃ p', g'.compile extraction root' constraints' = .ok p')
  /-- The programs answer alike, whatever they were asked before. -/
  programs : ∀ extraction root root' constraints constraints', H root root' →
    List.Forall₂ (ConstraintOn.Renamed H) constraints constraints' →
      ∀ p p', g.compile extraction root constraints = .ok p →
      g'.compile extraction root' constraints' = .ok p' →
        ∀ q q', p.blank = q.blank → p'.blank = q'.blank → ∀ x y,
          (Program.objective x y).answer q' = (Program.objective x y).answer q ∧
          (Program.constraintsHold x y).answer q' = (Program.constraintsHold x y).answer q ∧
          ∀ index, (Program.fulfilled index x y).answer q' = (Program.fulfilled index x y).answer q

/-- **Graphs that hold the same nodes cannot be told apart.** -/
theorem Graph.Mirrors.indistinguishable {R : Nat → Nat → Prop} {H : NodeId → NodeId → Prop}
    {g g' : Graph α} (h : g.Mirrors R g')
    (hH : ∀ id id', H id id' → NamesTogether R g.nodes g'.nodes id id') :
    g.Indistinguishable H g' := by
  have hconstraints : ∀ {constraints constraints' : List Constraint},
      List.Forall₂ (ConstraintOn.Renamed H) constraints constraints' →
        List.Forall₂ (ConstraintOn.Renamed (NamesTogether R g.nodes g'.nodes)) constraints
        constraints' :=
    fun hs => hs.imp fun _ _ hc => ⟨hH _ _ hc.node, hc.relation⟩
  refine ⟨fun id id' hid => ?_, fun id id' hid => h.answer_evaluate_iff (hH id id' hid), ?_, ?_⟩
  · obtain ⟨i, k, n, m, -, hn, hm, rfl, rfl, -, -, hsame⟩ := h.places (hH id id' hid)
    exact ⟨n, m, h.arena.node_eq hn, h.arena'.node_eq hm, hsame.dimension, hsame.tag, hsame.name⟩
  · intro extraction root root' constraints constraints' hroot hs
    exact h.exists_compile_iff (hH root root' hroot) (hconstraints hs)
  · intro extraction root root' constraints constraints' hroot hs p p' hp hp' q q' hq hq' x y
    have hmirrors :=
      (h.compile_mirrors (hH root root' hroot) (hconstraints hs) hp hp').of_blank_eq hq hq'
    exact ⟨hmirrors.answer_objective x y, hmirrors.answer_constraintsHold x y,
      fun index => hmirrors.answer_fulfilled index x y⟩

end MixedMonotone
