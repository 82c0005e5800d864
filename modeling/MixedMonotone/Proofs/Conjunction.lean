import Mathlib
import MixedMonotone.Proofs.Compilable
import MixedMonotone.Proofs.Mirroring
import MixedMonotone.Proofs.Persistence
import MixedMonotone.Proofs.Residue

/-!
# All constraints at once

The constraints of a program share nodes, so that checking one overwrites what another one has left.
They are asked in order, up to the first that does not hold.

* `Program.verdict`: whether a constraint holds, as a function of the points alone.
* `Program.afterAsking`, `Program.Asks`: the constraints asked one by one, and **how far** a
  conjunction asks them.
* `fulfilledInOrder_asks`: one constraint after the other, by induction on those that are left.
* `Program.answer_constraintsHold`: the answer **in closed form**, also for points of another size.
* `Program.Rearranged`, `compile_rearranged`: the same constraints in any order and number, and that
  compiling them gives the same program apart from their list.
* `constraints_are_a_conjunction`, `constraints_refuse_as_objective`: what this means
  for reachable programs.
-/

namespace MixedMonotone

variable {α : Type}

namespace Program

variable {s : Settings} {p q : Program α} {x y : List α}

/-- Points are refused for their lengths alone. -/
theorem checkInput_eq_error_iff {e : Error α} :
    p.checkInput x y = .error e ↔
      ¬ p.Takes x y ∧ e = .inputDimension (p.inputDimension.getD x.length) x.length y.length := by
  rw [← checkInput_eq_ok_iff]
  unfold checkInput
  dsimp only
  split
  · simp
  · simp [eq_comm]

variable [Scalar α]

/-! ## One constraint -/

/-- **Whether a constraint holds** at the points, by the pure value of its node. -/
def verdict (p : Program α) (x y : List α) (c : Check) : Bool :=
  c.relation.holds (denote p.nodes c.position ⟨x, y⟩) p.zeroRule

/-- What evaluations leave makes no difference. -/
theorem verdict_eq_of_blank_eq (h : p.blank = q.blank) (x y : List α) :
    q.verdict x y = p.verdict x y := by
  obtain ⟨harena, -, -, -, hzero⟩ := Program.blank_eq_iff.1 h
  have hdenote : denote p.nodes = denote q.nodes := denote_alike (Arena.blank_eq_iff.1 harena).1
  funext c
  rw [verdict, verdict, hdenote, hzero]

/-- A constraint that is asked is answered with its verdict, and only nodes below it are
overwritten. -/
theorem fulfilled_verdict (hok : ProgramOK s p) (htakes : p.Takes x y) {i : Nat} {c : Check}
    (hc : p.constraints[i]? = some c) :
    ∃ p', fulfilled i x y p = .ok (p.verdict x y c) p' ∧ p.blank = p'.blank ∧
      ∀ j, ¬ Reaches p.nodes c.position j → p'.nodes[j]? = p.nodes[j]? := by
  have hcheckable : p.checkable i x y = .ok c :=
    checkable_eq_ok_iff.2 ⟨hc, checkInput_eq_ok_iff.2 htakes⟩
  obtain ⟨p', hrun, hblank, hleaves⟩ :=
    hok.onArena_leaves (hok.checks c (List.mem_of_getElem? hc)) htakes
  exact ⟨p', fulfilled_of_onArena hcheckable hrun, hblank, hleaves.unreached⟩

theorem answer_fulfilled_eq (hok : ProgramOK s p) (htakes : p.Takes x y) {i : Nat} {c : Check}
    (hc : p.constraints[i]? = some c) : (fulfilled i x y).answer p = .ok (p.verdict x y c) := by
  obtain ⟨p', hrun, -⟩ := fulfilled_verdict hok htakes hc
  exact Action.answer_eq_ok.2 ⟨p', hrun⟩

theorem takes_of_blank_eq (h : p.blank = q.blank) : q.Takes x y ↔ p.Takes x y := by
  obtain ⟨-, -, -, hinput, -⟩ := Program.blank_eq_iff.1 h
  rw [Takes, Takes, hinput]

/-! ## One after the other -/

/-- The program after the constraints with the given indices were asked, **one call
after the other**. -/
def afterAsking (x y : List α) (indices : List Nat) (p : Program α) : Program α :=
  indices.foldl (fun p i => (fulfilled i x y).after p) p

theorem afterAsking_concat (x y : List α) (indices : List Nat) (i : Nat) (p : Program α) :
    p.afterAsking x y (indices ++ [i]) = (fulfilled i x y).after (p.afterAsking x y indices) := by
  rw [afterAsking, List.foldl_append]
  rfl

/-- Asking changes caches only. -/
theorem blank_afterAsking (hok : ProgramOK s p) (x y : List α) (indices : List Nat) :
    p.blank = (p.afterAsking x y indices).blank := by
  induction indices generalizing p with
  | nil => rfl
  | cons i rest ih =>
    have hblank := blank_after_fulfilled hok i x y
    exact hblank.trans (ih (hok.of_blank_eq hblank))

/-- **A node below none of the constraints that were asked** is as it was. -/
theorem afterAsking_unreached (hok : ProgramOK s p) (htakes : p.Takes x y) {indices : List Nat}
    (hin : ∀ i ∈ indices, i < p.constraints.length) {j : Nat}
    (hj : ∀ i ∈ indices, ∀ c, p.constraints[i]? = some c → ¬ Reaches p.nodes c.position j) :
    (p.afterAsking x y indices).nodes[j]? = p.nodes[j]? := by
  induction indices generalizing p with
  | nil => rfl
  | cons i rest ih =>
    obtain ⟨c, hc⟩ : ∃ c, p.constraints[i]? = some c :=
      ⟨_, List.getElem?_eq_getElem (hin i List.mem_cons_self)⟩
    obtain ⟨p', hrun, hblank, hunreached⟩ := fulfilled_verdict hok htakes hc
    obtain ⟨harena, -, hchecks, -, -⟩ := Program.blank_eq_iff.1 hblank
    have halike : Alike p.nodes p'.nodes := (Arena.blank_eq_iff.1 harena).1
    have hrest : (p'.afterAsking x y rest).nodes[j]? = p'.nodes[j]? := by
      refine ih (hok.of_blank_eq hblank) ((takes_of_blank_eq hblank).2 htakes) ?_ ?_
      · exact fun k hk => hchecks ▸ hin k (List.mem_cons_of_mem _ hk)
      · intro k hk c hck hreach
        refine hj k (List.mem_cons_of_mem _ hk) c (hchecks ▸ hck) ?_
        exact hreach.congr fun l => (halike.operandsAt_eq l).symm
    rw [afterAsking, List.foldl_cons, Action.after_eq_of_ok hrun]
    exact hrest.trans (hunreached j (hj i List.mem_cons_self _ hc))

/-- **How many constraints a conjunction asks, and what it answers**: all of them if each one holds
when asked alone; otherwise those up to the first that does not. -/
inductive Asks (p : Program α) (x y : List α) : Nat → Bool → Prop
  | all (hholds : ∀ i < p.constraints.length, (fulfilled i x y).answer p = .ok true) :
      Asks p x y p.constraints.length true
  | upTo {k : Nat} (hk : k < p.constraints.length) (hbefore : ∀ i < k,
      (fulfilled i x y).answer p = .ok true)
      (hfails : (fulfilled k x y).answer p = .ok false) : Asks p x y (k + 1) false

theorem Asks.le {asked : Nat} {b : Bool} (h : p.Asks x y asked b) :
    asked ≤ p.constraints.length := by
  cases h with
  | all => exact le_rfl
  | upTo hk => exact hk

/-- **The rest of the constraints**, after the first ones were asked and have held. -/
theorem fulfilledInOrder_asks (hok : ProgramOK s p) (htakes : p.Takes x y) {done left : Nat}
    (hcount : done + left = p.constraints.length)
    (hholds : ∀ i < done, (fulfilled i x y).answer p = .ok true) :
    ∃ asked b, p.Asks x y asked b ∧
      fulfilledInOrder x y (List.range' done left) (p.afterAsking x y (List.range done)) =
        .ok b (p.afterAsking x y (List.range asked)) := by
  induction left generalizing done with
  | zero =>
    obtain rfl : done = p.constraints.length := hcount
    exact ⟨_, true, .all hholds, rfl⟩
  | succ left ih =>
    have hlt : done < p.constraints.length := by omega
    obtain ⟨c, hc⟩ : ∃ c, p.constraints[done]? = some c := ⟨_, List.getElem?_eq_getElem hlt⟩
    have hblank := blank_afterAsking hok x y (List.range done)
    have hc' := hc
    rw [(Program.blank_eq_iff.1 hblank).2.2.1] at hc'
    -- the state that the earlier constraints have left makes no difference to the verdict
    obtain ⟨q, hrun, -, -⟩ :=
      fulfilled_verdict (hok.of_blank_eq hblank) ((takes_of_blank_eq hblank).2 htakes) hc'
    rw [verdict_eq_of_blank_eq hblank] at hrun
    have hnext : q = p.afterAsking x y (List.range (done + 1)) := by
      rw [List.range_succ, afterAsking_concat, Action.after_eq_of_ok hrun]
    have halone := answer_fulfilled_eq hok htakes hc
    rw [List.range'_succ, fulfilledInOrder, Action.bind_of_ok hrun, hnext]
    cases hverdict : p.verdict x y c with
    | false =>
      rw [hverdict] at halone
      exact ⟨done + 1, false, .upTo hlt hholds halone, rfl⟩
    | true =>
      rw [hverdict] at halone
      refine ih (by omega) fun i hi => ?_
      rcases Nat.lt_succ_iff_lt_or_eq.1 hi with hi | rfl
      · exact hholds i hi
      · exact halone

/-- **A conjunction asks the constraints in order**, up to the first that does not hold. -/
theorem constraintsHold_asks (hok : ProgramOK s p) (htakes : p.Takes x y) :
    ∃ asked b, p.Asks x y asked b ∧
      constraintsHold x y p = .ok b (p.afterAsking x y (List.range asked)) := by
  have hrun := fulfilledInOrder_asks hok htakes (Nat.zero_add p.constraints.length) (by simp)
  rw [← List.range_eq_range'] at hrun
  exact hrun

/-! ## The answer -/

theorem Asks.eq_all {asked : Nat} {b : Bool} (h : p.Asks x y asked b) (hok : ProgramOK s p)
    (htakes : p.Takes x y) : b = p.constraints.all (p.verdict x y) := by
  cases h with
  | all hholds =>
    refine (List.all_eq_true.2 fun c hc => ?_).symm
    obtain ⟨i, hi, rfl⟩ := List.mem_iff_getElem.1 hc
    have hanswer := hholds i hi
    rw [answer_fulfilled_eq hok htakes (List.getElem?_eq_getElem hi)] at hanswer
    exact Except.ok.inj hanswer
  | @upTo k hk _ hfails =>
    refine (List.all_eq_false.2 ⟨p.constraints[k], List.getElem_mem hk, ?_⟩).symm
    rw [answer_fulfilled_eq hok htakes (List.getElem?_eq_getElem hk)] at hfails
    rw [Except.ok.inj hfails]
    exact Bool.false_ne_true

/-- The objective is refused for the lengths of the points alone. -/
theorem answer_objective_eq_error_iff (hok : ProgramOK s p) {x y : List α} {e : Error α} :
    (objective x y).answer p = .error e ↔ p.checkInput x y = .error e := by
  cases hcheck : p.checkInput x y with
  | ok _ =>
    obtain ⟨v, p', hrun, -⟩ := objective_spec hok hcheck
    rw [Action.answer_eq_ok.2 ⟨p', hrun⟩]
    exact ⟨fun h => absurd h nofun, fun h => absurd h nofun⟩
  | error e' =>
    have hrun : objective x y p = .error e' p := by rw [objective, Action.inquire_bind_eq, hcheck]
    rw [Action.answer_eq_error.2 ⟨p, hrun⟩]
    simp

/-- **The answer in closed form.** Without constraints every pair of points will do, whatever its
size; otherwise the points are checked, and all verdicts are put together. -/
theorem answer_constraintsHold (hok : ProgramOK s p) (x y : List α) :
    (constraintsHold x y).answer p =
      if p.constraints = [] then .ok true
      else (p.checkInput x y).map fun _ => p.constraints.all (p.verdict x y) := by
  cases hcheck : p.checkInput x y with
  | ok _ =>
    have htakes := checkInput_eq_ok_iff.1 hcheck
    obtain ⟨asked, b, hasks, hrun⟩ := constraintsHold_asks hok htakes
    rw [Action.answer_eq_ok.2 ⟨_, hrun⟩, hasks.eq_all hok htakes]
    split
    · rename_i hnone
      rw [hnone]
      rfl
    · rfl
  | error e =>
    cases hconstraints : p.constraints with
    | nil =>
      rw [constraintsHold, Action.answer, Action.get_bind, hconstraints]
      rfl
    | cons c rest =>
      -- the first constraint is refused
      have hfirst : fulfilled 0 x y p = .error e p := by
        rw [fulfilled, Action.inquire_bind_eq, checkable, hconstraints,
          List.getElem?_cons_zero, hcheck]
        rfl
      rw [constraintsHold, Action.answer, Action.get_bind, hconstraints, List.length_cons,
        List.range_succ_eq_map, fulfilledInOrder, Action.bind_of_error hfirst]
      rfl

/-! ## Other lists of the same constraints -/

/-- **The same program but for the order and the number** in which its constraints are
listed, and for caches. -/
structure Rearranged (p q : Program α) : Prop where
  arena : p.arena.blank = q.arena.blank
  root : p.root = q.root
  inputDimension : p.inputDimension = q.inputDimension
  zeroRule : p.zeroRule = q.zeroRule
  constraints : ∀ c, c ∈ q.constraints ↔ c ∈ p.constraints

namespace Rearranged

/-- Up to its list of constraints, the program is the same. -/
theorem blank_eq (h : p.Rearranged q) :
    ({ p with constraints := q.constraints } : Program α).blank = q.blank :=
  Program.blank_eq_iff.2 ⟨h.arena, h.root, rfl, h.inputDimension, h.zeroRule⟩

theorem ok (h : p.Rearranged q) (hok : ProgramOK s p) : ProgramOK s q :=
  ProgramOK.of_blank_eq (p := { p with constraints := q.constraints })
    ⟨hok.arena, hok.root, fun c hc => hok.checks c ((h.constraints c).1 hc), hok.inputs,
      hok.declared⟩ h.blank_eq

/-- **The answer does not depend on the list.** -/
theorem answer_eq (h : p.Rearranged q) (hok : ProgramOK s p) (x y : List α) :
    (constraintsHold x y).answer q = (constraintsHold x y).answer p := by
  have hverdict : q.verdict x y = p.verdict x y :=
    verdict_eq_of_blank_eq (p := { p with constraints := q.constraints }) h.blank_eq x y
  have hempty : q.constraints = [] ↔ p.constraints = [] := by
    simp only [List.eq_nil_iff_forall_not_mem, h.constraints]
  have hall : q.constraints.all (p.verdict x y) = p.constraints.all (p.verdict x y) := by
    rw [Bool.eq_iff_iff, List.all_eq_true, List.all_eq_true]
    simp only [h.constraints]
  have hcheck : q.checkInput x y = p.checkInput x y := by
    rw [checkInput, checkInput, h.inputDimension]
  rw [answer_constraintsHold hok, answer_constraintsHold (h.ok hok), hverdict, hall, hcheck]
  simp only [hempty]

end Rearranged

end Program

/-! ## Compiling another list of the same constraints -/

section Compiling

variable {s : Settings} {g : Graph α} {extraction : Extraction} {root : NodeId}
    {cs cs' : List Constraint}

/-- The same nodes are kept. -/
theorem Graph.keeps_congr (h : ∀ c, c ∈ cs' ↔ c ∈ cs) (n : Node α) :
    g.Keeps extraction root cs' n ↔ g.Keeps extraction root cs n := by
  have hnamed : ∀ id, id ∈ root :: cs'.map ConstraintOn.node ↔
      id ∈ root :: cs.map ConstraintOn.node := by
    intro id
    simp only [List.mem_cons, List.mem_map, h]
  simp only [Graph.Keeps, hnamed]

/-- Nodes in order are determined by which ones there are. -/
theorem Increasing.eq_of_mem_iff {nodes nodes' : List (Node α)} (h : Increasing nodes)
    (h' : Increasing nodes') (hmem : ∀ n, n ∈ nodes ↔ n ∈ nodes') : nodes = nodes' := by
  have hnodup : ∀ {l : List (Node α)}, Increasing l →
      l.Nodup := fun hl => hl.imp fun {n m} hlt heq => by
    rw [heq] at hlt
    exact lt_irrefl _ hlt
  have hperm : nodes.Perm nodes' := (List.perm_ext_iff_of_nodup (hnodup h) (hnodup h')).2 hmem
  exact hperm.eq_of_pairwise (fun a b _ _ hab hba => absurd (hab.trans hba) (lt_irrefl _)) h h'

variable [Scalar α]

/-- **Compiling another list of the same constraints** succeeds alike, and gives the same program
apart from the list. -/
theorem compile_rearranged (hok : ArenaOK s g.arena) {p : Program α}
    (hp : g.compile extraction root cs = .ok p) (h : ∀ c, c ∈ cs' ↔ c ∈ cs) :
    ∃ q, g.compile extraction root cs' = .ok q ∧ p.Rearranged q := by
  have hcompilable := (exists_compile_iff hok extraction root cs).1 ⟨p, hp⟩
  obtain ⟨q, hq⟩ := (exists_compile_iff hok extraction root cs').2
    ⟨hcompilable.number, fun c hc => hcompilable.vectors c ((h c).1 hc), fun n m hn hm =>
      hcompilable.sizes n m ((Graph.keeps_congr h n).1 hn) ((Graph.keeps_congr h m).1 hm)⟩
  obtain ⟨roots, hroots, harena, hdim, hroot, hchecks⟩ := Graph.compile_eq_ok hp
  obtain ⟨roots', hroots', harena', hdim', hroot', hchecks'⟩ := Graph.compile_eq_ok hq
  -- the same nodes are kept, in order, so the copies are equal
  have hkept : keptNodes g.nodes (g.marks extraction roots) =
      keptNodes g.nodes (g.marks extraction roots') := by
    refine Increasing.eq_of_mem_iff (hok.ids.sublist (keptNodes_sublist ..))
      (hok.ids.sublist (keptNodes_sublist ..)) fun n => ?_
    rw [mem_keptNodes_marks hok hroots, mem_keptNodes_marks hok hroots', Graph.keeps_congr h]
  have hcopy : p.arena = q.arena := by
    rw [Arena.compact_eq] at harena harena'
    have hsame := harena.symm.trans ((congrArg _ hkept).trans harena')
    exact Except.ok.inj hsame
  rw [← hcopy] at hchecks'
  have hposition : ∀ (c : Constraint) (k k' : Check),
      (p.arena.position? c.node = some k.position ∧ k.relation = c.relation) →
      (p.arena.position? c.node = some k'.position ∧ k'.relation = c.relation) → k = k' := by
    rintro c ⟨i, r⟩ ⟨i', r'⟩ ⟨hi, rfl⟩ ⟨hi', rfl⟩
    obtain rfl := Option.some.inj (hi.symm.trans hi')
    rfl
  refine ⟨q, hq, ⟨by rw [hcopy], ?_, ?_, ?_, fun k => ⟨?_, ?_⟩⟩⟩
  · rw [hcopy] at hroot
    exact Option.some.inj (hroot.symm.trans hroot')
  · rw [Program.nodes, hcopy] at hdim
    exact Except.ok.inj (hdim.symm.trans hdim')
  · rw [(compile_simulates hok hp).zeroRule, (compile_simulates hok hq).zeroRule]
  · exact mem_of_forall₂ hposition hchecks' hchecks fun c => (h c).1
  · exact mem_of_forall₂ hposition hchecks hchecks' fun c => (h c).2

end Compiling

/-! ## Reachable programs -/

section Reachable

variable [Scalar α] {s : Settings} {p q : Program α}

/-- **At accepted points, constraints are checked one after the other up to the first that does not
hold**, and asking them all answers whether each one holds when asked alone. What is left is what
these calls leave: nothing but caches can change, and what stands below none of the constraints
asked is as it was. -/
structure Program.ChecksInOrder (p : Program α) : Prop where
  conjunction : ∀ x y, p.Takes x y → ((constraintsHold x y).answer p = .ok true ↔
    ∀ i < p.constraints.length, (fulfilled i x y).answer p = .ok true)
  run : ∀ x y, p.Takes x y → ∃ asked b, p.Asks x y asked b ∧
    constraintsHold x y p = .ok b (p.afterAsking x y (List.range asked)) ∧
    p.blank = (p.afterAsking x y (List.range asked)).blank ∧
    ∀ j, (∀ i < asked, ∀ c, p.constraints[i]? = some c → ¬ Reaches p.nodes c.position j) →
      (p.afterAsking x y (List.range asked)).nodes[j]? = p.nodes[j]?

theorem ProgramOK.checksInOrder (hok : ProgramOK s p) : p.ChecksInOrder := by
  refine ⟨fun x y htakes => ?_, fun x y htakes => ?_⟩
  · obtain ⟨asked, b, hasks, hrun⟩ := Program.constraintsHold_asks hok htakes
    rw [Action.answer_eq_ok.2 ⟨_, hrun⟩]
    cases hasks with
    | all hholds => exact ⟨fun _ => hholds, fun _ => rfl⟩
    | upTo hk _ hfails =>
      refine ⟨fun h => absurd h nofun, fun hholds => ?_⟩
      exact absurd (hfails.symm.trans (hholds _ hk)) nofun
  · obtain ⟨asked, b, hasks, hrun⟩ := Program.constraintsHold_asks hok htakes
    refine ⟨asked, b, hasks, hrun, Program.blank_afterAsking hok x y _, fun j hj => ?_⟩
    refine Program.afterAsking_unreached hok htakes (fun i hi => ?_) fun i hi =>
      hj i (List.mem_range.1 hi)
    exact (List.mem_range.1 hi).trans_le hasks.le

/-- A program and what evaluations have made of it answer alike. -/
theorem ProgramOK.mirrors (hok : ProgramOK s p) (h : p.blank = q.blank) : p.Mirrors q := by
  have hself : p.Mirrors p :=
    ⟨⟨s, hok⟩, ⟨s, hok⟩, rfl, rfl, rfl, List.forall₂_same.2 fun _ _ => ⟨rfl, rfl⟩⟩
  exact hself.of_blank_eq rfl h

variable [DecidableEq α]

/-- **Asking for all constraints is a conjunction that stops early.** So the answer depends neither
on the order of the constraints, nor on how often each one is listed, nor on what was evaluated
before: not for one and the same program, whatever commands come in between, and not for programs
compiled with other lists of the same constraints. -/
theorem constraints_are_a_conjunction (commands : List (Command α NodeId)) {g : Nat} {G : Graph α}
    (hG : (Session.runAll commands {}).graph? g = some G) :
    (∀ p P, (Session.runAll commands {}).program? g p = some P → P.ChecksInOrder ∧
      (∀ later Q, (Session.runAll (commands ++ later) {}).program? g p = some Q → ∀ x y,
        (Program.constraintsHold x y).answer Q = (Program.constraintsHold x y).answer P ∧
          ∀ i, (Program.fulfilled i x y).answer Q = (Program.fulfilled i x y).answer P) ∧
      ∀ Q, P.Rearranged Q → ∀ x y,
        (Program.constraintsHold x y).answer Q = (Program.constraintsHold x y).answer P) ∧
    ∀ extraction root cs cs' P, G.compile extraction root cs = .ok P → (∀ c, c ∈ cs' ↔ c ∈ cs) →
      ∃ Q, G.compile extraction root cs' = .ok Q ∧ ∀ x y,
        (Program.constraintsHold x y).answer Q = (Program.constraintsHold x y).answer P := by
  refine ⟨fun p P hP => ?_, fun extraction root cs cs' P hP hsame => ?_⟩
  · obtain ⟨s, hok⟩ := programOK_runAll hP
    refine ⟨hok.checksInOrder, fun later Q hQ x y => ?_, fun Q hQ => hQ.answer_eq hok⟩
    obtain ⟨Q', hQ', hblank⟩ := program_stays hP later
    obtain rfl := Option.some.inj (hQ.symm.trans hQ')
    have hmirrors := hok.mirrors hblank
    exact ⟨hmirrors.answer_constraintsHold x y, fun i => hmirrors.answer_fulfilled i x y⟩
  · have hok := (graphOK_runAll hG).arena
    obtain ⟨Q, hQ, hrearranged⟩ := compile_rearranged hok hP hsame
    exact ⟨Q, hQ, hrearranged.answer_eq (compile_spec hok hP).ok⟩

/-- The sum of a variable, with constraints on its components and on the sum itself. -/
def threefoldCommands : List (Command ℚ NodeId) :=
  [.newGraph {}, .graph 0 (.build (.taggedVariable 2 .unknown)),
    .graph 0 (.build (.component ⟨1⟩ 0)), .graph 0 (.build (.component ⟨1⟩ 1)),
    .graph 0 (.build (.sum ⟨1⟩)),
    .graph 0 (.compile .everything ⟨4⟩
      [⟨⟨2⟩, .nonNegative⟩, ⟨⟨3⟩, .nonPositive⟩, ⟨⟨4⟩, .nonNegative⟩])]

/-- The second constraint does not hold, so the third one is not asked, and the sum is not
evaluated. -/
theorem constraints_are_a_conjunction_threefold : ∃ P P',
    (Session.runAll threefoldCommands {}).program? 0 0 = some P ∧
    Program.constraintsHold [1, 1] [1, 1] P = .ok false P' ∧
    P' = P.afterAsking [1, 1] [1, 1] [0, 1] ∧ P'.nodes[3]? = P.nodes[3]? := by
  obtain ⟨G, hG⟩ : ∃ G, (Session.runAll threefoldCommands {}).graph? 0 = some G :=
    ⟨((Session.runAll threefoldCommands {}).graph? 0).getD {}, by decide +kernel⟩
  obtain ⟨P, hP, hcheck, hfirst, hsecond, hpositions⟩ :
      ∃ P, (Session.runAll threefoldCommands {}).program? 0 0 = some P ∧
      P.checkInput [1, 1] [1, 1] = .ok () ∧
        (Program.fulfilled 0 [1, 1] [1, 1]).answer P = .ok true ∧
        (Program.fulfilled 1 [1, 1] [1, 1]).answer P = .ok false ∧
        P.constraints.map Check.position = [1, 2, 3] :=
    ⟨((Session.runAll threefoldCommands {}).program? 0 0).getD ⟨{}, 0, [], none, .rejectZero⟩,
      by decide +kernel⟩
  have hchecks := ((constraints_are_a_conjunction threefoldCommands hG).1 0 P hP).1
  obtain ⟨asked, b, hasks, hrun, -, hleft⟩ :=
    hchecks.run [1, 1] [1, 1] (Program.checkInput_eq_ok_iff.1 hcheck)
  have hlength : P.constraints.length = 3 := by simpa using congrArg List.length hpositions
  obtain ⟨rfl, rfl⟩ : asked = 2 ∧ b = false := by
    cases hasks with
    | all hholds => exact absurd (hsecond.symm.trans (hholds 1 (by omega))) nofun
    | @upTo k _ hbefore hfails =>
      rcases lt_trichotomy k 1 with hk | rfl | hk
      · obtain rfl : k = 0 := by omega
        exact absurd (hfirst.symm.trans hfails) nofun
      · exact ⟨rfl, rfl⟩
      · exact absurd (hsecond.symm.trans (hbefore 1 hk)) nofun
  refine ⟨P, _, hP, hrun, rfl, hleft 3 fun i hi c hc hreach => ?_⟩
  obtain ⟨s, hok⟩ := programOK_runAll hP
  have hposition : (P.constraints.map Check.position)[i]? = some c.position := by
    rw [List.getElem?_map, hc, Option.map_some]
  rw [hpositions] at hposition
  have hle : 3 ≤ c.position := hreach.le hok.nodes.operands_lt
  rcases Nat.lt_succ_iff_lt_or_eq.1 hi with hi | rfl
  · obtain rfl : i = 0 := by omega
    have := Option.some.inj hposition
    omega
  · have := Option.some.inj hposition
    omega

/-! ## Points of another size -/

/-- **The constraints are refused for points of another size just as the objective is, if there is a
constraint.** Without constraints, points of every size are answered with yes, and both sides agree
on accepted points only. -/
theorem constraints_refuse_as_objective (commands : List (Command α NodeId)) {g p : Nat}
    {P : Program α} (hP : (Session.runAll commands {}).program? g p = some P) (x y : List α) :
    (∀ e, (Program.objective x y).answer P = .error e ↔
      ¬ P.Takes x y ∧ e = .inputDimension (P.inputDimension.getD x.length) x.length y.length) ∧
    ((∀ e, (Program.constraintsHold x y).answer P = .error e ↔
      (Program.objective x y).answer P = .error e) ↔ P.Takes x y ∨ P.constraints ≠ []) ∧
    (P.constraints = [] → Program.constraintsHold x y P = .ok true P) := by
  obtain ⟨s, hok⟩ := programOK_runAll hP
  have hanswer := Program.answer_constraintsHold hok x y
  refine ⟨fun e => ?_, ⟨fun h => ?_, fun h e => ?_⟩, fun hnone => ?_⟩
  · rw [Program.answer_objective_eq_error_iff hok, Program.checkInput_eq_error_iff]
  · by_contra hneither
    obtain ⟨htakes, hnone⟩ := not_or.1 hneither
    rw [if_pos (not_not.1 hnone)] at hanswer
    have hrefused :=
      (Program.answer_objective_eq_error_iff hok).2
        (Program.checkInput_eq_error_iff.2 ⟨htakes, rfl⟩)
    exact absurd (hanswer.symm.trans ((h _).2 hrefused)) nofun
  · rw [Program.answer_objective_eq_error_iff hok, hanswer]
    split
    · rename_i hnone
      have htakes := h.resolve_right (not_not.2 hnone)
      rw [Program.checkInput_eq_ok_iff.2 htakes]
      exact ⟨fun h => absurd h nofun, fun h => absurd h nofun⟩
    · cases P.checkInput x y <;> simp [Except.map]
  · rw [Program.constraintsHold, Action.get_bind, hnone]
    rfl

/-- The sum of a variable with two components, with a constraint on it and without. -/
def looseCommands : List (Command ℚ NodeId) :=
  [.newGraph {}, .graph 0 (.build (.taggedVariable 2 .nonneg)), .graph 0 (.build (.sum ⟨1⟩)),
    .graph 0 (.compile .everything ⟨2⟩ [⟨⟨2⟩, .nonNegative⟩]),
    .graph 0 (.compile .everything ⟨2⟩ [])]

/-- With the constraint, points with one component are refused. -/
theorem constraints_refuse_as_objective_loose :
    ∃ P, (Session.runAll looseCommands {}).program? 0 0 = some P ∧
    (Program.constraintsHold [1] [1]).answer P = .error (.inputDimension 2 1 1) := by
  obtain ⟨P, hP, hconstraint, hinput⟩ : ∃ P, (Session.runAll looseCommands {}).program? 0 0 =
      some P ∧ P.constraints ≠ [] ∧ P.inputDimension = some 2 :=
    ⟨((Session.runAll looseCommands {}).program? 0 0).getD ⟨{}, 0, [], none, .rejectZero⟩,
      by decide +kernel⟩
  obtain ⟨hobjective, hagree, -⟩ := constraints_refuse_as_objective looseCommands hP [1] [1]
  refine ⟨P, hP, (hagree.2 (.inr hconstraint) _).2 ((hobjective _).2 ⟨fun htakes => ?_, ?_⟩)⟩
  · rw [Program.Takes, hinput] at htakes
    exact absurd htakes.1 (by decide)
  · rw [hinput]
    rfl

/-- Without it, they are said to satisfy the constraints, while the objective is refused. -/
theorem unconstrained_takes_any_size :
    ∃ P, (Session.runAll looseCommands {}).program? 0 1 = some P ∧
    (Program.objective [1] [1]).answer P = .error (.inputDimension 2 1 1) ∧
    (Program.constraintsHold [1] [1]).answer P = .ok true :=
  ⟨((Session.runAll looseCommands {}).program? 0 1).getD ⟨{}, 0, [], none, .rejectZero⟩,
    by decide +kernel⟩

end Reachable

end MixedMonotone
