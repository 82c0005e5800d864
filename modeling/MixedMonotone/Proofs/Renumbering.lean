import Mathlib
import MixedMonotone.Proofs.Twins

/-!
# Graphs and programs under other handles

Two graphs, or two programs, hold the same data but for their handles. What is asked of them
with corresponding handles **is answered or refused alike**, and what the answers leave in
the caches is the same.

* `Graph.Renamed`, `Program.Renamed`: the same data, with corresponding handles.
* `Graph.Renamed.linked`: handles are looked up alike, so drafts are the same.
* `Graph.Renamed.compile`: compiling answers the same program.
* `Graph.agree_evaluate`, `Program.agree_objective` and their kin: the evaluations, one lemma per
  call.
-/

namespace MixedMonotone

variable {α : Type} {H I : NodeId → NodeId → Prop} {id id' : NodeId}

/-- **The same graph**, with corresponding handles. -/
structure Graph.Renamed (H : NodeId → NodeId → Prop) (g g' : Graph α) : Prop where
  settings : g'.settings = g.settings
  arena : g.arena.Renamed H g'.arena
  interned : List.Forall₂ (fun e e' => e'.1 = e.1 ∧ H e.2 e'.2) g.interned g'.interned

/-- The same graph, where nothing corresponds but handles that the graphs know. -/
structure Graph.RenamedBy (H : NodeId → NodeId → Prop) (g g' : Graph α) :
    Prop extends Graph.Renamed H g g' where
  known : ∀ a a', H a a' → a ∈ g.nodes.map Node.id ∧ a' ∈ g'.nodes.map Node.id

/-- **The same program**, with corresponding handles. -/
structure Program.Renamed (H : NodeId → NodeId → Prop) (p p' : Program α) : Prop where
  arena : p.arena.Renamed H p'.arena
  root : p'.root = p.root
  constraints : p'.constraints = p.constraints
  inputDimension : p'.inputDimension = p.inputDimension
  zeroRule : p'.zeroRule = p.zeroRule

/-! ## Compacting -/

namespace Arena.Renamed

variable {a a' copied copied' : Arena α} (hH : Aligned H)

include hH

/-- An operand stands at the same position of both copies, or was left out of both. -/
theorem rebindOperand (h : a.Renamed H a') (hcopied : copied.Renamed H copied') {n n' : Node α}
    (hid : H n.id n'.id) (i : Nat) :
    Matched (Error.Renamed H) Eq (rebindOperand a.nodes copied n i)
    (rebindOperand a'.nodes copied' n' i) := by
  have hoperand := h.getElem? i
  unfold MixedMonotone.rebindOperand
  generalize a.nodes[i]? = x, a'.nodes[i]? = x' at hoperand
  cases hoperand with
  | none => exact .error (.refl rfl)
  | @some o o' ho =>
    dsimp only
    rw [hcopied.position?_eq hH ho.2]
    cases copied.position? o.id with
    | none => exact .error ⟨rfl, .cons hid (.cons ho.2 .nil)⟩
    | some k => exact .ok rfl

theorem rebind (h : a.Renamed H a') (hcopied : copied.Renamed H copied') {n n' : Node α}
    (hn : n.Twin n') (hid : H n.id n'.id) :
    Matched (Error.Renamed H) (fun m m' => m.Twin m' ∧ H m.id m'.id) (rebind a.nodes copied n)
      (rebind a'.nodes copied' n') := by
  unfold MixedMonotone.rebind
  rw [hn.kind]
  cases hkind : n.kind with
  | function f =>
    refine (Matched.mapM (List.forall₂_same.2 fun i _ => h.rebindOperand hH hcopied hid i)).bind ?_
    intro operands operands' hoperands
    rw [List.forall₂_eq_eq_eq] at hoperands
    exact .ok ⟨⟨hn.tag, by rw [hoperands], hn.value⟩, hid⟩
  | _ => exact .ok ⟨hn, hid⟩

/-- **The copies of the marked nodes.** -/
theorem compact (h : a.Renamed H a') (marks : List Bool) :
    Matched (Error.Renamed H) (Arena.Renamed H) (a.compact marks) (a'.compact marks) := by
  have hnodes : List.Forall₂ (fun n n' => n.Twin n' ∧ H n.id n'.id) a.nodes a'.nodes :=
    forall₂_of_getElem? h.nodes.length_eq fun k n n' hn hn' => by
      have hat := h.getElem? k
      rw [hn, hn'] at hat
      cases hat with
      | some hat => exact hat
  have hmarks : List.Forall₂ Eq marks marks := List.forall₂_same.2 fun _ _ => rfl
  have hkept :=
    List.rel_filter (p := Prod.snd) (q := Prod.snd) (fun _ _ hpq => by simp only [hpq.2])
    (forall₂_zip hnodes hmarks)
  refine Matched.foldlM ?_ hkept .empty
  rintro copied copied' ⟨n, _⟩ ⟨n', _⟩ hcopied ⟨⟨hn, hid⟩, -⟩
  exact (h.rebind hH hcopied hn hid).bind fun m m' hm => .ok (hcopied.push hm.1 hm.2)

theorem locate (h : a.Renamed H a') {root root' : NodeId} (hroot : H root root') (hid : H id id') :
    Matched (Error.Renamed H) Eq (a.locate root id) (a'.locate root' id') := by
  unfold Arena.locate
  rw [h.position?_eq hH hid]
  cases a.position? id with
  | none => exact .error ⟨rfl, .cons hroot (.cons hid .nil)⟩
  | some k => exact .ok rfl

end Arena.Renamed

/-! ## Graphs -/

namespace Graph.Renamed

variable {g g' : Graph α}

theorem mono (h : g.Renamed H g') (hHI : H ≤ I) : g.Renamed I g' :=
  ⟨h.settings, h.arena.mono hHI, h.interned.imp fun _ _ he => ⟨he.1, hHI _ _ he.2⟩⟩

/-- The node that an equal constant has already. -/
theorem interned? [Scalar α] [DecidableEq α] (h : g.Renamed H g') (values : List α) :
    Option.Rel H (g.interned? values) (g'.interned? values) := by
  unfold Graph.interned?
  rw [h.settings]
  by_cases hshare : g.settings.internParameters = true
  · rw [if_pos hshare, if_pos hshare]
    have hfound := rel_find? h.interned
      (p := fun e => decide (e.1 = values)) (q := fun e => decide (e.1 = values))
      fun e e' he => by rw [he.1]
    generalize g.interned.find? _ = x, g'.interned.find? _ = x' at hfound
    cases hfound with
    | none => exact .none
    | some he => exact .some he.2
  · rw [if_neg hshare, if_neg hshare]
    exact .none

/-- **The points fit on both sides, or the same variable does not fit.** -/
theorem checkInput (h : g.Renamed H g') (i : Nat) (x y : List α) :
    Matched (Error.Renamed H) Eq (g.checkInput i x y) (g'.checkInput i x y) := by
  have hmisfit := misfit_twins h.arena.nodes (reachable g.nodes [i]) x.length
  have hbelow : reachable g'.nodes [i] = reachable g.nodes [i] := reachable_twins h.arena.nodes [i]
  unfold Graph.checkInput
  rw [hbelow]
  change Option.Rel Node.Twin (misfit? g.nodes _ _) (misfit? g'.nodes _ _) at hmisfit
  generalize misfit? g.nodes _ _ = n, misfit? g'.nodes _ _ = n' at hmisfit
  cases hmisfit with
  | none =>
    dsimp only
    split
    · exact .ok rfl
    · exact .error (.refl rfl)
  | some hn =>
    dsimp only
    rw [hn.dimension_eq]
    exact .error (.refl rfl)

section Lookups

variable (h : g.Renamed H g') (hH : Aligned H)

include h hH

/-- **Handles are looked up alike**, and tags are worked out under the same rules. -/
theorem linked : g.Linked H Eq g' where
  find _ _ hid := h.arena.find hH hid
  parameterSign := by rw [h.settings]
  dotSign := by rw [h.settings]

theorem evaluable (hid : H id id') (x y : List α) :
    Matched (Error.Renamed H) Eq (g.evaluable id x y) (g'.evaluable id' x y) := by
  refine (h.arena.position hH hid).bind ?_
  rintro i _ rfl
  exact (h.checkInput i x y).bind fun _ _ _ => .ok rfl

theorem checkScalar (hid : H id id') :
    Matched (Error.Renamed H) Eq (g.checkScalar id) (g'.checkScalar id') := by
  refine ((h.linked hH).node hid).bind fun n n' hn => ?_
  rw [hn.dimension_eq]
  split
  · exact .ok rfl
  · exact .error ⟨rfl, .cons hid .nil⟩

variable {root root' : NodeId} {constraints constraints' : List Constraint} (hroot : H root root')
  (hconstraints : List.Forall₂ (ConstraintOn.Renamed H) constraints constraints')

include hroot hconstraints

theorem roots :
    Matched (Error.Renamed H) Eq (g.roots root constraints) (g'.roots root' constraints') := by
  have hoperands : Matched (Error.Renamed H) (List.Forall₂ (Operand.Rebound Eq))
      (constraints.mapM fun c => g.arena.operand c.node) (constraints'.mapM fun c =>
        g'.arena.operand c.node) :=
    Matched.mapM (hconstraints.imp fun c c' hc => (h.linked hH).operand hc.node)
  refine ((h.linked hH).operand hroot).bind fun o o' ho => ?_
  rw [ho.node.dimension_eq]
  split
  · exact .error ⟨rfl, .cons hroot .nil⟩
  · refine hoperands.bind fun os os' hos => ?_
    have hpositions : os.map (·.position) = os'.map (·.position) :=
      map_eq_of_forall₂ hos fun _ _ hp => hp.position
    rw [ho.position, hpositions]
    exact .ok rfl

/-- **Compiling fails alike, or answers the same program.** -/
theorem compile (extraction : Extraction) : Matched (Error.Renamed H) (Program.Renamed H)
    (g.compile extraction root constraints) (g'.compile extraction root' constraints') := by
  refine (h.roots hH hroot hconstraints).bind ?_
  rintro roots _ rfl
  have hmarks : g'.marks extraction roots = g.marks extraction roots := by
    cases extraction with
    | reachable => exact reachable_twins h.arena.nodes roots
    | everything => rw [marks, marks, nodes, nodes, h.arena.nodes.length_eq]
  rw [hmarks]
  refine (h.arena.compact hH _).bind fun a a' ha => ?_
  rw [commonDimension_twins ha.nodes]
  have hcommon : Matched (Error.Renamed H) Eq (commonDimension a.nodes)
      (commonDimension a.nodes) := by
    refine .refl fun e he => ?_
    unfold commonDimension at he
    split at he
    · cases he
    · split at he <;> cases he
      rfl
  refine hcommon.bind ?_
  rintro dimension _ rfl
  refine (ha.locate hH hroot hroot).bind ?_
  rintro position _ rfl
  have hchecks : Matched (Error.Renamed H) (List.Forall₂ Eq)
      (constraints.mapM fun c => do return (⟨← a.locate root c.node, c.relation⟩ : Check))
      (constraints'.mapM fun c => do return (⟨← a'.locate root' c.node, c.relation⟩ : Check)) :=
    Matched.mapM (hconstraints.imp fun c c' hc => (ha.locate hH hroot hc.node).bind fun k k' hk =>
      .ok (by rw [hk, hc.relation]))
  refine hchecks.bind fun checks checks' hsame => ?_
  rw [List.forall₂_eq_eq_eq] at hsame
  rw [h.settings]
  exact .ok ⟨ha, rfl, hsame.symm, rfl, rfl⟩

end Lookups

end Graph.Renamed

/-! ## Evaluating graphs -/

namespace Graph

variable [Scalar α]

/-- An evaluation of the arena. -/
theorem agree_onArena (i : Nat) (points : Points α) :
    Action.Agree (Error.Renamed H) (Graph.RenamedBy H) Eq (onArena (Arena.evaluate i points))
      (onArena (Arena.evaluate i points)) := by
  intro g g' h
  obtain ⟨hanswer, harena, hids, hids'⟩ := h.arena.evaluate i points
  unfold onArena
  rw [Action.answer_focus, Action.answer_focus, Action.after_focus, Action.after_focus]
  refine ⟨hanswer, ⟨h.settings, harena, h.interned⟩, fun a a' ha => ?_⟩
  obtain ⟨hknown, hknown'⟩ := h.known a a' ha
  exact ⟨hids ▸ hknown, hids' ▸ hknown'⟩

variable (hH : Aligned H)

include hH

/-- **Evaluations are answered or refused alike**, and leave the same values. -/
theorem agree_evaluate (hid : H id id') (x y : List α) :
    Action.Agree (Error.Renamed H) (Graph.RenamedBy H) Eq (evaluate id x y) (evaluate id' x y) := by
  refine .bind (.inquire fun g g' h => h.evaluable hH hid x y) ?_
  rintro i _ rfl
  exact agree_onArena i ⟨x, y⟩

theorem agree_evaluateScalar (hid : H id id') (x y : List α) :
    Action.Agree (Error.Renamed H) (Graph.RenamedBy H) Eq (evaluateScalar id x y)
    (evaluateScalar id' x y) := by
  refine .bind (.inquire fun g g' h => h.checkScalar hH hid) fun _ _ _ =>
    .bind (agree_evaluate hH hid x y) ?_
  rintro values _ rfl
  cases values.head? with
  | none => exact .throw (.refl rfl)
  | some v => exact .pure rfl

theorem agree_fulfilled {c c' : Constraint} (hc : c.Renamed H c') (x y : List α) :
    Action.Agree (Error.Renamed H) (Graph.RenamedBy H) Eq (fulfilled c x y) (fulfilled c' x y) := by
  refine .bind .get fun g g' hg => .bind (agree_evaluate hH hc.node x y) ?_
  rintro values _ rfl
  rw [hc.relation, hg.settings]
  exact .pure rfl

end Graph

/-! ## Evaluating programs -/

namespace Program.Renamed

variable {p p' : Program α}

theorem mono (h : p.Renamed H p') (hHI : H ≤ I) : p.Renamed I p' :=
  ⟨h.arena.mono hHI, h.root, h.constraints, h.inputDimension, h.zeroRule⟩

theorem checkInput (h : p.Renamed H p') (x y : List α) :
    Matched (Error.Renamed H) Eq (p.checkInput x y) (p'.checkInput x y) := by
  unfold Program.checkInput
  rw [h.inputDimension]
  dsimp only
  split
  · exact .ok rfl
  · exact .error (.refl rfl)

theorem checkable (h : p.Renamed H p') (index : Nat) (x y : List α) :
    Matched (Error.Renamed H) Eq (p.checkable index x y) (p'.checkable index x y) := by
  unfold Program.checkable
  rw [h.constraints]
  cases p.constraints[index]? with
  | none => exact .error (.refl rfl)
  | some c => exact (h.checkInput x y).bind fun _ _ _ => .ok rfl

theorem evaluable (h : p.Renamed H p') (hH : Aligned H) (hid : H id id') (x y : List α) :
    Matched (Error.Renamed H) Eq (p.evaluable id x y) (p'.evaluable id' x y) := by
  refine (h.arena.position hH hid).bind ?_
  rintro i _ rfl
  exact (h.checkInput x y).bind fun _ _ _ => .ok rfl

end Program.Renamed

namespace Program

variable [Scalar α]

/-- An evaluation of the arena. -/
theorem agree_onArena (i : Nat) (points : Points α) :
    Action.Agree (Error.Renamed H) (Program.Renamed H) Eq (onArena (Arena.evaluate i points))
      (onArena (Arena.evaluate i points)) := by
  intro p p' h
  obtain ⟨hanswer, harena, -⟩ := h.arena.evaluate i points
  unfold onArena
  rw [Action.answer_focus, Action.answer_focus, Action.after_focus, Action.after_focus]
  exact ⟨hanswer, harena, h.root, h.constraints, h.inputDimension, h.zeroRule⟩

theorem agree_evaluate (hH : Aligned H) (hid : H id id') (x y : List α) :
    Action.Agree (Error.Renamed H) (Program.Renamed H) Eq (evaluate id x y) (evaluate id' x y) := by
  refine .bind (.inquire fun p p' h => h.evaluable hH hid x y) ?_
  rintro i _ rfl
  exact agree_onArena i ⟨x, y⟩

/-- **The objective is answered or refused alike**, and leaves the same values. -/
theorem agree_objective (x y : List α) :
    Action.Agree (Error.Renamed H) (Program.Renamed H) Eq (objective x y) (objective x y) := by
  refine .bind (.inquire fun p p' h => h.checkInput x y) fun _ _ _ => .bind .get fun p p' h => ?_
  rw [h.root]
  refine .bind (agree_onArena p.root ⟨x, y⟩) ?_
  rintro values _ rfl
  cases values.head? with
  | none => exact .throw (.refl rfl)
  | some v => exact .pure rfl

theorem agree_fulfilled (index : Nat) (x y : List α) :
    Action.Agree (Error.Renamed H) (Program.Renamed H) Eq (fulfilled index x y)
    (fulfilled index x y) := by
  refine .bind (.inquire fun p p' h => h.checkable index x y) ?_
  rintro c _ rfl
  refine .bind .get fun p p' h => .bind (agree_onArena c.position ⟨x, y⟩) ?_
  rintro values _ rfl
  rw [h.zeroRule]
  exact .pure rfl

/-- The constraints are asked up to the same one. -/
theorem agree_fulfilledInOrder (x y : List α) (indices : List Nat) :
    Action.Agree (Error.Renamed H) (Program.Renamed H) Eq (fulfilledInOrder x y indices)
      (fulfilledInOrder x y indices) := by
  induction indices with
  | nil => exact .pure rfl
  | cons index rest ih =>
    refine .bind (agree_fulfilled index x y) ?_
    rintro verdict _ rfl
    cases verdict with
    | false => exact .pure rfl
    | true => exact ih

theorem agree_constraintsHold (x y : List α) :
    Action.Agree (Error.Renamed H) (Program.Renamed H) Eq (constraintsHold x y)
    (constraintsHold x y) := by
  refine .bind .get fun p p' h => ?_
  rw [h.constraints]
  exact agree_fulfilledInOrder x y _

end Program

end MixedMonotone
