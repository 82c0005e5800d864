import Mathlib
import MixedMonotone.Proofs.Mirroring
import MixedMonotone.Proofs.Rebinding

/-!
# The same nodes under other handles

Two arenas may hold the same nodes at the same positions, with the same values in their caches,
under handles of their own. What is looked up or evaluated on the one side is so on the other one,
as **no more is asked of a handle than which other handle it equals**.

* `Aligned`: corresponding handles stand in the same order, so they are equal together.
* `Node.Twin`: the same node, caches included, but for its handle.
* `evaluateBelow_labelled`: evaluating **reads no handle and replaces none**.
* `Arena.Renamed`: the same nodes, with corresponding handles; `Arena.Renamed.find`,
  `Arena.Renamed.evaluate`: they are found and evaluated alike.
-/

namespace MixedMonotone

variable {α : Type} {H I : NodeId → NodeId → Prop} {id id' : NodeId}

/-! ## Handles -/

/-- **Corresponding handles stand in the same order.** -/
def Aligned (H : NodeId → NodeId → Prop) : Prop :=
  ∀ a a' b b', H a a' → H b b' → (a.number < b.number ↔ a'.number < b'.number)

/-- Handles are equal together with those that correspond to them. -/
theorem Aligned.eq_iff (h : Aligned H) {a a' b b' : NodeId} (ha : H a a') (hb : H b b') :
    a = b ↔ a' = b' := by
  have hlt := h a a' b b' ha hb
  have hgt := h b b' a a' hb ha
  obtain ⟨a⟩ := a
  obtain ⟨a'⟩ := a'
  obtain ⟨b⟩ := b
  obtain ⟨b'⟩ := b'
  simp only [NodeId.mk.injEq] at hlt hgt ⊢
  omega

/-- A table in which corresponding handles have the same entries is looked up alike. -/
theorem Aligned.lookup_eq (h : Aligned H) {table table' : List (NodeId × Nat)}
    (htable : List.Forall₂ (fun p q => H p.1 q.1 ∧ q.2 = p.2) table table') (hid : H id id') :
    table'.lookup id' = table.lookup id := by
  induction htable with
  | nil => rfl
  | @cons p q _ _ hpq _ ih =>
    obtain ⟨hhandle, hentry⟩ := hpq
    have hsame : (id' == q.1) = (id == p.1) := by
      rw [Bool.eq_iff_iff, beq_iff_eq, beq_iff_eq, h.eq_iff hid hhandle]
    rw [List.lookup_cons, List.lookup_cons, hsame, hentry, ih]

/-! ## Nodes -/

/-- **The same node, caches included**, but for its handle. -/
structure Node.Twin (n n' : Node α) : Prop where
  tag : n'.tag = n.tag
  kind : n'.kind = n.kind
  value : n'.value = n.value

namespace Node.Twin

variable {n n' : Node α}

theorem dimension_eq (h : n.Twin n') : n'.dimension = n.dimension := congrArg List.length h.value

theorem isMatrix_eq (h : n.Twin n') : n'.isMatrix = n.isMatrix := by
  rw [isMatrix, isMatrix, matrix?, matrix?, h.kind]

theorem isVariable_eq (h : n.Twin n') : n'.isVariable = n.isVariable := by
  rw [isVariable, isVariable, h.kind]

theorem operands_eq (h : n.Twin n') : n'.operands = n.operands := congrArg Kind.operands h.kind

/-- The same node is the same node at the same position. -/
theorem rebound (h : n.Twin n') : n.Rebound Eq n' := by
  refine ⟨h.tag, h.value, ?_⟩
  rw [h.kind]
  cases hkind : n.kind with
  | function f => exact .function f f.operands (List.forall₂_same.2 fun _ _ => rfl)
  | _ => exact .leaf _ (by simp)

end Node.Twin

section Twins

variable {nodes nodes' : List (Node α)} (h : List.Forall₂ Node.Twin nodes nodes')

include h

theorem operandsAt_twins : operandsAt nodes' = operandsAt nodes := by
  funext i
  have hnode := forall₂_rel_getElem? h i
  unfold operandsAt
  generalize nodes[i]? = x, nodes'[i]? = x' at hnode
  cases hnode with
  | none => rfl
  | some hn => rw [Option.map_some, Option.map_some, hn.operands_eq]

/-- The search for what is below some nodes follows the operands. -/
theorem mark_twins (seen : List Bool) (stack : List Nat) :
    mark nodes' seen stack = mark nodes seen stack := by
  fun_induction mark nodes seen stack with
  | case1 => rw [mark]
  | case2 seen i stack hunseen ih => rw [mark, if_pos hunseen, operandsAt_twins h, ih]
  | case3 seen i stack hseen ih => rw [mark, if_neg hseen, ih]

theorem reachable_twins (roots : List Nat) : reachable nodes' roots = reachable nodes roots := by
  rw [reachable, reachable, mark_twins h, h.length_eq]

/-- The same variable does not fit. -/
theorem misfit_twins (marks : List Bool) (length : Nat) :
    Option.Rel Node.Twin (Graph.misfit? nodes marks length)
    (Graph.misfit? nodes' marks length) := by
  have hmarks : List.Forall₂ Eq marks marks := List.forall₂_same.2 fun _ _ => rfl
  have hfits : ∀ p q : Node α × Bool, p.1.Twin q.1 ∧ p.2 = q.2 →
      (q.2 && q.1.isVariable && q.1.dimension != length) =
        (p.2 && p.1.isVariable && p.1.dimension != length) := by
    rintro ⟨n, seen⟩ ⟨n', _⟩ ⟨hn, rfl⟩
    dsimp only
    rw [hn.isVariable_eq, hn.dimension_eq]
  have hfound := rel_find? (forall₂_zip h hmarks) hfits
  unfold Graph.misfit?
  generalize (nodes.zip marks).find? _ = x, (nodes'.zip marks).find? _ = x' at hfound
  cases hfound with
  | none => exact .none
  | some hp => exact .some hp.1

theorem commonDimension_twins : commonDimension nodes' = commonDimension nodes := by
  have hvariables : List.Forall₂ Node.Twin (nodes.filter Node.isVariable)
      (nodes'.filter Node.isVariable) :=
    List.rel_filter (fun _ _ hn => by simp only [hn.isVariable_eq]) h
  have hdims : (nodes.filter Node.isVariable).map Node.dimension =
      (nodes'.filter Node.isVariable).map Node.dimension :=
    map_eq_of_forall₂ hvariables fun _ _ hn => hn.dimension_eq.symm
  rw [commonDimension, commonDimension, hdims]

end Twins

/-! ## Evaluating -/

/-- The nodes are the same, those of the one side under the handles `ids`, those of the
other under `ids'`. -/
structure Labelled (ids ids' : List NodeId) (nodes nodes' : List (Node α)) : Prop where
  twins : List.Forall₂ Node.Twin nodes nodes'
  left : nodes.map Node.id = ids
  right : nodes'.map Node.id = ids'

section Evaluation

variable {ids ids' : List NodeId} {nodes nodes' : List (Node α)}

/-- A node is replaced by one under the same handle, on both sides. -/
theorem Labelled.set (h : Labelled ids ids' nodes nodes') {i : Nat} {n n' : Node α}
    (hid : ids[i]? = some n.id) (hid' : ids'[i]? = some n'.id) (hn : n.Twin n') :
    Labelled ids ids' (nodes.set i n) (nodes'.set i n') := by
  refine ⟨forall₂_set_set h.twins i hn, ?_, ?_⟩
  · rw [List.map_set, h.left, set_of_getElem? hid]
  · rw [List.map_set, h.right, set_of_getElem? hid']

/-- What an evaluation makes of the same nodes is the same, **and so are the handles**. -/
def EvaluatesAlike (ids ids' : List NodeId) (below : Nat → Evaluation α) : Prop :=
  ∀ i points nodes nodes', Labelled ids ids' nodes nodes' →
    Option.Rel (Labelled ids ids') (below i points nodes) (below i points nodes')

section Below

variable {below : Nat → Evaluation α} (hbelow : EvaluatesAlike ids ids' below)

include hbelow

/-- **One pass** stores the same value on both sides. -/
theorem runPass_labelled (points : Points α) (pass : Pass) {scratch : List (OperandValues α)}
    (h : Labelled ids ids' nodes nodes') :
    Option.Rel (fun p q => Labelled ids ids' p.1 q.1 ∧ q.2 = p.2)
      (runPass below points (nodes, scratch) pass)
      (runPass below points (nodes', scratch) pass) := by
  refine rel_bind (forall₂_rel_getElem? h.twins pass.position) fun n n' hn => ?_
  rw [hn.isMatrix_eq]
  by_cases hmatrix : n.isMatrix = true
  · rw [if_pos hmatrix, if_pos hmatrix]
    exact .some ⟨h, rfl⟩
  · rw [if_neg hmatrix, if_neg hmatrix]
    refine rel_bind (hbelow _ _ _ _ h) fun nodes₁ nodes₁' h₁ => ?_
    refine rel_bind (forall₂_rel_getElem? h₁.twins pass.position) fun o o' ho => ?_
    rw [ho.value]
    cases store scratch pass.operand pass.route o.value with
    | none => exact .none
    | some scratch₁ => exact .some ⟨h₁, rfl⟩

/-- All passes of a node, one after the other. -/
theorem passes_labelled (points : Points α) (passes : List Pass) {scratch : List (OperandValues α)}
    (h : Labelled ids ids' nodes nodes') :
    Option.Rel (fun p q => Labelled ids ids' p.1 q.1 ∧ q.2 = p.2)
      (passes.foldlM (runPass below points) (nodes, scratch))
      (passes.foldlM (runPass below points) (nodes', scratch)) := by
  have hpasses : List.Forall₂ Eq passes passes := List.forall₂_same.2 fun _ _ => rfl
  refine rel_foldlM (f := runPass below points) (g := runPass below points)
    (R := fun (p q : List (Node α) × List (OperandValues α)) => Labelled ids ids' p.1 q.1 ∧
      q.2 = p.2) ?_ hpasses
    ⟨h, rfl⟩
  rintro ⟨nodes₁, _⟩ ⟨nodes₁', scratch⟩ pass _ ⟨h₁, rfl⟩ rfl
  exact runPass_labelled hbelow points pass h₁

variable [Scalar α]

/-- **One node** is combined from the same operand values on both sides. -/
theorem evaluateNode_labelled : EvaluatesAlike ids ids' (evaluateNode below) := by
  intro i points nodes nodes' h
  have hnode := forall₂_rel_getElem? h.twins i
  have hid : ids[i]? = nodes[i]?.map Node.id := by rw [← h.left, List.getElem?_map]
  have hid' : ids'[i]? = nodes'[i]?.map Node.id := by rw [← h.right, List.getElem?_map]
  unfold evaluateNode
  generalize nodes[i]? = x, nodes'[i]? = x' at hnode hid hid'
  cases hnode with
  | none => exact .none
  | @some n n' hn =>
    obtain ⟨id, _, _, _⟩ := n
    obtain ⟨id', tag, kind, value⟩ := n'
    obtain ⟨htag, hkind, hvalue⟩ := hn
    dsimp only at htag hkind hvalue
    subst htag hkind hvalue
    cases kind with
    | parameter | matrixParameter M => exact .some h
    | «variable» box =>
      simp only [Option.bind_eq_bind, Option.bind_some]
      by_cases hlength : value.length = points.own.length
      · rw [if_pos hlength, if_pos hlength]
        exact .some (h.set hid hid' ⟨rfl, rfl, rfl⟩)
      · rw [if_neg hlength, if_neg hlength]
        exact .none
    | function f =>
      simp only [Option.bind_eq_bind, Option.bind_some]
      refine rel_bind (passes_labelled hbelow points f.passes h) ?_
      rintro ⟨nodes₁, _⟩ ⟨nodes₁', scratch⟩ ⟨h₁, rfl⟩
      change Option.Rel _ (f.op.combine f.plan scratch value.length >>= _)
        (f.op.combine f.plan scratch value.length >>= _)
      cases f.op.combine f.plan scratch value.length with
      | none => exact .none
      | some v => exact .some (h₁.set hid hid' ⟨rfl, rfl, rfl⟩)

end Below

/-- **Evaluating reads no handle and replaces none.** -/
theorem evaluateBelow_labelled [Scalar α] (ids ids' : List NodeId) (n : Nat) :
    EvaluatesAlike ids ids' (evaluateBelow (α := α) n) := by
  induction n with
  | zero => exact fun _ _ _ _ _ => .none
  | succ n ih =>
    intro i points nodes nodes' h
    unfold evaluateBelow
    by_cases hi : i = n
    · rw [if_pos hi]
      exact evaluateNode_labelled ih i points nodes nodes' h
    · rw [if_neg hi]
      exact ih i points nodes nodes' h

end Evaluation

/-! ## Arenas -/

/-- **The same nodes at the same positions**, with corresponding handles. -/
structure Arena.Renamed (H : NodeId → NodeId → Prop) (a a' : Arena α) : Prop where
  nodes : List.Forall₂ Node.Twin a.nodes a'.nodes
  ids : List.Forall₂ H (a.nodes.map Node.id) (a'.nodes.map Node.id)
  positions : List.Forall₂ (fun p q => H p.1 q.1 ∧ q.2 = p.2) a.positions a'.positions

namespace Arena.Renamed

variable {a a' : Arena α}

theorem empty : ({} : Arena α).Renamed H {} := ⟨.nil, .nil, .nil⟩

theorem mono (h : a.Renamed H a') (hHI : H ≤ I) : a.Renamed I a' :=
  ⟨h.nodes, h.ids.imp hHI, h.positions.imp fun _ _ hp => ⟨hHI _ _ hp.1, hp.2⟩⟩

/-- What stands at a position. -/
theorem getElem? (h : a.Renamed H a') (i : Nat) :
    Option.Rel (fun n n' => n.Twin n' ∧ H n.id n'.id) a.nodes[i]? a'.nodes[i]? := by
  have hids := h.ids
  rw [List.forall₂_map_left_iff, List.forall₂_map_right_iff] at hids
  exact forall₂_rel_getElem? (h.nodes.mp (fun _ _ hn hid => ⟨hn, hid⟩) hids) i

/-- A node is added on both sides. -/
theorem push (h : a.Renamed H a') {n n' : Node α} (hn : n.Twin n') (hid : H n.id n'.id) :
    (a.push n).Renamed H (a'.push n') := by
  refine ⟨List.rel_append h.nodes (.cons hn .nil), ?_,
    .cons ⟨hid, h.nodes.length_eq.symm⟩ h.positions⟩
  simp only [Arena.push, List.map_append, List.map_cons, List.map_nil]
  exact List.rel_append h.ids (.cons hid .nil)

section Lookups

variable (hH : Aligned H) (h : a.Renamed H a') (hid : H id id')

include hH h hid

theorem position?_eq : a'.position? id' = a.position? id := hH.lookup_eq h.positions hid

theorem position : Matched (Error.Renamed H) Eq (a.position id) (a'.position id') := by
  unfold Arena.position
  rw [h.position?_eq hH hid]
  cases a.position? id with
  | none => exact .error ⟨rfl, .cons hid .nil⟩
  | some i => exact .ok rfl

theorem find : Matched (Error.Renamed H) (Operand.Rebound Eq) (a.find id) (a'.find id') := by
  refine (h.position hH hid).bind ?_
  rintro i _ rfl
  have hnode := forall₂_rel_getElem? h.nodes i
  generalize a.nodes[i]? = x, a'.nodes[i]? = x' at hnode
  cases hnode with
  | none => exact .error (.refl rfl)
  | some hn => exact .ok ⟨rfl, hn.rebound⟩

end Lookups

/-- **An evaluation is answered or refused alike**, and no handle is replaced. -/
theorem evaluate [Scalar α] (h : a.Renamed H a') (i : Nat) (points : Points α) :
    Matched (Error.Renamed H) Eq ((Arena.evaluate i points).answer a)
    ((Arena.evaluate i points).answer a') ∧
      ((Arena.evaluate i points).after a).Renamed H ((Arena.evaluate i points).after a') ∧
      ((Arena.evaluate i points).after a).nodes.map Node.id = a.nodes.map Node.id ∧
      ((Arena.evaluate i points).after a').nodes.map Node.id = a'.nodes.map Node.id := by
  have hrun := evaluateBelow_labelled (a.nodes.map Node.id) (a'.nodes.map Node.id)
    (i + 1) i points a.nodes a'.nodes ⟨h.nodes, rfl, rfl⟩
  unfold Action.answer Action.after Arena.evaluate evaluateAt
  generalize evaluateBelow (i + 1) i points a.nodes = x,
    evaluateBelow (i + 1) i points a'.nodes = x' at hrun
  cases hrun with
  | none => exact ⟨.error (.refl rfl), h, rfl, rfl⟩
  | @some nodes nodes' hnodes =>
    have hnode := forall₂_rel_getElem? hnodes.twins i
    dsimp only
    generalize nodes[i]? = y, nodes'[i]? = y' at hnode
    cases hnode with
    | none => exact ⟨.error (.refl rfl), h, rfl, rfl⟩
    | some hn =>
      refine ⟨.ok hn.value.symm, ⟨hnodes.twins, ?_, h.positions⟩, hnodes.left, hnodes.right⟩
      dsimp only
      rw [hnodes.left, hnodes.right]
      exact h.ids

end Arena.Renamed

end MixedMonotone
