import Mathlib
import MixedMonotone.Session.Command
import MixedMonotone.Proofs.Agreeing
import MixedMonotone.Proofs.Correspondence

/-!
# The same nodes at other positions and under other handles

Two graphs may hold the same nodes at other positions and under other handles. What a builder call
works out from the nodes that its handles name is then the same, but for these.

* `Error.Renamed`: the same error, with corresponding handles.
* `Node.Rebound`: the same node, with its operands at corresponding positions.
* `Graph.Linked`: wherever handles correspond, looking them up **fails alike or finds the same
  node**.
* `Graph.Linked.arith` and its kin: so what is worked out for a node fails alike or is the same
  draft; one lemma per kind of node.
-/

namespace MixedMonotone

variable {α : Type}

/-! ## Errors -/

/-- The handles in an error. -/
def Error.handles : Error α → List NodeId
  | matrixOperand id | notAMatrix id | unknownNode id | notScalar id _ => [id]
  | operandLeftOut node operand => [node, operand]
  | _ => []

/-- The error with all handles replaced by one. -/
def Error.anonymous : Error α → Error α
  | matrixOperand _ => matrixOperand ⟨0⟩
  | notAMatrix _ => notAMatrix ⟨0⟩
  | unknownNode _ => unknownNode ⟨0⟩
  | notScalar _ dimension => notScalar ⟨0⟩ dimension
  | operandLeftOut _ _ => operandLeftOut ⟨0⟩ ⟨0⟩
  | e => e

/-- **The same error, with corresponding handles.** -/
structure Error.Renamed (H : NodeId → NodeId → Prop) (e e' : Error α) : Prop where
  anonymous : e'.anonymous = e.anonymous
  handles : List.Forall₂ H e.handles e'.handles

section Errors

variable {β : Type} {H : NodeId → NodeId → Prop}

/-- An error without handles. -/
theorem Error.Renamed.refl {e : Error α} (h : e.handles = []) : e.Renamed H e := ⟨rfl, h ▸ .nil⟩

/-- One result of a check that knows no handles. -/
theorem Matched.refl {x : Except (Error α) β} (h : ∀ e, x = .error e → e.handles = []) :
    Matched (Error.Renamed H) Eq x x := by
  cases x with
  | ok b => exact .ok rfl
  | error e => exact .error (.refl (h e rfl))

theorem broadcast_matched (site : Site) (l r : Nat) :
    Matched (Error.Renamed H) Eq (broadcast (α := α) site l r) (broadcast (α := α) site l r) := by
  refine .refl fun e he => ?_
  unfold broadcast at he
  split at he
  · cases he
  · split at he <;> cases he
    rfl

theorem checkRange_matched (start length d : Nat) (arithmetic : Arithmetic) :
    Matched (Error.Renamed H) Eq (checkRange (α := α) start length d arithmetic)
      (checkRange start length d arithmetic) := by
  refine .refl fun e he => ?_
  unfold checkRange at he
  split at he
  · cases he
    rfl
  · split at he <;> cases he
    rfl

end Errors

/-! ## Nodes -/

/-- What a node is, with its operands at **corresponding positions**. -/
inductive Kind.Rebound (R : Nat → Nat → Prop) : Kind α → Kind α → Prop
  | leaf (k : Kind α) (hleaf : ∀ f, k ≠ .function f) : Rebound R k k
  | function (f : Application α) (operands : List Nat)
      (hoperands : List.Forall₂ R f.operands operands) :
      Rebound R (.function f) (.function { f with operands })

/-- **The same node**, its handle apart, with its operands at corresponding positions. -/
structure Node.Rebound (R : Nat → Nat → Prop) (n m : Node α) : Prop where
  tag : m.tag = n.tag
  value : m.value = n.value
  kind : n.kind.Rebound R m.kind

/-- The same operand at corresponding positions. -/
structure Operand.Rebound (R : Nat → Nat → Prop) (o o' : Operand α) : Prop where
  position : R o.position o'.position
  node : o.node.Rebound R o'.node

/-- Drafts of the same node. -/
structure Draft.Rebound (R : Nat → Nat → Prop) (d d' : Draft α) : Prop where
  tag : d'.tag = d.tag
  value : d'.value = d.value
  notices : d'.notices = d.notices
  kind : d.kind.Rebound R d'.kind

section Nodes

variable {R S : Nat → Nat → Prop}

namespace Kind.Rebound

variable {k k' : Kind α}

theorem mono (h : k.Rebound R k') (hRS : ∀ i j, R i j → S i j) : k.Rebound S k' := by
  cases h with
  | leaf _ hleaf => exact .leaf k hleaf
  | function f operands hops => exact .function f operands (hops.imp hRS)

theorem name_eq (h : k.Rebound R k') : k'.name = k.name := by
  cases h <;> rfl

theorem matrix?_eq (h : k.Rebound R k') : k'.matrix? = k.matrix? := by
  cases h <;> rfl

theorem operands (h : k.Rebound R k') : List.Forall₂ R k.operands k'.operands := by
  cases h with
  | leaf _ hleaf =>
    cases k with
    | function f => exact absurd rfl (hleaf f)
    | _ => exact .nil
  | function f operands hops => exact hops

end Kind.Rebound

namespace Node.Rebound

variable {n m : Node α}

theorem mono (h : n.Rebound R m) (hRS : ∀ i j, R i j → S i j) : n.Rebound S m :=
  ⟨h.tag, h.value, h.kind.mono hRS⟩

theorem dimension_eq (h : n.Rebound R m) : m.dimension = n.dimension := congrArg List.length h.value

theorem name_eq (h : n.Rebound R m) : m.name = n.name := h.kind.name_eq

theorem matrix?_eq (h : n.Rebound R m) : m.matrix? = n.matrix? := h.kind.matrix?_eq

theorem isMatrix_eq (h : n.Rebound R m) : m.isMatrix = n.isMatrix :=
  congrArg Option.isSome h.matrix?_eq

theorem isVariable_eq (h : n.Rebound R m) : m.isVariable = n.isVariable := by
  have hkind := h.kind
  unfold Node.isVariable
  generalize n.kind = k, m.kind = k' at hkind
  cases hkind <;> rfl

theorem operands (h : n.Rebound R m) : List.Forall₂ R n.operands m.operands := h.kind.operands

theorem denotes_eq [Scalar α] (h : n.Rebound R m) : m.denotes = n.denotes := by
  funext operands points
  have hkind := h.kind
  unfold Node.denotes
  rw [h.value, h.dimension_eq]
  generalize n.kind = k, m.kind = k' at hkind
  cases hkind <;> rfl

end Node.Rebound

theorem Operand.Rebound.mono {o o' : Operand α} (h : o.Rebound R o') (hRS : ∀ i j, R i j → S i j) :
    o.Rebound S o' := ⟨hRS _ _ h.position, h.node.mono hRS⟩

/-- A function node takes positions, sizes and tags from its operands. -/
theorem rebound_function [Zero α] (op : Op α) (plan : Plan) {os os' : List (Operand α)}
    (hos : List.Forall₂ (Operand.Rebound R) os os') (dimension : Nat) (tag : Tag) :
    Draft.Rebound R (.function op plan os dimension tag) (.function op plan os' dimension tag) := by
  have hscratch :
      os.map (fun o => (⟨List.replicate o.node.dimension 0, List.replicate o.node.dimension 0⟩ :
        OperandValues α)) =
      os'.map fun o => ⟨List.replicate o.node.dimension 0, List.replicate o.node.dimension 0⟩ :=
    map_eq_of_forall₂ hos fun _ _ ho => by rw [ho.node.dimension_eq]
  refine ⟨rfl, rfl, rfl, ?_⟩
  simp only [Draft.function, hscratch]
  refine .function _ _ ?_
  rw [List.forall₂_map_left_iff, List.forall₂_map_right_iff]
  exact hos.imp fun _ _ ho => ho.position

end Nodes

/-! ## Looking handles up -/

/-- **Looking up corresponding handles** fails alike or finds the same node, and tags are worked out
under the same rules. -/
structure Graph.Linked (H : NodeId → NodeId → Prop) (R : Nat → Nat → Prop)
    (g g' : Graph α) : Prop where
  find : ∀ id id', H id id' → Matched (Error.Renamed H) (Operand.Rebound R) (g.arena.find id)
    (g'.arena.find id')
  parameterSign : g'.settings.parameterSign = g.settings.parameterSign
  dotSign : g'.settings.dotSign = g.settings.dotSign

namespace Graph.Linked

variable {H : NodeId → NodeId → Prop} {R : Nat → Nat → Prop} {g g' : Graph α} {a a' b b' : NodeId}

theorem operand (h : g.Linked H R g') (ha : H a a') :
    Matched (Error.Renamed H) (Operand.Rebound R) (g.arena.operand a) (g'.arena.operand a') := by
  refine (h.find a a' ha).bind fun o o' ho => ?_
  rw [ho.node.isMatrix_eq]
  split
  · exact .error ⟨rfl, .cons ha .nil⟩
  · exact .ok ho

theorem node (h : g.Linked H R g') (ha : H a a') :
    Matched (Error.Renamed H) (Node.Rebound R) (g.arena.node a) (g'.arena.node a') :=
  (h.find a a' ha).bind fun _ _ ho => .ok ho.node

theorem listItem (h : g.Linked H R g') (ha : H a a') :
    Matched (Error.Renamed H) (Operand.Rebound R) (g.listItem a) (g'.listItem a') := by
  refine (h.operand ha).bind fun o o' ho => ?_
  rw [ho.node.dimension_eq]
  split
  · exact .ok ho
  · exact .error (.refl rfl)

theorem checkSameSize (h : g.Linked H R g') (ha : H a a') (hb : H b b') :
    Matched (Error.Renamed H) Eq (g.checkSameSize a b) (g'.checkSameSize a' b') := by
  refine (h.node ha).bind fun l l' hl => (h.node hb).bind fun r r' hr => ?_
  rw [hl.dimension_eq, hr.dimension_eq]
  split
  · exact .ok rfl
  · exact .error (.refl rfl)

theorem checkDifference (h : g.Linked H R g') (ha : H a a') (hb : H b b') :
    Matched (Error.Renamed H) Eq (g.checkDifference a b) (g'.checkDifference a' b') := by
  refine (h.operand ha).bind fun l l' hl => (h.operand hb).bind fun r r' hr => ?_
  rw [hl.node.dimension_eq, hr.node.dimension_eq]
  exact (broadcast_matched ..).bind fun _ _ _ => .ok rfl

/-! ## Drafts -/

variable [Scalar α]

/-- What is worked out for a node on both sides. -/
abbrev Drafts (H : NodeId → NodeId → Prop) (R : Nat → Nat → Prop) :
    Except (Error α) (Draft α) → Except (Error α) (Draft α) → Prop :=
  Matched (Error.Renamed H) (Draft.Rebound R)

theorem arith (h : g.Linked H R g') (op : Arith) (ha : H a a') (hb : H b b') :
    Drafts H R (draftArith op a b g) (draftArith op a' b' g') := by
  refine (h.operand ha).bind fun l l' hl => (h.operand hb).bind fun r r' hr => ?_
  rw [hl.node.dimension_eq, hr.node.dimension_eq, hl.node.tag, hr.node.tag]
  refine (broadcast_matched ..).bind ?_
  rintro d _ rfl
  exact .ok (rebound_function _ _ (.cons hl (.cons hr .nil)) d _)

theorem dot (h : g.Linked H R g') (ha : H a a') (hb : H b b') :
    Drafts H R (draftDot a b g) (draftDot a' b' g') := by
  refine (h.operand ha).bind fun l l' hl => (h.operand hb).bind fun r r' hr => ?_
  have hrule : g'.dotTag l.node.tag r.node.tag = g.dotTag l.node.tag r.node.tag := by
    unfold dotTag
    rw [h.dotSign]
  rw [hl.node.dimension_eq, hr.node.dimension_eq, hl.node.tag, hr.node.tag, hrule]
  split
  · exact .error (.refl rfl)
  · have hdraft := rebound_function (.dot : Op α)
      (.binary (Arith.mul.strategy l.node.tag r.node.tag))
      (.cons hl (.cons hr .nil)) 1 (g.dotTag l.node.tag r.node.tag).1
    exact .ok ⟨rfl, rfl, rfl, hdraft.kind⟩

theorem matvec (h : g.Linked H R g') (ha : H a a') (hb : H b b') :
    Drafts H R (draftMatvec a b g) (draftMatvec a' b' g') := by
  refine (h.find a a' ha).bind fun l l' hl => (h.operand hb).bind fun r r' hr => ?_
  rw [hl.node.matrix?_eq, hr.node.dimension_eq, hl.node.tag, hr.node.tag]
  cases l.node.matrix? with
  | none => exact .error ⟨rfl, .cons ha .nil⟩
  | some m =>
    dsimp only
    split
    · exact .error (.refl rfl)
    · exact .ok (rebound_function _ _ (.cons hl (.cons hr .nil)) m.rows _)

theorem unary (h : g.Linked H R g') (op : Op α) (route : Route) (tag : Tag → Tag) (ha : H a a') :
    Drafts H R (draftUnary op route tag a g) (draftUnary op route tag a' g') := by
  refine (h.operand ha).bind fun o o' ho => ?_
  rw [ho.node.dimension_eq, ho.node.tag]
  exact .ok (rebound_function op _ (.cons ho .nil) _ _)

theorem sum (h : g.Linked H R g') (ha : H a a') : Drafts H R (draftSum a g) (draftSum a' g') := by
  refine (h.operand ha).bind fun o o' ho => ?_
  rw [ho.node.tag]
  exact .ok (rebound_function _ _ (.cons ho .nil) 1 _)

theorem prod (h : g.Linked H R g') (ha : H a a') :
    Drafts H R (draftProd a g) (draftProd a' g') := by
  refine (h.operand ha).bind fun o o' ho => ?_
  rw [ho.node.dimension_eq, ho.node.tag]
  exact .ok (rebound_function _ _ (.cons ho .nil) 1 _)

theorem slice (h : g.Linked H R g') (ha : H a a') (start length : Nat) (arithmetic : Arithmetic) :
    Drafts H R (draftSlice a start length arithmetic g)
    (draftSlice a' start length arithmetic g') := by
  refine (h.operand ha).bind fun o o' ho => ?_
  rw [ho.node.dimension_eq, ho.node.tag]
  refine (checkRange_matched ..).bind fun _ _ _ => ?_
  exact .ok (rebound_function _ _ (.cons ho .nil) length _)

theorem list (h : g.Linked H R g') {items items' : List NodeId}
    (hitems : List.Forall₂ H items items') :
    Drafts H R (draftList items g) (draftList items' g') := by
  have hempty : items'.isEmpty = items.isEmpty := by
    cases hitems <;> rfl
  unfold draftList
  rw [hempty]
  split
  · exact .error (.refl rfl)
  · refine (Matched.mapM (hitems.imp fun _ _ ha => h.listItem ha)).bind fun os os' hos => ?_
    have htags : os.map (·.node.tag) = os'.map (·.node.tag) :=
      map_eq_of_forall₂ hos fun _ _ ho => ho.node.tag.symm
    rw [← hos.length_eq, ← htags]
    exact .ok (rebound_function _ _ hos _ _)

/-- A constant is tagged by the same rule. -/
theorem constantTag_eq (h : g.Linked H R g') (values : List α) :
    g'.constantTag values = g.constantTag values := by
  unfold constantTag
  rw [h.parameterSign]

theorem parameter (h : g.Linked H R g') (values : List α) :
    Draft.Rebound R (g.draftParameter values) (g'.draftParameter values) := by
  unfold draftParameter
  rw [h.constantTag_eq]
  exact ⟨rfl, rfl, rfl, .leaf .parameter (by simp)⟩

theorem matrix (h : g.Linked H R g') (m : Matrix α) :
    Drafts H R (.ok (g.draftMatrix m)) (.ok (g'.draftMatrix m)) := by
  unfold draftMatrix
  rw [h.constantTag_eq]
  exact .ok ⟨rfl, rfl, rfl, .leaf (.matrixParameter m) (by simp)⟩

end Graph.Linked

/-- What is wrong with a declaration has nothing to do with handles. -/
theorem VariableSpec.matched [Scalar α] (v : VariableSpec α) (H : NodeId → NodeId → Prop)
    (R : Nat → Nat → Prop) : Graph.Linked.Drafts H R v.draft v.draft := by
  have hcheck : Matched (Error.Renamed H) Eq v.check v.check := by
    refine .refl fun e he => ?_
    unfold check at he
    split at he
    · cases he
      rfl
    · cases hbounds : v.bounds with
      | none => simp [hbounds] at he
      | some box =>
        simp only [hbounds] at he
        split at he
        · cases he
          rfl
        · cases hfind : reversed? box with
          | none => simp [hfind] at he
          | some c =>
            simp only [hfind] at he
            cases he
            rfl
  refine hcheck.bind ?_
  rintro ⟨⟩ ⟨⟩ -
  exact .ok ⟨rfl, rfl, rfl, .leaf _ (by simp)⟩

/-! ## Calls -/

section Calls

variable {ρ σ τ : Type}

/-- **The same builder call**, with corresponding references. -/
inductive Call.Renamed (H : ρ → σ → Prop) : Call α ρ → Call α σ → Prop
  | taggedVariable (dimension : Nat) (tag : Tag) :
      Renamed H (.taggedVariable dimension tag) (.taggedVariable dimension tag)
  | boundedVariable (lower upper : List α) : Renamed H (.boundedVariable lower upper)
      (.boundedVariable lower upper)
  | declare (v : VariableSpec α) : Renamed H (.declare v) (.declare v)
  | parameter (values : List α) : Renamed H (.parameter values) (.parameter values)
  | scalar (v : α) : Renamed H (.scalar v) (.scalar v)
  | ones (dimension : Nat) : Renamed H (.ones dimension) (.ones dimension)
  | matrixParameter (m : Matrix α) : Renamed H (.matrixParameter m) (.matrixParameter m)
  | add {a b a' b'} (ha : H a a') (hb : H b b') : Renamed H (.add a b) (.add a' b')
  | sub {a b a' b'} (ha : H a a') (hb : H b b') : Renamed H (.sub a b) (.sub a' b')
  | mul {a b a' b'} (ha : H a a') (hb : H b b') : Renamed H (.mul a b) (.mul a' b')
  | div {a b a' b'} (ha : H a a') (hb : H b b') : Renamed H (.div a b) (.div a' b')
  | dot {a b a' b'} (ha : H a a') (hb : H b b') : Renamed H (.dot a b) (.dot a' b')
  | matvec {a b a' b'} (ha : H a a') (hb : H b b') : Renamed H (.matvec a b) (.matvec a' b')
  | neg {a a'} (ha : H a a') : Renamed H (.neg a) (.neg a')
  | reciprocal {a a'} (ha : H a a') : Renamed H (.reciprocal a) (.reciprocal a')
  | log2 {a a'} (ha : H a a') : Renamed H (.log2 a) (.log2 a')
  | ln {a a'} (ha : H a a') : Renamed H (.ln a) (.ln a')
  | sum {a a'} (ha : H a a') : Renamed H (.sum a) (.sum a')
  | prod {a a'} (ha : H a a') : Renamed H (.prod a) (.prod a')
  | list {items items'} (hitems : List.Forall₂ H items items') : Renamed H (.list items)
      (.list items')
  | slice {a a'} (ha : H a a') (start length : Nat) : Renamed H (.slice a start length)
      (.slice a' start length)
  | component {a a'} (ha : H a a') (i : Nat) : Renamed H (.component a i) (.component a' i)

/-- **References are looked up on both sides**, or one of them is unknown on both. -/
theorem Call.renamed_resolve {H : ρ → σ → Prop} {env : τ → Option ρ} {env' : τ → Option σ}
    (h : ∀ t, Option.Rel H (env t) (env' t)) (c : Call α τ) :
    Option.Rel (Call.Renamed H) (c.resolve env) (c.resolve env') := by
  cases c with
  | taggedVariable | boundedVariable | declare | parameter | scalar | ones | matrixParameter =>
    exact .some (by constructor)
  | add a b | sub a b | mul a b | div a b | dot a b | matvec a b =>
    exact rel_bind (h a) fun _ _ ha => rel_bind (h b) fun _ _ hb =>
      .some (by constructor <;> assumption)
  | neg a | reciprocal a | log2 a | ln a | sum a | prod a | slice a | component a =>
    exact rel_bind (h a) fun _ _ ha => .some (by constructor; assumption)
  | list items => exact rel_bind (rel_mapM items h) fun _ _ hitems => .some (.list hitems)

end Calls

end MixedMonotone
