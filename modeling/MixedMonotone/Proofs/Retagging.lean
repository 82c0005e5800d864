import Mathlib
import MixedMonotone.Session.Command
import MixedMonotone.Proofs.Agreeing
import MixedMonotone.Proofs.Bounds
import MixedMonotone.Proofs.Evaluation

/-!
# Graphs that differ in tags

The tags of the operands decide a node's tag, its plan and the coefficients of a matrix-vector
product. They decide nothing else, and no call is refused for a tag.

* `Graph.Retagged`: graphs that differ in tags and in what follows from them at most.
* `Drafted`: what is worked out from such graphs **is refused for the same reason, or differs in
  tags at most**; one lemma per kind of node.
* `agree_call`: so every builder call goes the same way on both, and leaves such graphs.
-/

namespace MixedMonotone

variable {α : Type}

/-! ## Nodes -/

/-- The same operator, up to the coefficients of a matrix-vector product. -/
inductive Op.SameUpToKernel : Op α → Op α → Prop
  | same (op : Op α) : SameUpToKernel op op
  | matvec (kernel kernel' : MatvecKernel α) : SameUpToKernel (.matvec kernel) (.matvec kernel')

/-- The same leaf, or applications that differ in the plan and the coefficients at most. -/
inductive Kind.Retagged : Kind α → Kind α → Prop
  | leaf (k : Kind α) (hleaf : ∀ f, k ≠ .function f) : Retagged k k
  | function {op op' : Op α} (hop : op.SameUpToKernel op') (plan plan' : Plan) (operands : List Nat)
      (scratch : List (OperandValues α)) :
      Retagged (.function ⟨op, plan, operands, scratch⟩) (.function ⟨op', plan', operands, scratch⟩)

theorem Kind.Retagged.matrix?_eq {k k' : Kind α} (h : k.Retagged k') : k'.matrix? = k.matrix? := by
  cases h <;> rfl

theorem Kind.Retagged.operands_eq {k k' : Kind α} (h : k.Retagged k') :
    k'.operands = k.operands := by
  cases h <;> rfl

/-- Nodes that differ in **the tag, and in what follows from tags**, at most. -/
structure Node.Retagged (n n' : Node α) : Prop where
  id : n'.id = n.id
  value : n'.value = n.value
  kind : n.kind.Retagged n'.kind

namespace Node.Retagged

variable {n n' : Node α}

theorem dimension_eq (h : n.Retagged n') : n'.dimension = n.dimension :=
  congrArg List.length h.value

theorem matrix?_eq (h : n.Retagged n') : n'.matrix? = n.matrix? := h.kind.matrix?_eq

theorem isMatrix_eq (h : n.Retagged n') : n'.isMatrix = n.isMatrix :=
  congrArg Option.isSome h.matrix?_eq

theorem isVariable_eq (h : n.Retagged n') : n'.isVariable = n.isVariable := by
  have hkind := h.kind
  unfold Node.isVariable
  generalize n.kind = k, n'.kind = k' at hkind
  cases hkind <;> rfl

theorem operands_eq (h : n.Retagged n') : n'.operands = n.operands := h.kind.operands_eq

end Node.Retagged

section Nodes

variable {nodes nodes' : List (Node α)}

theorem operandsAt_retagged (h : List.Forall₂ Node.Retagged nodes nodes') (i : Nat) :
    operandsAt nodes i = operandsAt nodes' i := by
  have hmap := map_eq_of_forall₂ h fun _ _ hn => hn.operands_eq.symm
  have hi := congrArg (·[i]?) hmap
  simp only [List.getElem?_map] at hi
  rw [operandsAt, operandsAt, hi]

/-- The variables below a node, and their sizes, do not depend on tags. -/
theorem InputsFit.retagged (h : List.Forall₂ Node.Retagged nodes nodes') {i : Nat}
    {points : Points α} (hin : InputsFit nodes i points) : InputsFit nodes' i points := by
  intro j n' hij hn' hv
  obtain ⟨n, hn, hnode⟩ := forall₂_getElem?_right h hn'
  have hreach := hij.congr fun i => (operandsAt_retagged h i).symm
  rw [hnode.dimension_eq]
  exact hin j n hreach hn (hnode.isVariable_eq.symm.trans hv)

theorem firstMatrix?_retagged (h : List.Forall₂ Node.Retagged nodes nodes') {operands : List Nat}
    {σs σs' : List (Signature α)}
    (hσs : List.Forall₂ (fun k σ => signatureAt nodes k = some σ) operands σs)
    (hσs' : List.Forall₂ (fun k σ => signatureAt nodes' k = some σ) operands σs') :
    firstMatrix? σs' = firstMatrix? σs := by
  cases hσs with
  | nil =>
    cases hσs'
    rfl
  | cons hσ _ =>
    cases hσs' with
    | cons hσ' _ =>
      obtain ⟨m, hm, rfl⟩ := Option.map_eq_some_iff.1 hσ
      obtain ⟨m', hm', rfl⟩ := Option.map_eq_some_iff.1 hσ'
      obtain ⟨m'', hm'', hnode⟩ := forall₂_getElem? h hm
      obtain rfl := Option.some.inj (hm'.symm.trans hm'')
      exact hnode.matrix?_eq

end Nodes

/-! ## Graphs -/

/-- Graphs with the same settings and tables, whose nodes differ in tags and in what follows
from them at most. -/
structure Graph.Retagged (g g' : Graph α) : Prop where
  nodes : List.Forall₂ Node.Retagged g.nodes g'.nodes
  positions : g'.arena.positions = g.arena.positions
  settings : g'.settings = g.settings
  interned : g'.interned = g.interned

/-- Operands at one position whose nodes differ in tags at most. -/
structure Operand.Retagged (o o' : Operand α) : Prop where
  position : o'.position = o.position
  node : o.node.Retagged o'.node

/-- Drafts of nodes that differ in tags at most. -/
structure Draft.Retagged (d d' : Draft α) : Prop where
  value : d'.value = d.value
  kind : d.kind.Retagged d'.kind

/-- What is worked out from graphs that differ in tags **is refused for the same reason, or differs
in tags at most**. -/
def Drafted (draft draft' : Graph α → Except (Error α) (Draft α)) : Prop :=
  ∀ g g', g.Retagged g' → Both Draft.Retagged (draft g) (draft' g')

namespace Graph.Retagged

variable {g g' : Graph α}

theorem find (h : g.Retagged g') (id : NodeId) :
    Both Operand.Retagged (g.arena.find id) (g'.arena.find id) := by
  have hposition : g'.arena.position id = g.arena.position id := by
    rw [Arena.position, Arena.position, Arena.position?, Arena.position?, h.positions]
  unfold Arena.find
  rw [hposition]
  refine (Both.refl _).bind ?_
  rintro i _ rfl
  have hnodes : Option.Rel Node.Retagged g.arena.nodes[i]? g'.arena.nodes[i]? :=
    forall₂_rel_getElem? h.nodes i
  generalize g.arena.nodes[i]? = x, g'.arena.nodes[i]? = x' at hnodes
  cases hnodes with
  | none => exact .error rfl
  | some hnode => exact .ok ⟨rfl, hnode⟩

theorem operand (h : g.Retagged g') (id : NodeId) :
    Both Operand.Retagged (g.arena.operand id) (g'.arena.operand id) := by
  refine (h.find id).bind fun o o' ho => ?_
  rw [ho.node.isMatrix_eq]
  split
  · exact .error rfl
  · exact .ok ho

theorem node (h : g.Retagged g') (id : NodeId) :
    Both Node.Retagged (g.arena.node id) (g'.arena.node id) :=
  (h.find id).bind fun _ _ ho => .ok ho.node

theorem listItem (h : g.Retagged g') (id : NodeId) :
    Both Operand.Retagged (g.listItem id) (g'.listItem id) := by
  refine (h.operand id).bind fun o o' ho => ?_
  rw [ho.node.dimension_eq]
  split
  · exact .ok ho
  · exact .error rfl

/-- Whether two nodes can be subtracted depends on their sizes. -/
theorem checkDifference (h : g.Retagged g') (a b : NodeId) :
    Both Eq (g.checkDifference a b) (g'.checkDifference a b) := by
  refine (h.operand a).bind fun l l' hl => (h.operand b).bind fun r r' hr => ?_
  rw [hl.node.dimension_eq, hr.node.dimension_eq]
  exact Both.refl _

theorem checkSameSize (h : g.Retagged g') (lhs rhs : NodeId) :
    Both Eq (g.checkSameSize lhs rhs) (g'.checkSameSize lhs rhs) := by
  refine (h.node lhs).bind fun l l' hl => (h.node rhs).bind fun r r' hr => ?_
  rw [hl.dimension_eq, hr.dimension_eq]
  exact Both.refl _

/-- Added nodes that differ in tags at most. -/
theorem push (h : g.Retagged g') {n n' : Node α} (hn : n.Retagged n') :
    Graph.Retagged { g with arena := g.arena.push n } { g' with arena := g'.arena.push n' } := by
  have hlength : g'.arena.nodes.length = g.arena.nodes.length := h.nodes.length_eq.symm
  refine ⟨List.rel_append h.nodes (.cons hn .nil), ?_, h.settings, h.interned⟩
  simp only [Arena.push, h.positions, hn.id, hlength]

end Graph.Retagged

/-! ## Builders -/

/-- Builders of graphs that differ in tags at most, which issue the same handle next. What they
report may differ. -/
structure Builder.Retagged (b b' : Builder α) : Prop where
  graph : b.graph.Retagged b'.graph
  nextId : b'.nextId = b.nextId

theorem Builder.Retagged.append {b b' : Builder α} (h : b.Retagged b') {d d' : Draft α}
    (hd : d.Retagged d') : (b.append d).Retagged (b'.append d') := by
  have hid : b'.next = b.next := congrArg NodeId.mk h.nextId
  exact ⟨h.graph.push ⟨hid, hd.value, hd.kind⟩, congrArg (· + 1) h.nextId⟩

/-- **What is worked out alike is added alike**, under the same handle. -/
theorem agree_place {draft draft' : Graph α → Except (Error α) (Draft α)}
    (h : Drafted draft draft') :
    Action.Agree Eq Builder.Retagged Eq (Build.place draft) (Build.place draft') := by
  intro b b' hb
  have hdraft := h b.graph b'.graph hb.graph
  unfold Action.answer Action.after Build.place
  generalize draft b.graph = x, draft' b'.graph = x' at hdraft
  cases hdraft with
  | ok hd => exact ⟨.ok (congrArg NodeId.mk hb.nextId.symm), hb.append hd⟩
  | error h => exact ⟨.error h, hb⟩

/-! ## Drafts -/

/-- A draft with one operand. -/
theorem drafted_single {a : NodeId} {draft : Operand α → Except (Error α) (Draft α)}
    (hdraft : ∀ o o', Operand.Retagged o o' → Both Draft.Retagged (draft o) (draft o')) :
    Drafted (fun g => g.arena.operand a >>= draft) (fun g => g.arena.operand a >>= draft) :=
  fun _ _ h => (h.operand a).bind hdraft

section Drafts

variable [Scalar α]

/-- A function node takes positions and sizes from its operands, whatever their tags are. -/
theorem retagged_function {op op' : Op α} (hop : op.SameUpToKernel op') (plan plan' : Plan)
    {os os' : List (Operand α)} (hos : List.Forall₂ Operand.Retagged os os') (dimension : Nat)
    (tag tag' : Tag) :
    Draft.Retagged (.function op plan os dimension tag)
    (.function op' plan' os' dimension tag') := by
  have hpositions : os.map (·.position) = os'.map (·.position) :=
    map_eq_of_forall₂ hos fun _ _ ho => ho.position.symm
  have hscratch :
      os.map (fun o => (⟨List.replicate o.node.dimension 0, List.replicate o.node.dimension 0⟩ :
        OperandValues α)) =
      os'.map fun o => ⟨List.replicate o.node.dimension 0, List.replicate o.node.dimension 0⟩ :=
    map_eq_of_forall₂ hos fun _ _ ho => by rw [ho.node.dimension_eq]
  refine ⟨rfl, ?_⟩
  simp only [Draft.function, hpositions, hscratch]
  exact .function hop plan plan' _ _

namespace Graph

theorem drafted_arith (op : Arith) (a b : NodeId) :
    Drafted (α := α) (draftArith op a b) (draftArith op a b) := by
  intro g g' h
  refine (h.operand a).bind fun l l' hl => (h.operand b).bind fun r r' hr => ?_
  rw [hl.node.dimension_eq, hr.node.dimension_eq]
  refine (Both.refl _).bind ?_
  rintro d _ rfl
  exact .ok (retagged_function (.same _) _ _ (.cons hl (.cons hr .nil)) d _ _)

theorem drafted_dot (a b : NodeId) : Drafted (α := α) (draftDot a b) (draftDot a b) := by
  intro g g' h
  refine (h.operand a).bind fun l l' hl => (h.operand b).bind fun r r' hr => ?_
  rw [hl.node.dimension_eq, hr.node.dimension_eq]
  split
  · exact .error rfl
  · have hdraft := retagged_function (.same .dot)
      (.binary (Arith.mul.strategy l.node.tag r.node.tag))
      (.binary (Arith.mul.strategy l'.node.tag r'.node.tag)) (.cons hl (.cons hr .nil)) 1
      (g.dotTag l.node.tag r.node.tag).1 (g'.dotTag l'.node.tag r'.node.tag).1
    exact .ok ⟨hdraft.value, hdraft.kind⟩

theorem drafted_matvec (a b : NodeId) : Drafted (α := α) (draftMatvec a b) (draftMatvec a b) := by
  intro g g' h
  refine (h.find a).bind fun l l' hl => (h.operand b).bind fun r r' hr => ?_
  rw [hl.node.matrix?_eq, hr.node.dimension_eq]
  cases l.node.matrix? with
  | none => exact .error rfl
  | some m =>
    dsimp only
    split
    · exact .error rfl
    · exact .ok (retagged_function (.matvec _ _) _ _ (.cons hl (.cons hr .nil)) m.rows _ _)

theorem drafted_unary (op : Op α) (route : Route) (tag : Tag → Tag) (a : NodeId) :
    Drafted (draftUnary op route tag a) (draftUnary op route tag a) := by
  refine drafted_single fun o o' ho => ?_
  rw [ho.node.dimension_eq]
  exact .ok (retagged_function (.same op) _ _ (.cons ho .nil) _ _ _)

theorem drafted_sum (a : NodeId) : Drafted (α := α) (draftSum a) (draftSum a) :=
  drafted_single fun _ _ ho => .ok (retagged_function (.same .sum) _ _ (.cons ho .nil) 1 _ _)

/-- The plan of a product is the one place where a tag of the operand decides what is evaluated. -/
theorem drafted_prod (a : NodeId) : Drafted (α := α) (draftProd a) (draftProd a) :=
  drafted_single fun _ _ ho => .ok (retagged_function (.same .prod) _ _ (.cons ho .nil) 1 _ _)

theorem drafted_slice (a : NodeId) (start length : Nat) (arithmetic : Arithmetic) :
    Drafted (α := α) (draftSlice a start length arithmetic)
    (draftSlice a start length arithmetic) := by
  refine drafted_single fun o o' ho => ?_
  rw [ho.node.dimension_eq]
  refine (Both.refl _).bind fun _ _ _ => ?_
  exact .ok (retagged_function (.same _) _ _ (.cons ho .nil) length _ _)

theorem drafted_list (items : List NodeId) :
    Drafted (α := α) (draftList items) (draftList items) := by
  intro g g' h
  unfold draftList
  split
  · exact .error rfl
  · refine (Matched.mapM (List.forall₂_same.2 fun item _ => h.listItem item)).bind fun os os' hos =>
      ?_
    rw [← hos.length_eq]
    exact .ok (retagged_function (.same .list) _ _ hos _ _ _)

theorem drafted_matrix (m : Matrix α) :
    Drafted (fun g => .ok (g.draftMatrix m)) (fun g => .ok (g.draftMatrix m)) := by
  intro g g' _
  have hdraft : (g.draftMatrix m).Retagged (g'.draftMatrix m) :=
    ⟨rfl, .leaf (.matrixParameter m) (by simp)⟩
  exact .ok hdraft

end Graph

/-- A variable declared with another tag. -/
theorem VariableSpec.drafted (v : VariableSpec α) (tag : Tag) :
    Drafted (fun _ => v.draft) (fun _ => (v.withTag tag).draft) := by
  intro g g' _
  refine (Both.refl v.check).bind ?_
  rintro ⟨⟩ ⟨⟩ -
  exact .ok ⟨rfl, .leaf _ (by simp)⟩

/-! ## Builder calls -/

theorem agree_sub (a b : NodeId) :
    Action.Agree (α := α) Eq Builder.Retagged Eq (Build.sub a b) (Build.sub a b) := by
  refine .bind (.inquire fun _ _ hs => hs.graph.checkDifference a b) fun _ _ _ =>
    .bind (agree_place (Graph.drafted_unary _ _ _ _)) ?_
  rintro negated _ rfl
  exact agree_place (Graph.drafted_arith _ _ _)

/-- The difference of a constraint. -/
theorem agree_slack (lhs rhs : NodeId) :
    Action.Agree (α := α) Eq Builder.Retagged Eq (Build.slack lhs rhs) (Build.slack lhs rhs) :=
  .bind (.inquire fun _ _ hs => hs.graph.checkSameSize lhs rhs) fun _ _ _ => agree_sub rhs lhs

variable [DecidableEq α]

theorem agree_constant (values : List α) :
    Action.Agree Eq Builder.Retagged Eq (Build.constant values) (Build.constant values) := by
  intro b b' hb
  have hinterned : b'.graph.interned? values = b.graph.interned? values := by
    unfold Graph.interned?
    rw [hb.graph.settings, hb.graph.interned]
  have hid : b'.next = b.next := congrArg NodeId.mk hb.nextId
  have hadded : (b.append (b.graph.draftParameter values)).Retagged
      (b'.append (b'.graph.draftParameter values)) := hb.append ⟨rfl, .leaf .parameter (by simp)⟩
  unfold Action.answer Action.after Build.constant
  rw [hinterned, hb.graph.settings, hid]
  cases b.graph.interned? values with
  | some id => exact ⟨.ok rfl, hb⟩
  | none =>
    refine ⟨.ok rfl, ?_⟩
    dsimp only
    split
    -- a shared constant is recorded in both tables
    · refine ⟨⟨hadded.graph.nodes, hadded.graph.positions, hadded.graph.settings, ?_⟩,
        hadded.nextId⟩
      exact congrArg ((values, b.next) :: ·) hb.graph.interned
    · exact hadded

theorem agree_parameter (values : List α) :
    Action.Agree Eq Builder.Retagged Eq (Build.parameter values) (Build.parameter values) := by
  unfold Build.parameter
  split
  · exact .throw rfl
  · exact agree_constant values

/-- **Every builder call** goes the same way on graphs that differ in tags at most. -/
theorem agree_call (c : Call α NodeId) : Action.Agree Eq Builder.Retagged Eq c.run c.run := by
  cases c with
  | taggedVariable dimension tag => exact agree_place (VariableSpec.drafted _ tag)
  | boundedVariable lower upper => exact agree_place (VariableSpec.drafted _ _)
  | declare v => exact agree_place (v.drafted v.tag)
  | parameter values => exact agree_parameter values
  | scalar v => exact agree_constant [v]
  | ones dimension => exact agree_parameter _
  | matrixParameter m => exact agree_place (Graph.drafted_matrix m)
  | add a b | mul a b | div a b => exact agree_place (Graph.drafted_arith _ a b)
  | sub a b => exact agree_sub a b
  | dot a b => exact agree_place (Graph.drafted_dot a b)
  | matvec a b => exact agree_place (Graph.drafted_matvec a b)
  | neg a | reciprocal a | log2 a | ln a => exact agree_place (Graph.drafted_unary _ _ _ a)
  | sum a => exact agree_place (Graph.drafted_sum a)
  | prod a => exact agree_place (Graph.drafted_prod a)
  | list items => exact agree_place (Graph.drafted_list items)
  | slice a start length => exact agree_place (Graph.drafted_slice a start length .checked)
  | component a i => exact agree_place (Graph.drafted_slice a i 1 .checked)

end Drafts

end MixedMonotone
