import Mathlib
import MixedMonotone.Proofs.Lists
import MixedMonotone.Proofs.Reachability

/-!
# Well-formed arenas

* `Signature`: what the nodes that read a node see of it.
* `Op.Fits`: **the tables**: the plan, the dimension and the tag of a function node follow from its
  operator and the signatures of its operands.
* `NodeOK`: a node fits the nodes before it.
* `ArenaOK`: every node does, the handles increase, and the table of positions is exact.

None of this looks at a cache (`nodeOK_alike`), so evaluations keep it.
-/

namespace MixedMonotone

variable {α : Type}

/-- What the nodes that read a node see of it. -/
structure Signature (α : Type) where
  dimension : Nat
  tag : Tag
  matrix? : Option (Matrix α)

/-- What the nodes that read a node see of it. -/
def Node.signature (n : Node α) : Signature α := ⟨n.dimension, n.tag, n.matrix?⟩

/-- The signature of the node at a position. -/
def signatureAt (nodes : List (Node α)) (i : Nat) : Option (Signature α) :=
  nodes[i]?.map Node.signature

theorem operandsAt_function {nodes : List (Node α)} {i : Nat} {n : Node α} {f : Application α}
    (hn : nodes[i]? = some n) (hf : n.kind = .function f) : operandsAt nodes i = f.operands := by
  simp [operandsAt, hn, Node.operands, hf, Kind.operands]

theorem mem_operandsAt {nodes : List (Node α)} {i : Nat} {n : Node α} {f : Application α}
    (hn : nodes[i]? = some n) (hf : n.kind = .function f) {k : Nat} (hk : k ∈ f.operands) :
    k ∈ operandsAt nodes i := by
  rw [operandsAt_function hn hf]
  exact hk

/-- A signature of a vector. -/
def Signature.IsVector (σ : Signature α) : Prop := σ.matrix? = none

/-- The tag of an inner product under the settings. -/
def Settings.dotTag (s : Settings) (left right : Tag) : Tag :=
  if left.mul right = .nonpos ∧ s.dotSign = .nonnegative then .nonneg else left.mul right

/-- An elementwise result has `result` components: each operand has as many, or a single one. -/
def Broadcasts (left right result : Nat) : Prop :=
  (left = result ∧ (right = result ∨ right = 1)) ∨ (left = 1 ∧ right = result)

variable [Scalar α]

/-- **The tables**: the plan, the dimension and the tag of a node, from its operator and the
signatures of its operands. -/
inductive Op.Fits (s : Settings) : Op α → Plan → List (Signature α) → Nat → Tag → Prop
  | arith {op : Arith} {l r : Signature α} {d : Nat} (hl : l.IsVector) (hr : r.IsVector)
      (hd : Broadcasts l.dimension r.dimension d) :
      Fits s (.arith op) (.binary (op.strategy l.tag r.tag)) [l, r] d (op.tag l.tag r.tag)
  | dot {l r : Signature α} (hl : l.IsVector) (hr : r.IsVector) (hd : l.dimension = r.dimension) :
      Fits s .dot (.binary (Arith.mul.strategy l.tag r.tag)) [l, r] 1 (s.dotTag l.tag r.tag)
  | matvec {l r : Signature α} {m : Matrix α} (hl : l.matrix? = some m) (hr : r.IsVector)
      (hd : r.dimension = m.cols) :
      Fits s (.matvec (Graph.matvecKernel m l.tag r.tag).2)
      (Graph.matvecKernel m l.tag r.tag).1 [l, r]
        m.rows (l.tag.mul r.tag)
  | log2 {o : Signature α} (ho : o.IsVector) : Fits s .log2 (.single .own) [o] o.dimension .unknown
  | ln {o : Signature α} (ho : o.IsVector) : Fits s .ln (.single .own) [o] o.dimension .unknown
  | neg {o : Signature α} (ho : o.IsVector) :
      Fits s .neg (.single .swapped) [o] o.dimension o.tag.negate
  | reciprocal {o : Signature α} (ho : o.IsVector) :
      Fits s .reciprocal (.single .swapped) [o] o.dimension o.tag
  | sum {o : Signature α} (ho : o.IsVector) : Fits s .sum (.single .own) [o] 1 o.tag
  | prod {o : Signature α} (ho : o.IsVector) :
      Fits s .prod (if o.tag = .nonneg then .single .own else .interval) [o] 1
      (o.tag.prod o.dimension)
  | list {os : List (Signature α)} (hne : os ≠ []) (hos : ∀ o ∈ os, o.IsVector ∧ o.dimension = 1) :
      Fits s .list (.single .own) os os.length (Tag.list (os.map Signature.tag))
  | slice {o : Signature α} {start length : Nat} (ho : o.IsVector) (hpos : 0 < length)
      (hle : start + length ≤ o.dimension) :
      Fits s (.slice start) (.single .own) [o] length o.tag

/-- One operand's values have the operand's dimension along both routes. -/
def OperandValues.Has (v : OperandValues α) (d : Nat) : Prop :=
  v.own.length = d ∧ v.swapped.length = d

/-- The operands' values have the sizes that the signatures give. -/
abbrev HaveSizes (vs : List (OperandValues α)) (σs : List (Signature α)) : Prop :=
  List.Forall₂ (fun v σ => v.Has σ.dimension) vs σs

/-- The box has the given dimension and its corners are in order. -/
structure Box.Sound (box : Box α) (d : Nat) : Prop where
  lower : box.lower.length = d
  upper : box.upper.length = d
  ordered : List.Forall₂ (fun l u => Scalar.le l u = true) box.lower box.upper

/-- An application at position `i` fits the nodes before it. -/
structure ApplicationOK (s : Settings) (nodes : List (Node α)) (i : Nat) (f : Application α)
    (dimension : Nat) (tag : Tag) : Prop where
  before : ∀ k ∈ f.operands, k < i
  fits : ∃ σs : List (Signature α), List.Forall₂ (fun k σ => signatureAt nodes k = some σ)
    f.operands σs ∧ f.op.Fits s f.plan σs dimension tag ∧ HaveSizes f.scratch σs

/-- **A node at position `i` fits the nodes before it.** Only a constant matrix has dimension
zero. -/
def NodeOK (s : Settings) (nodes : List (Node α)) (i : Nat) (n : Node α) : Prop :=
  match n.kind with
  | .parameter => 0 < n.dimension ∧ n.tag = Tag.ofValues n.value s.parameterSign
  | .matrixParameter m => n.dimension = 0 ∧ n.tag = Tag.ofValues m.values s.parameterSign
  | .variable bounds => 0 < n.dimension ∧ ∀ box, bounds = some box → box.Sound n.dimension
  | .function f => 0 < n.dimension ∧ ApplicationOK s nodes i f n.dimension n.tag

/-- Every node fits the nodes before it. -/
def NodesOK (s : Settings) (nodes : List (Node α)) : Prop :=
  ∀ i n, nodes[i]? = some n → NodeOK s nodes i n

/-- **A well-formed arena.** -/
structure ArenaOK (s : Settings) (a : Arena α) : Prop where
  nodes : NodesOK s a.nodes
  ids : a.nodes.Pairwise fun m n => m.id.number < n.id.number
  table : ∀ id i, a.position? id = some i ↔ ∃ n, a.nodes[i]? = some n ∧ n.id = id

/-! ## Caches do not matter -/

theorem OperandValues.blank_has (v : OperandValues α) (d : Nat) : v.blank.Has d ↔ v.Has d := by
  simp [OperandValues.Has, OperandValues.blank]

theorem haveSizes_blank {vs : List (OperandValues α)} {σs : List (Signature α)} :
    HaveSizes (vs.map OperandValues.blank) σs ↔ HaveSizes vs σs := by
  simp only [HaveSizes, List.forall₂_map_left_iff, OperandValues.blank_has]

theorem Node.blank_signature (n : Node α) : n.blank.signature = n.signature := by
  simp [Node.signature]

theorem signatureAt_alike {nodes nodes' : List (Node α)} (h : Alike nodes nodes') :
    signatureAt nodes = signatureAt nodes' := funext (h.lookup_eq Node.blank_signature)

theorem applicationOK_alike {s : Settings} {nodes nodes' : List (Node α)} (h : Alike nodes nodes')
    {i : Nat} {f f' : Application α} (hf : f.blank = f'.blank) {d : Nat} {t : Tag}
    (hok : ApplicationOK s nodes i f d t) : ApplicationOK s nodes' i f' d t := by
  obtain ⟨op, plan, operands, scratch⟩ := f
  obtain ⟨op', plan', operands', scratch'⟩ := f'
  simp only [Application.blank, Application.mk.injEq] at hf
  obtain ⟨rfl, rfl, rfl, hscratch⟩ := hf
  obtain ⟨hlt, σs, hσs, hfits, hhas⟩ := hok
  refine ⟨hlt, σs, signatureAt_alike h ▸ hσs, hfits, ?_⟩
  rw [← haveSizes_blank] at hhas ⊢
  exact hscratch ▸ hhas

theorem nodeOK_alike {s : Settings} {nodes nodes' : List (Node α)} (h : Alike nodes nodes')
    {i : Nat} {n n' : Node α} (hn : n.blank = n'.blank) (hok : NodeOK s nodes i n) :
    NodeOK s nodes' i n' := by
  have hdim : n.dimension = n'.dimension := Node.eq_of_blank Node.blank_dimension hn
  obtain ⟨id, tag, kind, value⟩ := n
  obtain ⟨id', tag', kind', value'⟩ := n'
  -- blank nodes are of one kind, and differ in nothing that the tables read
  cases kind <;> cases kind' <;>
    simp only [Node.blank, Kind.blank, Node.mk.injEq, reduceCtorEq, false_and, and_false,
      Kind.matrixParameter.injEq, Kind.variable.injEq, Kind.function.injEq] at hn
  case parameter.parameter =>
    obtain ⟨-, rfl, -, rfl⟩ := hn
    exact hok
  case matrixParameter.matrixParameter =>
    obtain ⟨-, rfl, rfl, rfl⟩ := hn
    exact hok
  case variable.variable =>
    obtain ⟨-, rfl, rfl, -⟩ := hn
    simpa only [NodeOK, hdim] using hok
  case function.function =>
    obtain ⟨-, rfl, hf, -⟩ := hn
    simp only [NodeOK, hdim] at hok ⊢
    exact ⟨hok.1, applicationOK_alike h hf hok.2⟩

theorem NodesOK.alike {s : Settings} {nodes nodes' : List (Node α)} (hok : NodesOK s nodes)
    (h : Alike nodes nodes') : NodesOK s nodes' := by
  intro i n' hn'
  obtain ⟨n, hn, hblank⟩ := h.symm.getElem? hn'
  exact nodeOK_alike h hblank (hok i n hn)

theorem ArenaOK.of_blank_eq {s : Settings} {a b : Arena α} (hok : ArenaOK s a)
    (h : a.blank = b.blank) : ArenaOK s b := by
  obtain ⟨halike, hpos⟩ := Arena.blank_eq_iff.1 h
  have hids : ∀ ns : List (Node α), (ns.map Node.blank).map (·.id.number) =
      ns.map (·.id.number) := by
    intro ns; simp [List.map_map, Function.comp_def]
  refine ⟨hok.nodes.alike halike, ?_, ?_⟩
  · have hmap := List.pairwise_map.2 hok.ids
    rw [← hids, halike, hids] at hmap
    exact List.pairwise_map.1 hmap
  · intro id i
    have hlook := halike.lookup_eq (f := Node.id) (fun _ => rfl) i
    rw [Arena.position?, ← hpos]
    refine (hok.table id i).trans ?_
    simp only [← Option.map_eq_some_iff, hlook]

/-! ## What a well-formed node says of its operands -/

namespace NodesOK

variable {s : Settings} {nodes : List (Node α)}

theorem application (hok : NodesOK s nodes) {i : Nat} {n : Node α} {f : Application α}
    (hn : nodes[i]? = some n) (hf : n.kind = .function f) :
    ApplicationOK s nodes i f n.dimension n.tag := by
  have := hok i n hn
  rw [NodeOK, hf] at this
  exact this.2

theorem operands_lt (hok : NodesOK s nodes) (i : Nat) : ∀ k ∈ operandsAt nodes i, k < i := by
  intro k hk
  unfold operandsAt at hk
  cases hn : nodes[i]? with
  | none => simp [hn] at hk
  | some n =>
    simp only [hn, Option.map_some, Option.getD_some, Node.operands] at hk
    cases hkind : n.kind with
    | function f => rw [hkind] at hk; exact (hok.application hn hkind).before k hk
    | _ => rw [hkind] at hk; simp [Kind.operands] at hk

theorem before (hok : NodesOK s nodes) {i : Nat} {n : Node α} (hn : nodes[i]? = some n) :
    ∀ k ∈ n.operands, k < i := fun k hk =>
  hok.operands_lt i k (by simpa [operandsAt, hn] using hk)

/-- A node that is no constant matrix has a component. -/
theorem dimension_pos (hok : NodesOK s nodes) {i : Nat} {n : Node α} (hn : nodes[i]? = some n)
    (hv : n.matrix? = none) : 0 < n.dimension := by
  have := hok i n hn
  unfold NodeOK at this
  unfold Node.matrix? at hv
  cases hkind : n.kind with
  | matrixParameter m => rw [hkind] at hv; simp [Kind.matrix?] at hv
  | _ => rw [hkind] at this; exact this.1

theorem dimension_matrix (hok : NodesOK s nodes) {i : Nat} {n : Node α} {m : Matrix α}
    (hn : nodes[i]? = some n) (hm : n.kind = .matrixParameter m) : n.dimension = 0 := by
  have := hok i n hn
  rw [NodeOK, hm] at this
  exact this.1

end NodesOK

end MixedMonotone
