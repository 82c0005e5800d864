import Mathlib
import MixedMonotone.Proofs.Overflow

/-!
# How graphs are represented

Evaluating, compiling and every builder call rely on the way a graph stores its nodes,
without looking again.

* `Op.Sized`: the sizes that an operator takes and gives.
* `Op.planFor`, `Op.tagFor`: **the tables**, read as functions of the operands' tags.
* `Application.Represents`: what a function node stores fits its operands.
* `Graph.Represented`: everything that is relied on, clause by clause.
* `represented_runAll`: **every reachable graph is so represented**, whatever calls were answered or
  refused before.
-/

namespace MixedMonotone

variable {α : Type}

/-! ## The tables -/

/-- The coefficients are of matrices with so many rows and columns. -/
def MatvecKernel.HasShape (rows cols : Nat) : MatvecKernel α → Prop
  | signed m _ => m.shape = (rows, cols)
  | split above below => above.shape = (rows, cols) ∧ below.shape = (rows, cols)

/-- **The sizes** of the operands and of the result fit the operator. -/
def Op.Sized (op : Op α) (operands : List Nat) (result : Nat) : Prop :=
  match op, operands with
  | arith _, [l, r] => Broadcasts l r result
  | dot, [l, r] => l = r ∧ result = 1
  | matvec kernel, [_, v] => kernel.HasShape result v
  | log2, [o] | ln, [o] | neg, [o] | reciprocal, [o] => result = o
  | sum, [_] | prod, [_] => result = 1
  | list, os => os ≠ [] ∧ (∀ o ∈ os, o = 1) ∧ result = os.length
  | slice start, [o] => 0 < result ∧ start + result ≤ o
  | _, _ => False

/-- **The plan** that the tables give for operands with these tags. -/
def Op.planFor (op : Op α) (tags : List Tag) : Plan :=
  match op, tags with
  | arith op, [l, r] => .binary (op.strategy l r)
  | dot, [l, r] => .binary (Arith.mul.strategy l r)
  | matvec _, [l, r] =>
    match Arith.mul.strategy l r with
    | .direct _ right | .selectLeft right => .binary (.direct .own right)
    | .splitLeft _ | .splitBoth => .binary (.splitLeft .own)
  | neg, _ | reciprocal, _ => .single .swapped
  | prod, [o] => if o = .nonneg then .single .own else .interval
  | _, _ => .single .own

/-- **The tag** that the tables give under the settings, for operands with these tags; the parity of
a product's operand counts. -/
def Op.tagFor (s : Settings) (op : Op α) (operands : List (Signature α)) : Tag :=
  match op, operands with
  | arith op, [l, r] => op.tag l.tag r.tag
  | dot, [l, r] => s.dotTag l.tag r.tag
  | matvec _, [l, r] => l.tag.mul r.tag
  | neg, [o] => o.tag.negate
  | prod, [o] => o.tag.prod o.dimension
  | reciprocal, [o] | sum, [o] | slice _, [o] => o.tag
  | list, os => Tag.list (os.map Signature.tag)
  | _, _ => .unknown

section Fits

variable [Scalar α] {s : Settings} {op : Op α} {plan : Plan} {σs : List (Signature α)}
    {d : Nat} {t : Tag}

/-- Splitting a matrix keeps its shape. -/
theorem matvecKernel_hasShape (m : Matrix α) (mt vt : Tag) :
    (Graph.matvecKernel m mt vt).2.HasShape m.rows m.cols := by
  rcases matvecKernel_cases m mt vt with ⟨-, h⟩ | ⟨-, h⟩ <;> rw [h]
  · rfl
  · exact ⟨rfl, rfl⟩

theorem Op.Fits.sized (h : op.Fits s plan σs d t) : op.Sized (σs.map Signature.dimension) d := by
  cases h with
  | arith _ _ hd => exact hd
  | dot _ _ hd => exact ⟨hd, rfl⟩
  | @matvec l r m _ _ hd =>
    have hshape := matvecKernel_hasShape m l.tag r.tag
    rwa [← hd] at hshape
  | log2 | ln | neg | reciprocal | sum | prod => rfl
  | list hne hos =>
    refine ⟨by simpa using hne, ?_, (List.length_map ..).symm⟩
    intro o ho
    obtain ⟨σ, hσ, rfl⟩ := List.mem_map.1 ho
    exact (hos σ hσ).2
  | slice _ hpos hle => exact ⟨hpos, hle⟩

theorem Op.Fits.plan_eq (h : op.Fits s plan σs d t) : plan = op.planFor (σs.map Signature.tag) := by
  cases h with
  | @matvec l r m =>
    unfold planFor Graph.matvecKernel
    simp only [List.map_cons, List.map_nil]
    cases Arith.mul.strategy l.tag r.tag <;> rfl
  | _ => rfl

theorem Op.Fits.tag_eq (h : op.Fits s plan σs d t) : t = op.tagFor s σs := by
  cases h <;> rfl

/-- Only a matrix-vector product reads a matrix, as its first operand. -/
theorem Op.Fits.reads_matrix (h : op.Fits s plan σs d t) {j : Nat} {σ : Signature α} {m : Matrix α}
    (hσ : σs[j]? = some σ) (hm : σ.matrix? = some m) : j = 0 ∧ ∃ kernel, op = .matvec kernel := by
  have hvec : ¬ σ.IsVector := by simp [Signature.IsVector, hm]
  have hmem := List.mem_of_getElem? hσ
  cases h with
  | matvec _ hr =>
    refine ⟨?_, _, rfl⟩
    rcases j with _ | _ | j
    · rfl
    · obtain rfl : _ = σ := by simpa using hσ
      exact absurd hr hvec
    · simp at hσ
  | arith hl hr | dot hl hr =>
    rcases List.mem_pair.1 hmem with rfl | rfl
    · exact absurd hl hvec
    · exact absurd hr hvec
  | log2 ho | ln ho | neg ho | reciprocal ho | sum ho | prod ho | slice ho =>
    obtain rfl := List.mem_singleton.1 hmem
    exact absurd ho hvec
  | list _ hos => exact absurd (hos σ hmem).1 hvec

/-- A matrix-vector product takes its coefficients from the matrix it reads. -/
theorem Op.Fits.kernel_eq {kernel : MatvecKernel α} (h : (Op.matvec kernel).Fits s plan σs d t) :
    ∃ l r m, σs = [l, r] ∧ l.matrix? = some m ∧ kernel = (Graph.matvecKernel m l.tag r.tag).2 := by
  cases h with
  | @matvec l r m hm => exact ⟨l, r, m, rfl, hm, rfl⟩

end Fits

/-! ## Graphs -/

/-- Where signatures are found, nodes are. -/
theorem nodes_of_signatures {nodes : List (Node α)} {operands : List Nat} {σs : List (Signature α)}
    (h : List.Forall₂ (fun k σ => signatureAt nodes k = some σ) operands σs) :
    ∃ os : List (Node α), List.Forall₂ (fun k o => nodes[k]? = some o) operands os ∧
      σs = os.map Node.signature := by
  induction h with
  | nil => exact ⟨[], .nil, rfl⟩
  | cons hσ _ ih =>
    obtain ⟨o, ho, rfl⟩ := Option.map_eq_some_iff.1 hσ
    obtain ⟨os, hos, rfl⟩ := ih
    exact ⟨o :: os, .cons ho hos, rfl⟩

variable [Scalar α]

/-- **What a function node `n` stores fits its operands.** -/
structure Application.Represents (s : Settings) (f : Application α) (operands : List (Node α))
    (n : Node α) : Prop where
  /-- There is room for the values of every operand along both routes. -/
  scratch : List.Forall₂ (fun v o => v.own.length = o.dimension ∧ v.swapped.length = o.dimension)
    f.scratch operands
  sized : f.op.Sized (operands.map Node.dimension) n.dimension
  plan : f.plan = f.op.planFor (operands.map Node.tag)
  tag : n.tag = f.op.tagFor s (operands.map Node.signature)
  /-- A matrix is the first operand of a matrix-vector product, and nothing else. -/
  matrix : ∀ j o, operands[j]? = some o → o.isMatrix = true → j = 0 ∧
    ∃ kernel, f.op = .matvec kernel
  /-- The coefficients of a matrix-vector product are those of its first operand. -/
  kernel : ∀ kernel, f.op = .matvec kernel → ∃ l r m, operands = [l, r] ∧ l.matrix? = some m ∧
    kernel = (Graph.matvecKernel m l.tag r.tag).2

/-- **A graph as it is relied on.** -/
structure Graph.Represented (g : Graph α) : Prop where
  /-- Handles increase along the arena. -/
  increasing : g.nodes.Pairwise fun m n => m.id.number < n.id.number
  /-- The table gives the positions of these handles, and no others. -/
  table : ∀ id i, g.arena.position? id = some i ↔ ∃ n, g.nodes[i]? = some n ∧ n.id = id
  /-- Constant matrices, and these only, have no components. -/
  dimension : ∀ n ∈ g.nodes, n.dimension = 0 ↔ n.isMatrix = true
  /-- Operands stand before the function node that reads them, and what it stores fits them. -/
  function : ∀ (i : Nat) (n : Node α) (f : Application α), g.nodes[i]? = some n →
    n.kind = .function f →
    ∃ operands, List.Forall₂ (fun k o => k < i ∧ g.nodes[k]? = some o) f.operands operands ∧
      f.Represents g.settings operands n

/-- An application that follows the tables. -/
theorem ApplicationOK.represents {s : Settings} {nodes : List (Node α)} {i : Nat}
    {f : Application α} {n : Node α} (h : ApplicationOK s nodes i f n.dimension n.tag) :
    ∃ operands, List.Forall₂ (fun k o => k < i ∧ nodes[k]? = some o) f.operands operands ∧
      f.Represents s operands n := by
  obtain ⟨hlt, σs, hσs, hfits, hsizes⟩ := h
  obtain ⟨os, hos, rfl⟩ := nodes_of_signatures hσs
  have hplan := hfits.plan_eq
  have hsized := hfits.sized
  rw [List.map_map] at hplan hsized
  refine ⟨os, (List.forall₂_and_left _ _).2 ⟨hlt, hos⟩, ?_, hsized, hplan, hfits.tag_eq, ?_, ?_⟩
  · exact List.forall₂_map_right_iff.1 hsizes
  · intro j o ho hmat
    obtain ⟨m, hm⟩ := Option.isSome_iff_exists.1 hmat
    exact hfits.reads_matrix (by rw [List.getElem?_map, ho, Option.map_some]) hm
  · intro kernel hop
    rw [hop] at hfits
    obtain ⟨l, r, m, hlr, hm, hkernel⟩ := hfits.kernel_eq
    obtain ⟨l', os₁, rfl, rfl, hr⟩ := List.map_eq_cons_iff.1 hlr
    obtain ⟨r', os₂, rfl, rfl, hnil⟩ := List.map_eq_cons_iff.1 hr
    obtain rfl := List.map_eq_nil_iff.1 hnil
    exact ⟨l', r', m, rfl, hm, hkernel⟩

theorem ArenaOK.represented {g : Graph α} (hok : ArenaOK g.settings g.arena) : g.Represented := by
  refine ⟨hok.ids, hok.table, fun n hn => ?_, fun i n f hn hf => ?_⟩
  · obtain ⟨i, hi⟩ := List.mem_iff_getElem?.1 hn
    constructor
    · intro hzero
      by_contra hmat
      have hpos := hok.nodes.dimension_pos hi (by simpa [Node.isMatrix] using hmat)
      omega
    · intro hmat
      obtain ⟨m, hm⟩ := Option.isSome_iff_exists.1 hmat
      cases hkind : n.kind with
      | matrixParameter m' => exact hok.nodes.dimension_matrix hi hkind
      | _ => simp [Node.matrix?, hkind, Kind.matrix?] at hm
  · exact (hok.nodes.application hn hf).represents

/-- A range that is represented lies within its operand. -/
theorem Graph.Represented.range_le {g : Graph α} (h : g.Represented) {i k start : Nat}
    {n o : Node α} {f : Application α} (hn : g.nodes[i]? = some n) (hf : n.kind = .function f)
    (hop : f.op = .slice start) (hoperands : f.operands = [k]) (ho : g.nodes[k]? = some o) :
    start + n.dimension ≤ o.dimension := by
  obtain ⟨os, hos, hrep⟩ := h.function i n f hn hf
  rw [hoperands] at hos
  obtain ⟨o', ⟨-, ho'⟩, rfl⟩ := forall₂_single hos.flip
  obtain rfl := Option.some.inj (ho'.symm.trans ho)
  have hsized := hrep.sized
  rw [hop] at hsized
  exact hsized.2

section Range

variable {b : Builder α} (hb : GraphOK b.nextId b.log b.graph) {a : NodeId} {o : Operand α}
  (ho : b.graph.arena.operand a = .ok o) {start length : Nat}

include hb ho

/-- **An added range is represented if and only if it lies within its vector.** -/
theorem represented_range_iff (hpos : 0 < length) :
    (b.append (.range o start length)).graph.Represented ↔ start + length ≤ o.node.dimension := by
  obtain ⟨hat, hvec⟩ := Graph.operand_spec ho
  constructor
  · intro h
    have hle := h.range_le (b.getElem?_append _) rfl rfl rfl (getElem?_append_of_eq_some hat _)
    rwa [Builder.nodeOf, Node.dimension, Draft.range, Draft.function, List.length_replicate] at hle
  · intro hle
    have hok : BuilderOK b.nextId b.log b := ⟨hb, le_rfl, List.Subset.refl _⟩
    exact (hok.append (draftOK_range hb.nodes hat hvec hpos hle)).graph.arena.represented

end Range

variable [DecidableEq α]

/-- One row of mixed signs times a vector, and an inner product of mixed signs, with a refused sum
of the matrix, a refused range whose end no word holds and a handle for no node in between; then a
copy, which is built on. -/
def copiedCommands : List (Command ℚ NodeId) :=
  [.newGraph { dotSign := .nonnegative }, .graph 0 (.build (.taggedVariable 3 .nonneg)),
    .graph 0 (.build (.matrixParameter ⟨1, 3, [1, -2, 3], by decide, by decide, rfl⟩)),
    .graph 0 (.build (.matvec ⟨2⟩ ⟨1⟩)), .graph 0 (.build (.add ⟨2⟩ ⟨1⟩)), .freshId,
    .graph 0 (.build (.slice ⟨1⟩ 0xFFFFFFFFFFFFFFFF 5)),
    .graph 0 (.build (.neg ⟨1⟩)), .graph 0 (.build (.dot ⟨1⟩ ⟨5⟩)), .graph 0 .duplicate,
    .graph 1 (.build (.sum ⟨3⟩))]

end MixedMonotone
