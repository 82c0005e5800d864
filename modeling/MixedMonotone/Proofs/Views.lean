import Mathlib
import MixedMonotone.Proofs.Correspondence
import MixedMonotone.Proofs.Representation

/-!
# What a node shows

To those that read it, a node is its signature, the variables below it and a value for all points
that fit them. How it was built is no part of that, and neither is where it stands.

* `View`: these three; `Shows`: the node at a position shows a view.
* `Shows.append`: **nodes added later change nothing.**
* `View.apply`: what an operator shows, given what its operands show.
* `shows_function`: **a function node shows just that**, by the tables.
* `View.Same`: views that no reader can tell apart.
-/

namespace MixedMonotone

variable {α : Type}

/-! ## Variables below a node -/

/-- The signatures of the variables below a position. -/
def inputsBelow (nodes : List (Node α)) (i : Nat) : Set (Signature α) :=
  { σ | ∃ j n, Reaches nodes i j ∧ nodes[j]? = some n ∧ n.isVariable = true ∧ n.signature = σ }

section Inputs

variable {nodes : List (Node α)} {i : Nat} {n : Node α}

/-- Points fit a position as far as they fit the variables below it. -/
theorem inputsFit_iff {points : Points α} :
    InputsFit nodes i points ↔ ∀ σ ∈ inputsBelow nodes i,
      points.own.length = σ.dimension ∧ points.swapped.length = σ.dimension := by
  constructor
  · rintro hin _ ⟨j, n, hij, hn, hv, rfl⟩
    exact hin j n hij hn hv
  · intro h j n hij hn hv
    exact h n.signature ⟨j, n, hij, hn, hv, rfl⟩

/-- Below a node that is no variable stand the variables below its operands. -/
theorem inputsBelow_eq (hn : nodes[i]? = some n) (hv : n.isVariable = false) :
    inputsBelow nodes i = { σ | ∃ k ∈ n.operands, σ ∈ inputsBelow nodes k } := by
  have hops : operandsAt nodes i = n.operands := by rw [operandsAt, hn]; rfl
  ext σ
  constructor
  · rintro ⟨j, m, hij, hm, hmv, rfl⟩
    rcases hij.eq_or_operand with rfl | ⟨k, hk, hkj⟩
    · obtain rfl := Option.some.inj (hn.symm.trans hm)
      rw [hv] at hmv
      cases hmv
    · exact ⟨k, hops ▸ hk, j, m, hkj, hm, hmv, rfl⟩
  · rintro ⟨k, hk, j, m, hkj, hm, hmv, rfl⟩
    exact ⟨j, m, .head (hops ▸ hk) hkj, hm, hmv, rfl⟩

/-- Below one of two related positions stand no other variables than below the other one. -/
theorem Corresponds.inputsBelow_subset {P : Node α → Node α → Prop} {R : Nat → Nat → Prop}
    {nodes' : List (Node α)} {k : Nat} (h : Corresponds P R nodes nodes')
    (hP : ∀ n m, P n m → m.isVariable = n.isVariable ∧ m.signature = n.signature) (hik : R i k) :
    inputsBelow nodes i ⊆ inputsBelow nodes' k := by
  rintro _ ⟨j, n, hij, hn, hv, rfl⟩
  obtain ⟨l, hjl, hkl⟩ := h.reaches hik hij
  obtain ⟨n', m, hn', hm, hnm, -⟩ := h j l hjl
  obtain rfl := Option.some.inj (hn.symm.trans hn')
  obtain ⟨hvariable, hsig⟩ := hP n m hnm
  exact ⟨l, m, hkl, hm, hvariable.trans hv, hsig⟩

end Inputs

/-! ## Views -/

/-- **What a node shows** to those that read it: its signature, those of the variables below it, and
its value at points that fit these. -/
structure View (α : Type) extends Signature α where
  inputs : Set (Signature α)
  value : Points α → List α

namespace View

/-- The points are as long as the variables. -/
def Fits (V : View α) (points : Points α) : Prop :=
  ∀ σ ∈ V.inputs, points.own.length = σ.dimension ∧ points.swapped.length = σ.dimension

/-- The values along both routes. -/
def both (V : View α) (points : Points α) : OperandValues α := ⟨V.value points, V.value points.flip⟩

variable {V W : View α} {points : Points α}

theorem Fits.flip (h : V.Fits points) : V.Fits points.flip := fun σ hσ => (h σ hσ).symm

@[simp] theorem both_own : (V.both points).own = V.value points := rfl

@[simp] theorem both_swapped : (V.both points).swapped = V.value points.flip := rfl

theorem both_flip : V.both points.flip = (V.both points).flip := rfl

/-- A number along either route. -/
theorem exists_numbers (h : (V.both points).Has 1) :
    ∃ a b, V.value points = [a] ∧ V.value points.flip = [b] := by
  obtain ⟨a, ha⟩ := List.length_eq_one_iff.1 h.1
  obtain ⟨b, hb⟩ := List.length_eq_one_iff.1 h.2
  exact ⟨a, b, ha, hb⟩

/-- Two views that **no reader can tell apart**. -/
structure Same (V W : View α) : Prop where
  dimension : V.dimension = W.dimension
  tag : V.tag = W.tag
  matrix? : V.matrix? = W.matrix?
  inputs : V.inputs = W.inputs
  value : ∀ points, V.Fits points → V.value points = W.value points

theorem Same.signature (h : V.Same W) : V.toSignature = W.toSignature :=
  calc V.toSignature = ⟨V.dimension, V.tag, V.matrix?⟩ := rfl
    _ = ⟨W.dimension, W.tag, W.matrix?⟩ := by rw [h.dimension, h.tag, h.matrix?]

variable [Scalar α]

/-- **What an operator shows**, given what its operands show. -/
def apply (s : Settings) (op : Op α) (dimension : Nat) (operands : List (View α)) : View α where
  dimension := dimension
  tag := op.tagFor s (operands.map View.toSignature)
  matrix? := none
  inputs := { σ | ∃ V ∈ operands, σ ∈ V.inputs }
  value points :=
    (op.combine (op.planFor (operands.map fun V => V.tag)) (operands.map (·.both points))
      dimension).getD []

section Apply

variable {s : Settings} {op : Op α} {d : Nat} {Vs : List (View α)}

/-- What holds of all variables below a node holds of those below its operands. -/
theorem forall_inputs_apply {p : Signature α → Prop} :
    (∀ σ ∈ (apply s op d Vs).inputs, p σ) ↔ ∀ V ∈ Vs, ∀ σ ∈ V.inputs, p σ :=
  ⟨fun h V hV σ hσ => h σ ⟨V, hV, hσ⟩, fun h σ ⟨V, hV, hσ⟩ => h V hV σ hσ⟩

theorem fits_apply : (apply s op d Vs).Fits points ↔ ∀ V ∈ Vs, V.Fits points := forall_inputs_apply

/-- What an operator computes is what is shown. -/
theorem value_apply {v : List α}
    (h : op.combine (op.planFor (Vs.map fun V => V.tag)) (Vs.map (·.both points)) d = some v) :
    (apply s op d Vs).value points = v := congrArg (Option.getD · []) h

/-- Elementwise arithmetic. -/
theorem value_arith {op : Arith} {m n : Nat} (hV : (V.both points).Has m)
    (hW : (W.both points).Has n) (hd : Broadcasts m n d) :
    (apply s (.arith op) d [V, W]).value points =
      (List.range d).map fun i =>
        op.combine (op.strategy V.tag W.tag) ((V.both points).componentAt i)
        ((W.both points).componentAt i) :=
  value_apply (Op.combine_arith hV hW hd)

/-- The inner product. -/
theorem value_dot {n : Nat} (hV : (V.both points).Has n) (hW : (W.both points).Has n) :
    (apply s .dot d [V, W]).value points = [Scalar.sum ((List.range n).map fun i =>
      Arith.mul.combine (Arith.mul.strategy V.tag W.tag) ((V.both points).componentAt i)
        ((W.both points).componentAt i))] :=
  value_apply (Op.combine_dot hV hW)

/-- Numbers packed into a vector. -/
theorem value_list (h : ∀ V ∈ Vs, (V.both points).Has 1) :
    (apply s .list d Vs).value points = Vs.map fun V => (V.value points).headD 0 := by
  have hcombine : Op.list.combine (.single .own) (Vs.map (·.both points)) d = _ :=
    Op.combine_list (List.forall_mem_map.2 h)
  rw [List.map_map] at hcombine
  exact value_apply hcombine

/-- Some components of a vector. -/
theorem value_slice {start : Nat} {n : Nat} (h : (V.both points).Has n) (hle : start + d ≤ n) :
    (apply s (.slice start) d [V]).value points = ((V.value points).drop start).take d :=
  value_apply (Op.combine_slice h hle : Op.combine _ (.single .own) _ _ = _)

theorem has_slice {start : Nat} {n : Nat} (h : (V.both points).Has n) (hle : start + d ≤ n) :
    ((apply s (.slice start) d [V]).both points).Has d := by
  have hlen : ∀ w : List α, w.length = n → ((w.drop start).take d).length = d := by
    intro w hw
    rw [List.length_take, List.length_drop]
    omega
  have hown : (apply s (.slice start) d [V]).value points = _ := value_slice h hle
  have hswapped : (apply s (.slice start) d [V]).value points.flip = _ := value_slice h.symm hle
  constructor
  · rw [both_own, hown]
    exact hlen _ h.1
  · rw [both_swapped, hswapped]
    exact hlen _ h.2

end Apply

end View

/-! ## The view of a node -/

variable [Scalar α]

/-- The node at a position **shows a view**. -/
structure Shows (nodes : List (Node α)) (i : Nat) (V : View α) : Prop where
  signature : signatureAt nodes i = some V.toSignature
  inputs : inputsBelow nodes i = V.inputs
  value : ∀ points, V.Fits points → denote nodes i points = V.value points

/-- Every node shows something. -/
theorem exists_shows {nodes : List (Node α)} {i : Nat} {n : Node α} (hn : nodes[i]? = some n) :
    ∃ V : View α, Shows nodes i V ∧ V.toSignature = n.signature := by
  refine ⟨{ n.signature with inputs := inputsBelow nodes i, value := denote nodes i },
    ⟨?_, rfl, ?_⟩, rfl⟩
  · rw [signatureAt, hn]
    rfl
  · exact fun points _ => rfl

namespace Shows

variable {s : Settings} {nodes : List (Node α)} {i : Nat} {V W : View α} {points : Points α}

theorem fits_iff (h : Shows nodes i V) : InputsFit nodes i points ↔ V.Fits points := by
  rw [inputsFit_iff, h.inputs]
  rfl

theorem denoteBoth_eq (h : Shows nodes i V) (hfits : V.Fits points) :
    denoteBoth nodes points i = V.both points := by
  rw [denoteBoth, h.value points hfits, h.value points.flip hfits.flip]
  rfl

/-- The node has what is shown of it. -/
theorem signature_eq (h : Shows nodes i V) {n : Node α} (hn : nodes[i]? = some n) :
    n.signature = V.toSignature := by
  have hsig := h.signature
  rw [signatureAt, hn] at hsig
  exact Option.some.inj hsig

/-- The values have the dimension of the node. -/
theorem has (h : Shows nodes i V) (hok : NodesOK s nodes) (hfits : V.Fits points) :
    (V.both points).Has V.dimension := by
  obtain ⟨n, hn, hsig⟩ := Option.map_eq_some_iff.1 h.signature
  have hdim : n.dimension = V.dimension := congrArg Signature.dimension hsig
  rw [← h.denoteBoth_eq hfits, ← hdim]
  exact has_denoteBoth hok hn (h.fits_iff.2 hfits)

/-- A vector has a component. -/
theorem dimension_pos (h : Shows nodes i V) (hok : NodesOK s nodes) (hvec : V.IsVector) :
    0 < V.dimension := by
  obtain ⟨n, hn, hsig⟩ := Option.map_eq_some_iff.1 h.signature
  have hdim : n.dimension = V.dimension := congrArg Signature.dimension hsig
  rw [← hdim]
  exact hok.dimension_pos hn ((congrArg Signature.matrix? hsig).trans hvec)

theorem congr (h : Shows nodes i V) (hVW : V.Same W) : Shows nodes i W := by
  refine ⟨hVW.signature ▸ h.signature, h.inputs.trans hVW.inputs, fun points hfits => ?_⟩
  have hV : V.Fits points := by rwa [View.Fits, hVW.inputs]
  rw [h.value points hV, hVW.value points hV]

/-- **Nodes added later change nothing.** -/
theorem append (h : Shows nodes i V) {n : Node α} (hok : NodesOK s nodes)
    (hn : NodeOK s nodes nodes.length n) : Shows (nodes ++ [n]) i V := by
  have hlt := hok.operands_lt
  have hlt' := (hok.append hn).operands_lt
  obtain ⟨m, hm, -⟩ := Option.map_eq_some_iff.1 h.signature
  have hi : i < nodes.length := (List.getElem?_eq_some_iff.1 hm).1
  have hsame := corresponds_append hlt [n]
  refine ⟨?_, ?_, fun points hfits => ?_⟩
  · rw [signatureAt_append nodes n hi, h.signature]
  · rw [← h.inputs]
    apply Set.Subset.antisymm
    · exact hsame.flip.inputsBelow_subset (by rintro m _ rfl; exact ⟨rfl, rfl⟩) ⟨rfl, hi⟩
    · exact hsame.inputsBelow_subset (by rintro m _ rfl; exact ⟨rfl, rfl⟩) ⟨rfl, hi⟩
  · rw [← h.value points hfits]
    exact congrFun (byOperands_append hlt [n] hlt' hi _ _) points

end Shows

/-- **A function node shows what its operator makes of its operands.** The plan and the tag are
those of the tables. -/
theorem shows_function {s : Settings} {nodes : List (Node α)} (hok : NodesOK s nodes) {i : Nat}
    {n : Node α} {f : Application α} (hn : nodes[i]? = some n) (hf : n.kind = .function f)
    {Vs : List (View α)} (hVs : List.Forall₂ (Shows nodes) f.operands Vs) :
    Shows nodes i (View.apply s f.op n.dimension Vs) := by
  obtain ⟨hlt, σs, hσs, hfits, -⟩ := hok.application hn hf
  have hops : n.operands = f.operands := by rw [Node.operands, hf]; rfl
  have hvariable : n.isVariable = false := by rw [Node.isVariable, hf]
  -- the signatures that the tables read are those that the operands show
  have hσ : σs = Vs.map View.toSignature := by
    have hleft : f.operands.map (signatureAt nodes) = σs.map some :=
      map_eq_of_forall₂ hσs fun _ _ h => h
    have hright : f.operands.map (signatureAt nodes) = Vs.map (some ∘ View.toSignature) :=
      map_eq_of_forall₂ hVs fun _ _ h => h.signature
    rw [hleft, ← List.map_map] at hright
    exact List.map_injective_iff.2 (Option.some_injective _) hright
  have hinputs : inputsBelow nodes i = (View.apply s f.op n.dimension Vs).inputs := by
    rw [inputsBelow_eq hn hvariable, hops]
    ext τ
    constructor
    · rintro ⟨k, hk, hτ⟩
      obtain ⟨V, hV, hkV⟩ := forall₂_mem_left hVs hk
      exact ⟨V, hV, hkV.inputs ▸ hτ⟩
    · rintro ⟨V, hV, hτ⟩
      obtain ⟨k, hk, hkV⟩ := forall₂_mem_left hVs.flip hV
      exact ⟨k, hk, hkV.inputs.symm ▸ hτ⟩
  refine ⟨?_, hinputs, fun points hpoints => ?_⟩
  · have htag : n.tag = f.op.tagFor s (Vs.map View.toSignature) := hσ ▸ hfits.tag_eq
    have hmatrix : n.matrix? = none := by rw [Node.matrix?, hf]; rfl
    rw [signatureAt, hn, Option.map_some, Node.signature, htag, hmatrix]
    rfl
  · have hplan : f.plan = f.op.planFor (Vs.map fun V => V.tag) := by
      rw [hfits.plan_eq, hσ, List.map_map]
      rfl
    have hvalues : f.operands.map (denoteBoth nodes points) = Vs.map (·.both points) := by
      refine map_eq_of_forall₂ ((List.forall₂_and_left (p := (· ∈ f.operands)) _ _).2
        ⟨fun _ hk => hk, hVs⟩) ?_
      rintro k V ⟨hk, hkV⟩
      have hin : InputsFit nodes i points := by
        rw [inputsFit_iff, hinputs]
        exact hpoints
      exact hkV.denoteBoth_eq (hkV.fits_iff.1 (hin.operand (mem_operandsAt hn hf hk)))
    rw [denote_function hn hf hlt, hplan, hvalues]
    rfl

end MixedMonotone
