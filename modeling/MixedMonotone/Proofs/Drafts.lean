import Mathlib
import MixedMonotone.Graph.Function
import MixedMonotone.Graph.Leaf
import MixedMonotone.Proofs.WellFormed

/-!
# Drafts fit

A draft is worked out from a graph, and checked against the nodes that are there.

* `Node.dueReports`: the reports that a node calls for.
* `DraftOK`: a draft that fits the nodes of a graph and carries the reports due for it.
* `draftOK_function`: a function node that follows the tables fits.
* `FitsGraph`: **what is worked out from a well-formed graph fits it**, one lemma per kind of node.
-/

namespace MixedMonotone

variable {α : Type}

/-! ## Operands -/

theorem Arena.find_eq_ok {a : Arena α} {id : NodeId} {o : Operand α} (h : a.find id = .ok o) :
    a.position? id = some o.position ∧ a.nodes[o.position]? = some o.node := by
  obtain ⟨i, hi, h⟩ := bind_eq_ok.1 h
  unfold position at hi
  cases hpos : a.position? id with
  | none => simp [hpos] at hi
  | some j =>
    rw [hpos] at hi
    obtain rfl := Except.ok.inj hi
    cases hn : a.nodes[j]? with
    | none => simp [hn] at h
    | some n =>
      rw [hn] at h
      obtain rfl := Except.ok.inj h
      exact ⟨rfl, hn⟩

theorem Arena.operand_eq_ok {a : Arena α} {id : NodeId} {o : Operand α} (h : a.operand id = .ok o) :
    a.find id = .ok o ∧ o.node.matrix? = none := by
  obtain ⟨o', ho', h⟩ := bind_eq_ok.1 h
  split at h
  · cases h
  · rename_i hmat
    obtain rfl := Except.ok.inj h
    exact ⟨ho', by simpa [Node.isMatrix] using hmat⟩

/-- The operand is the node at its position. -/
def Operand.IsAt (o : Operand α) (nodes : List (Node α)) : Prop := nodes[o.position]? = some o.node

theorem Graph.operand_spec {g : Graph α} {id : NodeId} {o : Operand α}
    (h : g.arena.operand id = .ok o) : o.IsAt g.nodes ∧ o.node.signature.IsVector := by
  obtain ⟨hfind, hmat⟩ := Arena.operand_eq_ok h
  exact ⟨(Arena.find_eq_ok hfind).2, hmat⟩

theorem broadcast_eq_ok {site : Site} {l r d : Nat} (h : broadcast (α := α) site l r = .ok d) :
    Broadcasts l r d := by
  unfold broadcast at h
  unfold Broadcasts
  split at h
  · obtain rfl := Except.ok.inj h
    omega
  · split at h
    · obtain rfl := Except.ok.inj h
      omega
    · cases h

/-- A range is accepted by its end as computed. -/
theorem checkRange_eq_ok_iff {start length d : Nat} {arithmetic : Arithmetic} :
    checkRange (α := α) start length d arithmetic = .ok () ↔
      ∃ stop, arithmetic.word (start + length) = some stop ∧ 0 < length ∧ stop ≤ d := by
  unfold checkRange
  cases arithmetic.word (start + length) with
  | none => simp
  | some stop =>
    dsimp only
    split
    · simp only [reduceCtorEq, Option.some.injEq, exists_eq_left', false_iff]
      omega
    · simp only [Option.some.injEq, exists_eq_left', true_iff]
      omega

/-- **In checked arithmetic an accepted range lies within the vector.** -/
theorem checkRange_checked {start length d : Nat} :
    checkRange (α := α) start length d .checked = .ok () ↔
      0 < length ∧ start + length ≤ d ∧ start + length < wordSize := by
  rw [checkRange_eq_ok_iff]
  by_cases h : start + length < wordSize
  · simp [Arithmetic.word_of_lt h, h]
  · simp [Arithmetic.word, h]

/-! ## Reports -/

/-- The report due for an inner product of mixed signs that is tagged nonnegative. -/
def Settings.dotReports (s : Settings) (left right : Tag) : List Event :=
  if left.mul right = .nonpos ∧ s.dotSign = .nonnegative then [.mixedDotTagged left right] else []

theorem Graph.dotTag_eq (g : Graph α) (l r : Tag) :
    g.dotTag l r = (g.settings.dotTag l r, g.settings.dotReports l r) := by
  unfold dotTag Settings.dotTag Settings.dotReports
  split <;> rfl

variable [Scalar α]

/-- The report due for a constant on which the two tagging rules disagree. -/
def Settings.signReports (s : Settings) (values : List α) : List Event :=
  let reduced := Tag.ofValues values .reduced
  let last := Tag.ofValues values .lastComponent
  if reduced = last then [] else [.signRulesDisagree reduced last s.parameterSign]

/-- **The reports that a node calls for.** -/
def Node.dueReports (s : Settings) (nodes : List (Node α)) (n : Node α) : List Event :=
  match n.kind with
  | .parameter => s.signReports n.value
  | .matrixParameter m => s.signReports m.values
  | .variable _ => []
  | .function f =>
    match f.op, f.operands.map (signatureAt nodes) with
    | .dot, [some l, some r] => s.dotReports l.tag r.tag
    | _, _ => []

theorem Node.dueReports_blank (s : Settings) {nodes nodes' : List (Node α)} (h : Alike nodes nodes')
    (n : Node α) : n.blank.dueReports s nodes' = n.dueReports s nodes := by
  unfold Node.dueReports
  rw [← signatureAt_alike h]
  unfold Node.blank
  cases n.kind <;> rfl

/-! ## Drafts -/

/-- A draft **fits the nodes** of a graph and carries exactly the reports due for it, under whatever
handle it is added. -/
structure DraftOK (s : Settings) (nodes : List (Node α)) (d : Draft α) : Prop where
  node : ∀ id, NodeOK s nodes nodes.length ⟨id, d.tag, d.kind, d.value⟩
  notices : ∀ id, Node.dueReports s nodes ⟨id, d.tag, d.kind, d.value⟩ = d.notices

namespace Op

/-- A function node has a component. -/
theorem Fits.dimension_pos {s : Settings} {op : Op α} {plan : Plan} {σs : List (Signature α)}
    {d : Nat} {t : Tag} (h : op.Fits s plan σs d t)
    (hpos : ∀ σ ∈ σs, σ.IsVector → 0 < σ.dimension) :
    0 < d := by
  cases h with
  | arith hl hr hd =>
    have hl := hpos _ (by simp) hl
    have hr := hpos _ (by simp) hr
    unfold Broadcasts at hd
    omega
  | dot | sum | prod => exact Nat.one_pos
  | @matvec _ _ m => exact m.rows_pos
  | log2 ho | ln ho | neg ho | reciprocal ho => exact hpos _ (by simp) ho
  | list hne => exact List.length_pos_iff.2 hne
  | slice _ hlen => exact hlen

end Op

section Drafts

variable {s : Settings} {nodes : List (Node α)} (hok : NodesOK s nodes)

include hok

/-- **A function node** that follows the tables fits. Only an inner product calls for a report. -/
theorem draftOK_function {op : Op α} {plan : Plan} {os : List (Operand α)} {d : Nat} {t : Tag}
    {notices : List Event} (hos : ∀ o ∈ os, o.IsAt nodes)
    (hfits : op.Fits s plan (os.map (·.node.signature)) d t)
    (hnotices : (op ≠ .dot ∧ notices = []) ∨
      ∃ l r, op = .dot ∧ os.map (·.node.signature) = [l, r] ∧ notices = s.dotReports l.tag r.tag) :
    DraftOK s nodes { Draft.function op plan os d t with notices } := by
  have hdim : 0 < d := by
    refine hfits.dimension_pos fun σ hσ hvec => ?_
    obtain ⟨o, ho, rfl⟩ := List.mem_map.1 hσ
    exact hok.dimension_pos (hos o ho) hvec
  have hsig : ∀ o ∈ os, signatureAt nodes o.position = some o.node.signature := fun o ho => by
    rw [signatureAt, hos o ho, Option.map_some]
  refine ⟨fun id => ?_, fun id => ?_⟩
  · simp only [NodeOK, Draft.function, Node.dimension, List.length_replicate]
    refine ⟨hdim, ?_, os.map (·.node.signature), ?_, hfits, ?_⟩
    · intro k hk
      obtain ⟨o, ho, rfl⟩ := List.mem_map.1 hk
      exact (List.getElem?_eq_some_iff.1 (hos o ho)).1
    · rw [List.forall₂_map_left_iff, List.forall₂_map_right_iff, List.forall₂_same]
      exact hsig
    · rw [HaveSizes, List.forall₂_map_left_iff, List.forall₂_map_right_iff, List.forall₂_same]
      exact fun o _ => ⟨List.length_replicate, List.length_replicate⟩
  · have htags : (os.map (·.position)).map (signatureAt nodes) =
        (os.map (·.node.signature)).map some := by
      rw [List.map_map, List.map_map]
      exact List.map_congr_left hsig
    simp only [Node.dueReports, Draft.function, htags]
    rcases hnotices with ⟨hop, rfl⟩ | ⟨l, r, rfl, hlr, rfl⟩
    · split
      · exact absurd rfl hop
      · rfl
    · rw [hlr]
      rfl

/-- A function node that is no inner product. -/
theorem draftOK_silent {op : Op α} {plan : Plan} {os : List (Operand α)} {d : Nat} {t : Tag}
    (hos : ∀ o ∈ os, o.IsAt nodes) (hfits : op.Fits s plan (os.map (·.node.signature)) d t)
    (hop : op ≠ .dot) : DraftOK s nodes (Draft.function op plan os d t) :=
  draftOK_function (d := d) hok hos hfits (.inl ⟨hop, rfl⟩)

end Drafts

/-- What is worked out from a well-formed graph **fits** it. -/
def FitsGraph (draft : Graph α → Except (Error α) (Draft α)) : Prop :=
  ∀ g d, NodesOK g.settings g.nodes → draft g = .ok d → DraftOK g.settings g.nodes d

namespace Graph

theorem fits_draftArith (op : Arith) (a b : NodeId) : FitsGraph (α := α) (draftArith op a b) := by
  intro g d hok h
  obtain ⟨l, hl, h⟩ := bind_eq_ok.1 h
  obtain ⟨r, hr, h⟩ := bind_eq_ok.1 h
  obtain ⟨n, hn, h⟩ := bind_eq_ok.1 h
  obtain rfl := Except.ok.inj h
  obtain ⟨hlat, hlvec⟩ := operand_spec hl
  obtain ⟨hrat, hrvec⟩ := operand_spec hr
  exact draftOK_silent hok (by simp [hlat, hrat]) (.arith hlvec hrvec (broadcast_eq_ok hn))
    (by simp)

theorem fits_draftDot (a b : NodeId) : FitsGraph (α := α) (draftDot a b) := by
  intro g d hok h
  obtain ⟨l, hl, h⟩ := bind_eq_ok.1 h
  obtain ⟨r, hr, h⟩ := bind_eq_ok.1 h
  split at h
  · cases h
  · rename_i hd
    rw [dotTag_eq] at h
    obtain rfl := Except.ok.inj h
    obtain ⟨hlat, hlvec⟩ := operand_spec hl
    obtain ⟨hrat, hrvec⟩ := operand_spec hr
    have hplan := Op.Fits.dot (s := g.settings) hlvec hrvec (not_not.1 hd)
    exact draftOK_function hok (by simp [hlat, hrat]) hplan (.inr ⟨_, _, rfl, rfl, rfl⟩)

theorem fits_draftMatvec (a b : NodeId) : FitsGraph (α := α) (draftMatvec a b) := by
  intro g d hok h
  obtain ⟨l, hl, h⟩ := bind_eq_ok.1 h
  obtain ⟨r, hr, h⟩ := bind_eq_ok.1 h
  obtain ⟨hrat, hrvec⟩ := operand_spec hr
  have hlat : l.IsAt g.nodes := (Arena.find_eq_ok hl).2
  cases hm : l.node.matrix? with
  | none => simp [hm] at h
  | some m =>
    rw [hm] at h
    dsimp only at h
    split at h
    · cases h
    · rename_i hd
      obtain rfl := Except.ok.inj h
      have hlm : l.node.signature.matrix? = some m := hm
      exact draftOK_silent hok (by simp [hlat, hrat]) (.matvec hlm hrvec (not_not.1 hd)) (by simp)

/-- A draft with one operand. -/
theorem fits_single {a : NodeId} {draft : Operand α → Except (Error α) (Draft α)}
    (h : ∀ (g : Graph α) o d, NodesOK g.settings g.nodes → o.IsAt g.nodes →
      o.node.signature.IsVector → draft o = .ok d → DraftOK g.settings g.nodes d) :
    FitsGraph fun g => g.arena.operand a >>= draft := by
  intro g d hok hd
  obtain ⟨o, ho, hd⟩ := bind_eq_ok.1 hd
  obtain ⟨hat, hvec⟩ := operand_spec ho
  exact h g o d hok hat hvec hd

theorem fits_draftUnary {op : Op α} {route : Route} {tag : Tag → Tag} (a : NodeId) (hop : op ≠ .dot)
    (hfits : ∀ (s : Settings) (σ : Signature α), σ.IsVector →
      op.Fits s (.single route) [σ] σ.dimension (tag σ.tag)) :
    FitsGraph (draftUnary op route tag a) := by
  refine fits_single (α := α) fun g o d hok hat hvec h => ?_
  obtain rfl := Except.ok.inj h
  exact draftOK_silent hok (by simp [hat]) (hfits _ _ hvec) hop

theorem fits_draftSum (a : NodeId) : FitsGraph (α := α) (draftSum a) := by
  refine fits_single (α := α) fun g o d hok hat hvec h => ?_
  obtain rfl := Except.ok.inj h
  exact draftOK_silent hok (by simp [hat]) (.sum hvec) (by simp)

theorem fits_draftProd (a : NodeId) : FitsGraph (α := α) (draftProd a) := by
  refine fits_single (α := α) fun g o d hok hat hvec h => ?_
  obtain rfl := Except.ok.inj h
  exact draftOK_silent hok (by simp [hat]) (.prod hvec) (by simp)

theorem fits_draftSlice (a : NodeId) (start length : Nat) :
    FitsGraph (α := α) (draftSlice a start length .checked) := by
  refine fits_single (α := α) fun g o d hok hat hvec h => ?_
  obtain ⟨⟨⟩, hrange, h⟩ := bind_eq_ok.1 h
  obtain rfl := Except.ok.inj h
  obtain ⟨hpos, hle, -⟩ := checkRange_checked.1 hrange
  exact draftOK_silent hok (by simp [hat]) (.slice hvec hpos hle) (by simp)

theorem fits_draftList (items : List NodeId) : FitsGraph (α := α) (draftList items) := by
  intro g d hok h
  unfold draftList at h
  split at h
  · cases h
  · rename_i hne
    obtain ⟨os, hos, h⟩ := bind_eq_ok.1 h
    obtain rfl := Except.ok.inj h
    have hitems := mapM_eq_ok hos
    have hall : ∀ o ∈ os, o.IsAt g.nodes ∧ o.node.signature.IsVector ∧ o.node.dimension = 1 := by
      intro o ho
      obtain ⟨id, -, hid⟩ := forall₂_mem_left hitems.flip ho
      obtain ⟨o', ho', hid⟩ := bind_eq_ok.1 hid
      split at hid
      · rename_i hone
        obtain rfl := Except.ok.inj hid
        obtain ⟨hat, hvec⟩ := operand_spec ho'
        exact ⟨hat, hvec, hone⟩
      · cases hid
    have hnonempty : os ≠ [] := by
      rintro rfl
      exact hne (List.isEmpty_iff.2 (List.length_eq_zero_iff.1 hitems.length_eq))
    have hfits : Op.Fits g.settings .list (.single .own) (os.map (·.node.signature))
        (os.map (·.node.signature)).length
        (Tag.list ((os.map (·.node.signature)).map Signature.tag)) :=
      .list (by simpa using hnonempty) (by simpa [Node.signature] using fun o ho => (hall o ho).2)
    rw [List.length_map, List.map_map] at hfits
    exact draftOK_silent hok (fun o ho => (hall o ho).1) hfits (by simp)

end Graph

/-! ## Leaves -/

/-- A sound declaration has a component, and its box has that dimension and corners in order. -/
theorem VariableSpec.check_eq_ok {v : VariableSpec α} (h : v.check = .ok ()) :
    0 < v.dimension ∧ ∀ box, v.bounds = some box → box.Sound v.dimension := by
  unfold check at h
  split at h
  · cases h
  · rename_i hdim
    refine ⟨by omega, fun box hbox => ?_⟩
    rw [hbox] at h
    dsimp only at h
    split at h
    · cases h
    · rename_i hlen
      have hlower := v.dimension_eq box hbox
      cases hrev : reversed? box with
      | some c => rw [hrev] at h; cases h
      | none =>
        refine ⟨hlower.symm, by omega, List.forall₂_iff_zip.2 ⟨by omega, fun {l u} hlu => ?_⟩⟩
        -- a pair out of order would have been found
        obtain ⟨j, hj⟩ := List.mem_iff_getElem?.1 hlu
        have hfind := List.find?_eq_none.1 hrev ((l, u), j) (List.mk_mem_zipIdx_iff_getElem?.2 hj)
        simpa using hfind

theorem VariableSpec.fits_draft (v : VariableSpec α) : FitsGraph fun _ => v.draft := by
  intro g d _ h
  obtain ⟨⟨⟩, hcheck, h⟩ := bind_eq_ok.1 h
  obtain rfl := Except.ok.inj h
  obtain ⟨hdim, hbox⟩ := VariableSpec.check_eq_ok hcheck
  refine ⟨fun id => ?_, fun id => by simp [Node.dueReports]⟩
  simpa [NodeOK, Node.dimension] using ⟨hdim, hbox⟩

namespace Graph

theorem draftOK_parameter (g : Graph α) {values : List α} (hne : values ≠ []) :
    DraftOK g.settings g.nodes (g.draftParameter values) :=
  ⟨fun _ => ⟨List.length_pos_iff.2 hne, rfl⟩, fun _ => rfl⟩

theorem fits_draftMatrix (m : Matrix α) : FitsGraph fun g => .ok (g.draftMatrix m) := by
  intro g d _ h
  obtain rfl := Except.ok.inj h
  exact ⟨fun _ => ⟨rfl, rfl⟩, fun _ => rfl⟩

end Graph

end MixedMonotone
