import Mathlib
import MixedMonotone.Proofs.Atomicity

/-!
# Ledgers

A ledger is a log that accounts for the nodes of a graph: every node has been reported when it was
added, **with what is odd about it right before**.

* `Event.created?`, `Node.constant?`, `Node.IsDotOf`: what the reports are about.
* `Ledger`: a log that accounts for some nodes, one after the other.
* `Ledger.creations`, `Ledger.reports`, `Ledger.announced`: its creations are the nodes; what else
  it holds; what it must hold.
* `Graph.Replays`: what the log of a graph tells; `Graph.Ledger.replays`: **a ledger tells it**.
-/

namespace MixedMonotone

variable {α : Type}

/-! ## What reports are about -/

/-- What a report of a creation tells: handle, name, dimension and tag. -/
def Event.created? : Event → Option (NodeId × String × Nat × Tag)
  | nodeCreated id name dimension tag => some (id, name, dimension, tag)
  | _ => none

/-- The values that the tagging rules read, those of a constant vector or matrix. -/
def Node.constant? (n : Node α) : Option (List α) :=
  match n.kind with
  | .parameter => some n.value
  | .matrixParameter m => some m.values
  | _ => none

/-- The node is the inner product of the nodes `l` and `r`. -/
def Node.IsDotOf (nodes : List (Node α)) (n l r : Node α) : Prop :=
  ∃ f i j, n.kind = .function f ∧ f.op = .dot ∧ f.operands = [i, j] ∧ nodes[i]? = some l ∧
    nodes[j]? = some r

/-- A node is reported under its handle. -/
theorem Node.created?_creation (n : Node α) :
    n.creation.created? = some (n.id, n.name, n.dimension, n.tag) := rfl

theorem Event.eq_creation {e : Event} {n : Node α}
    (h : e.created? = some (n.id, n.name, n.dimension, n.tag)) : e = n.creation := by
  cases e with
  | nodeCreated id name dimension tag =>
    cases h
    rfl
  | _ => cases h

theorem Settings.mem_dotReports {s : Settings} {l r : Tag} {e : Event} :
    e ∈ s.dotReports l r ↔
      ((l = .nonneg ∧ r = .nonpos) ∨ (l = .nonpos ∧ r = .nonneg)) ∧ s.dotSign = .nonnegative ∧
        e = .mixedDotTagged l r := by
  have hmixed : l.mul r = .nonpos ↔ (l = .nonneg ∧ r = .nonpos) ∨ (l = .nonpos ∧ r = .nonneg) := by
    cases l <;> cases r <;> simp [Tag.mul]
  unfold dotReports
  rw [← hmixed]
  by_cases h : l.mul r = .nonpos ∧ s.dotSign = .nonnegative
  · rw [if_pos h]
    simp [h]
  · rw [if_neg h]
    simp only [List.not_mem_nil, false_iff]
    rintro ⟨hmul, hsign, -⟩
    exact h ⟨hmul, hsign⟩

variable [Scalar α]

theorem Settings.mem_signReports {s : Settings} {values : List α} {e : Event} :
    e ∈ s.signReports values ↔ Tag.ofValues values .reduced ≠ Tag.ofValues values .lastComponent ∧
      e = .signRulesDisagree (Tag.ofValues values .reduced) (Tag.ofValues values .lastComponent)
        s.parameterSign := by
  unfold signReports
  by_cases h : Tag.ofValues values .reduced = Tag.ofValues values .lastComponent
  · simp [h]
  · simp [h]

namespace Node

variable {s : Settings} {nodes : List (Node α)} {n : Node α}

theorem dueReports_constant {values : List α} (h : n.constant? = some values) :
    n.dueReports s nodes = s.signReports values := by
  unfold constant? at h
  unfold dueReports
  cases hkind : n.kind <;> rw [hkind] at h <;> cases h <;> rfl

theorem dueReports_dot {l r : Node α} (h : n.IsDotOf nodes l r) :
    n.dueReports s nodes = s.dotReports l.tag r.tag := by
  obtain ⟨f, i, j, hkind, hop, hoperands, hl, hr⟩ := h
  unfold dueReports
  rw [hkind]
  simp [hop, hoperands, signatureAt, hl, hr, signature]

/-- Only constants and inner products call for a report. -/
theorem dueReports_cases (s : Settings) (nodes : List (Node α)) (n : Node α) :
    n.dueReports s nodes = [] ∨ (∃ values, n.constant? = some values) ∨
      ∃ l r, n.IsDotOf nodes l r := by
  cases hkind : n.kind with
  | parameter => exact .inr (.inl ⟨n.value, by rw [constant?, hkind]⟩)
  | matrixParameter m => exact .inr (.inl ⟨m.values, by rw [constant?, hkind]⟩)
  | «variable» bounds => exact .inl (by rw [dueReports, hkind])
  | function f =>
    unfold dueReports
    rw [hkind]
    dsimp only
    split
    · rename_i σ τ hop hsignatures
      obtain ⟨i, is, hoperands, hi, hrest⟩ := List.map_eq_cons_iff.1 hsignatures
      obtain ⟨j, js, rfl, hj, hnil⟩ := List.map_eq_cons_iff.1 hrest
      obtain rfl := List.map_eq_nil_iff.1 hnil
      obtain ⟨l, hl, -⟩ := Option.map_eq_some_iff.1 hi
      obtain ⟨r, hr, -⟩ := Option.map_eq_some_iff.1 hj
      exact .inr (.inr ⟨l, r, f, i, j, hkind, hop, hoperands, hl, hr⟩)
    · exact .inl rfl

/-- **What a node calls for**: what its constant does, or what its two operands do. -/
theorem mem_dueReports {e : Event} : e ∈ n.dueReports s nodes ↔
    (∃ values, n.constant? = some values ∧ e ∈ s.signReports values) ∨
      ∃ l r, n.IsDotOf nodes l r ∧ e ∈ s.dotReports l.tag r.tag := by
  constructor
  · intro he
    rcases dueReports_cases s nodes n with hnone | ⟨values, hvalues⟩ | ⟨l, r, hdot⟩
    · rw [hnone] at he
      cases he
    · rw [dueReports_constant hvalues] at he
      exact .inl ⟨values, hvalues, he⟩
    · rw [dueReports_dot hdot] at he
      exact .inr ⟨l, r, hdot, he⟩
  · rintro (⟨values, hvalues, he⟩ | ⟨l, r, hdot, he⟩)
    · rwa [dueReports_constant hvalues]
    · rwa [dueReports_dot hdot]

/-- A node calls for one report at most. -/
theorem dueReports_le_one (s : Settings) (nodes : List (Node α)) (n : Node α) :
    n.dueReports s nodes = [] ∨ ∃ e, n.dueReports s nodes = [e] := by
  rcases dueReports_cases s nodes n with h | ⟨values, h⟩ | ⟨l, r, h⟩
  · exact .inl h
  · rw [dueReports_constant h]
    unfold Settings.signReports
    dsimp only
    split
    · exact .inl rfl
    · exact .inr ⟨_, rfl⟩
  · rw [dueReports_dot h]
    unfold Settings.dotReports
    split
    · exact .inr ⟨_, rfl⟩
    · exact .inl rfl

theorem creation_blank (n : Node α) : n.blank.creation = n.creation := by
  simp [creation]

end Node

/-! ## Logs that account for nodes -/

/-- A log that **accounts for the nodes**, one after the other: what a node calls for, and right
then its creation. Programs may have been reported at any time between two nodes. -/
inductive Ledger (s : Settings) : List (Node α) → List Event → Prop
  | nil : Ledger s [] []
  | node {nodes : List (Node α)} {log : List Event} {n : Node α} (h : Ledger s nodes log)
      (hn : NodeOK s nodes nodes.length n) :
      Ledger s (nodes ++ [n]) (log ++ (n.dueReports s nodes ++ [n.creation]))
  | program {nodes : List (Node α)} {log : List Event} (h : Ledger s nodes log)
      (kept all constraints : Nat) (inputDimension : Option Nat) :
      Ledger s nodes (log ++ [.programCompiled kept all constraints inputDimension])

namespace Ledger

variable {s : Settings} {nodes : List (Node α)} {log : List Event}

theorem nodesOK (h : Ledger s nodes log) : NodesOK s nodes := by
  induction h with
  | nil => simp [NodesOK]
  | node _ hn ih => exact ih.append hn
  | program _ _ _ _ _ ih => exact ih

/-- What evaluations leave makes no difference. -/
theorem alike (h : Ledger s nodes log) {nodes' : List (Node α)} (halike : Alike nodes nodes') :
    Ledger s nodes' log := by
  induction h generalizing nodes' with
  | nil =>
    obtain rfl := List.map_eq_nil_iff.1 (Eq.symm halike)
    exact .nil
  | @node nodes log n _ hn ih =>
    unfold Alike at halike
    rw [List.map_append] at halike
    obtain ⟨old, new, rfl, hold, hnew⟩ := List.map_eq_append_iff.1 halike.symm
    obtain ⟨n', rfl, hblank⟩ := List.map_eq_singleton_iff.1 hnew
    have hold : Alike nodes old := hold.symm
    have hdue : n.dueReports s nodes = n'.dueReports s old := by
      rw [← Node.dueReports_blank s hold, ← hblank, Node.dueReports_blank s (.refl old)]
    have hcreation : n.creation = n'.creation := Node.eq_of_blank Node.creation_blank hblank.symm
    rw [hdue, hcreation]
    exact .node (ih hold) (hold.length_eq ▸ nodeOK_alike hold hblank.symm hn)
  | program _ _ _ _ _ ih => exact .program (ih halike) _ _ _ _

/-- **The creations are the nodes**, in order. -/
theorem creations (h : Ledger s nodes log) :
    log.filterMap Event.created? = nodes.map fun n => (n.id, n.name, n.dimension, n.tag) := by
  induction h with
  | nil => rfl
  | @node nodes log n _ _ ih =>
    have hdue : (n.dueReports s nodes).filterMap Event.created? = [] := by
      rw [List.filterMap_eq_nil_iff]
      intro e he
      rcases Node.mem_dueReports.1 he with ⟨values, -, he⟩ | ⟨l, r, -, he⟩
      · rw [(Settings.mem_signReports.1 he).2]
        rfl
      · rw [(Settings.mem_dotReports.1 he).2.2]
        rfl
    rw [List.filterMap_append, List.filterMap_append, ih, hdue, List.map_append]
    rfl
  | program _ _ _ _ _ ih =>
    rw [List.filterMap_append, ih]
    exact List.append_nil _

/-- **Every report is about a program, or creates a node, or precedes the creation of one
that calls for it.** -/
theorem reports (h : Ledger s nodes log) {k : Nat} {e : Event} (he : log[k]? = some e) :
    (∃ kept all constraints d, e = .programCompiled kept all constraints d) ∨
      (∃ n ∈ nodes, e = n.creation) ∨
      ∃ n ∈ nodes, e ∈ n.dueReports s nodes ∧ log[k + 1]? = some n.creation := by
  induction h with
  | nil => cases he
  | @node nodes log n hledger hn ih =>
    rcases lt_or_ge k log.length with hk | hk
    · rw [List.getElem?_append_left hk] at he
      rcases ih he with h | ⟨m, hm, rfl⟩ | ⟨m, hm, hdue, hnext⟩
      · exact .inl h
      · exact .inr (.inl ⟨m, List.mem_append_left _ hm, rfl⟩)
      · obtain ⟨i, hi⟩ := List.mem_iff_getElem?.1 hm
        have hle := (List.getElem?_eq_some_iff.1 hi).1.le
        refine .inr (.inr ⟨m, List.mem_append_left _ hm, ?_, getElem?_append_of_eq_some hnext _⟩)
        rwa [Node.dueReports_append (hledger.nodesOK i m hi) hle]
    · have hself : n ∈ nodes ++ [n] := List.mem_append_right _ (List.mem_singleton_self n)
      have hsame := Node.dueReports_append hn le_rfl n
      obtain ⟨j, rfl⟩ := Nat.exists_eq_add_of_le hk
      rw [List.getElem?_append_right hk, Nat.add_sub_cancel_left] at he
      rcases n.dueReports_le_one s nodes with hdue | ⟨due, hdue⟩
      · rw [hdue] at he
        obtain rfl := List.mem_singleton.1 (List.mem_of_getElem? he)
        exact .inr (.inl ⟨n, hself, rfl⟩)
      · rw [hdue] at he
        rcases j with _ | j
        · obtain rfl := Option.some.inj he
          refine .inr (.inr ⟨n, hself, by rw [hsame, hdue]; exact List.mem_singleton_self _, ?_⟩)
          rw [List.getElem?_append_right (by omega), hdue]
          simp
        · obtain rfl := List.mem_singleton.1 (List.mem_of_getElem? (l := [n.creation]) he)
          exact .inr (.inl ⟨n, hself, rfl⟩)
  | @program nodes log _ kept all constraints d ih =>
    rcases getElem?_concat_eq_some_iff.1 he with he | ⟨-, rfl⟩
    · rcases ih he with h | h | ⟨m, hm, hdue, hnext⟩
      · exact .inl h
      · exact .inr (.inl h)
      · exact .inr (.inr ⟨m, hm, hdue, getElem?_append_of_eq_some hnext _⟩)
    · exact .inl ⟨kept, all, constraints, d, rfl⟩

/-- **What a node calls for has been reported right before its creation.** -/
theorem announced (h : Ledger s nodes log) {n : Node α} (hn : n ∈ nodes) {e : Event}
    (he : e ∈ n.dueReports s nodes) : ∃ k, log[k]? = some e ∧ log[k + 1]? = some n.creation := by
  induction h with
  | nil => cases hn
  | @node nodes log m hledger hm ih =>
    rcases List.mem_append.1 hn with hold | hnew
    · obtain ⟨i, hi⟩ := List.mem_iff_getElem?.1 hold
      have hle := (List.getElem?_eq_some_iff.1 hi).1.le
      rw [Node.dueReports_append (hledger.nodesOK i n hi) hle] at he
      obtain ⟨k, hk, hnext⟩ := ih hold he
      exact ⟨k, getElem?_append_of_eq_some hk _, getElem?_append_of_eq_some hnext _⟩
    · obtain rfl := List.mem_singleton.1 hnew
      rw [Node.dueReports_append hm le_rfl] at he
      rcases n.dueReports_le_one s nodes with hdue | ⟨due, hdue⟩
      · rw [hdue] at he
        cases he
      · rw [hdue] at he ⊢
        obtain rfl := List.mem_singleton.1 he
        exact ⟨log.length, by simp, by simp⟩
  | program _ _ _ _ _ ih =>
    obtain ⟨k, hk, hnext⟩ := ih hn he
    exact ⟨k, getElem?_append_of_eq_some hk _, getElem?_append_of_eq_some hnext _⟩

end Ledger

/-! ## What such a log tells -/

/-- The log **replays to the graph**: its creations are the nodes, each reported once; and of the
two odd things that are reported, each precedes the creation of a node of its kind, and precedes it
exactly where it should. -/
structure Graph.Replays (G : Graph α) (log : List Event) : Prop where
  creations : log.filterMap Event.created? = G.nodes.map fun n => (n.id, n.name, n.dimension, n.tag)
  once : ∀ n ∈ G.nodes, ∃! k : Nat, log[k]? = some n.creation
  sign_before : ∀ k reduced last rule, log[k]? = some (.signRulesDisagree reduced last rule) →
    ∃ n ∈ G.nodes, log[k + 1]? = some n.creation ∧ ∃ values, n.constant? = some values ∧
      reduced = Tag.ofValues values .reduced ∧ last = Tag.ofValues values .lastComponent ∧
      rule = G.settings.parameterSign
  sign_iff : ∀ n ∈ G.nodes, ∀ values, n.constant? = some values →
    ((∃ k reduced last rule, log[k]? = some (.signRulesDisagree reduced last rule) ∧
      log[k + 1]? = some n.creation) ↔
        Tag.ofValues values .reduced ≠ Tag.ofValues values .lastComponent)
  dot_before : ∀ k left right, log[k]? = some (.mixedDotTagged left right) →
    ∃ n ∈ G.nodes, log[k + 1]? = some n.creation ∧ ∃ l r, n.IsDotOf G.nodes l r ∧
    left = l.tag ∧ right = r.tag
  dot_operands : ∀ n ∈ G.nodes, ∀ f, n.kind = .function f → f.op = .dot →
    ∃ l r, n.IsDotOf G.nodes l r
  dot_iff : ∀ n ∈ G.nodes, ∀ l r, n.IsDotOf G.nodes l r →
    ((∃ k left right, log[k]? = some (.mixedDotTagged left right) ∧ log[k + 1]? = some n.creation) ↔
      ((l.tag = .nonneg ∧ r.tag = .nonpos) ∨ (l.tag = .nonpos ∧ r.tag = .nonneg)) ∧
        G.settings.dotSign = .nonnegative)

/-- The log accounts for the nodes of the graph. -/
def Graph.Ledger (G : Graph α) (log : List Event) : Prop :=
  MixedMonotone.Ledger G.settings G.nodes log

namespace Graph.Ledger

variable {G : Graph α} {log : List Event}

/-- Handles increase, so no creation is reported twice. -/
theorem once (h : G.Ledger log) (hG : ArenaOK G.settings G.arena) {n : Node α} (hn : n ∈ G.nodes) :
    ∃! k : Nat, log[k]? = some n.creation := by
  have hcreations := MixedMonotone.Ledger.creations h
  have hmem : (n.id, n.name, n.dimension, n.tag) ∈ log.filterMap Event.created? := by
    rw [hcreations]
    exact List.mem_map_of_mem hn
  obtain ⟨e, he, hcreated⟩ := List.mem_filterMap.1 hmem
  obtain rfl := Event.eq_creation hcreated
  obtain ⟨k, hk⟩ := List.mem_iff_getElem?.1 he
  have hdistinct : (log.filterMap Event.created?).Pairwise (· ≠ ·) := by
    rw [hcreations, List.pairwise_map]
    refine hG.ids.imp fun hlt heq => ?_
    have hid := (Prod.mk.inj heq).1
    rw [hid] at hlt
    exact lt_irrefl _ hlt
  rw [List.pairwise_filterMap, List.pairwise_iff_getElem] at hdistinct
  have hnever : ∀ {i j : Nat}, log[i]? = some n.creation → log[j]? = some n.creation → ¬i < j := by
    intro i j hi hj hij
    obtain ⟨hilt, hi⟩ := List.getElem?_eq_some_iff.1 hi
    obtain ⟨hjlt, hj⟩ := List.getElem?_eq_some_iff.1 hj
    exact hdistinct i j hilt hjlt hij _ (hi ▸ n.created?_creation) _ (hj ▸ n.created?_creation) rfl
  refine ⟨k, hk, fun j hj => ?_⟩
  have hle := not_lt.1 (hnever hk hj)
  have hge := not_lt.1 (hnever hj hk)
  omega

/-- A report that is neither of a program nor of a creation is **due for the node created next**. -/
theorem due (h : G.Ledger log) {k : Nat} {e : Event} (he : log[k]? = some e)
    (hcreated : e.created? = none)
    (hprogram : ∀ kept all constraints d, e ≠ .programCompiled kept all constraints d) :
    ∃ n ∈ G.nodes, e ∈ n.dueReports G.settings G.nodes ∧ log[k + 1]? = some n.creation := by
  rcases MixedMonotone.Ledger.reports h he with
    ⟨kept, all, constraints, d, rfl⟩ | ⟨n, -, rfl⟩ | hdue
  · exact absurd rfl (hprogram kept all constraints d)
  · cases hcreated
  · exact hdue

/-- The node created next is the one that calls for the report. -/
theorem due_of_next (h : G.Ledger log) (hG : ArenaOK G.settings G.arena) {k : Nat} {e : Event}
    (he : log[k]? = some e) (hcreated : e.created? = none)
    (hprogram : ∀ kept all constraints d, e ≠ .programCompiled kept all constraints d) {n : Node α}
    (hn : n ∈ G.nodes) (hnext : log[k + 1]? = some n.creation) :
    e ∈ n.dueReports G.settings G.nodes := by
  obtain ⟨m, hm, hdue, hnext'⟩ := h.due he hcreated hprogram
  have hsame : m.creation = n.creation := Option.some.inj (hnext'.symm.trans hnext)
  have hid : m.id = n.id := (Event.nodeCreated.inj hsame).1
  obtain rfl := hG.eq_of_id hm hn hid
  exact hdue

/-- An inner product is one of two nodes. -/
theorem exists_isDotOf (hG : ArenaOK G.settings G.arena) {n : Node α} (hn : n ∈ G.nodes)
    {f : Application α} (hkind : n.kind = .function f) (hop : f.op = .dot) :
    ∃ l r, n.IsDotOf G.nodes l r := by
  obtain ⟨i, hi⟩ := List.mem_iff_getElem?.1 hn
  obtain ⟨-, σs, hσs, hfits, -⟩ := hG.nodes.application hi hkind
  generalize n.dimension = d, n.tag = t, f.plan = plan at hfits
  rw [hop] at hfits
  cases hfits with
  | dot =>
    obtain ⟨i, j, hi, hj, hoperands⟩ := forall₂_pair hσs
    obtain ⟨l, hl, -⟩ := Option.map_eq_some_iff.1 hi
    obtain ⟨r, hr, -⟩ := Option.map_eq_some_iff.1 hj
    exact ⟨l, r, f, i, j, hkind, hop, hoperands, hl, hr⟩

/-- **A log that accounts for the nodes of a graph replays to it.** -/
theorem replays (h : G.Ledger log) (hG : ArenaOK G.settings G.arena) : G.Replays log where
  creations := MixedMonotone.Ledger.creations h
  once n hn := h.once hG hn
  sign_before k reduced last rule he := by
    obtain ⟨n, hn, hdue, hnext⟩ := h.due he rfl (by simp)
    rcases Node.mem_dueReports.1 hdue with ⟨values, hvalues, hdue⟩ | ⟨l, r, -, hdue⟩
    · obtain ⟨-, heq⟩ := Settings.mem_signReports.1 hdue
      cases heq
      exact ⟨n, hn, hnext, values, hvalues, rfl, rfl, rfl⟩
    · cases (Settings.mem_dotReports.1 hdue).2.2
  sign_iff n hn values hvalues := by
    have hreports : n.dueReports G.settings G.nodes = G.settings.signReports values :=
      Node.dueReports_constant hvalues
    constructor
    · rintro ⟨k, reduced, last, rule, he, hnext⟩
      have hdue := h.due_of_next hG he rfl (by simp) hn hnext
      rw [hreports] at hdue
      exact (Settings.mem_signReports.1 hdue).1
    · intro hdiffer
      have hdue := (Settings.mem_signReports (s := G.settings)).2 ⟨hdiffer, rfl⟩
      rw [← hreports] at hdue
      obtain ⟨k, he, hnext⟩ := MixedMonotone.Ledger.announced h hn hdue
      exact ⟨k, _, _, _, he, hnext⟩
  dot_before k left right he := by
    obtain ⟨n, hn, hdue, hnext⟩ := h.due he rfl (by simp)
    rcases Node.mem_dueReports.1 hdue with ⟨values, -, hdue⟩ | ⟨l, r, hdot, hdue⟩
    · cases (Settings.mem_signReports.1 hdue).2
    · obtain ⟨-, -, heq⟩ := Settings.mem_dotReports.1 hdue
      cases heq
      exact ⟨n, hn, hnext, l, r, hdot, rfl, rfl⟩
  dot_operands n hn f hkind hop := exists_isDotOf hG hn hkind hop
  dot_iff n hn l r hdot := by
    have hreports : n.dueReports G.settings G.nodes = G.settings.dotReports l.tag r.tag :=
      Node.dueReports_dot hdot
    constructor
    · rintro ⟨k, left, right, he, hnext⟩
      have hdue := h.due_of_next hG he rfl (by simp) hn hnext
      rw [hreports] at hdue
      obtain ⟨htags, hsign, -⟩ := Settings.mem_dotReports.1 hdue
      exact ⟨htags, hsign⟩
    · rintro ⟨htags, hsign⟩
      have hdue := Settings.mem_dotReports.2 ⟨htags, hsign, rfl⟩
      rw [← hreports] at hdue
      obtain ⟨k, he, hnext⟩ := MixedMonotone.Ledger.announced h hn hdue
      exact ⟨k, _, _, he, hnext⟩

end Graph.Ledger

end MixedMonotone
