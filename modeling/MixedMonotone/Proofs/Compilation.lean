import Mathlib
import MixedMonotone.Program.Compile
import MixedMonotone.Proofs.Answers
import MixedMonotone.Proofs.Correspondence

/-!
# A program is a copy

Compiling copies nodes in order. A copy differs in the positions of its operands only, and these
lead to copies of the operands: the handles say which.

* `SameHandle`: two positions of two arenas hold nodes with one handle.
* `Copies`: every node of an arena is a copy of a node of another one.
* `byOperands_copy`, `denote_copy`: what is defined by recursion on operands is **the same for a
  copy**.
* `compile_spec`: a program is well formed, and its arena copies the graph's.
-/

namespace MixedMonotone

variable {α β : Type}

/-! ## What compiling checks -/

theorem commonDimension_eq_ok {nodes : List (Node α)} {d : Option Nat}
    (h : commonDimension nodes = .ok d) :
    ∀ n ∈ nodes, n.isVariable = true → d = some n.dimension := by
  intro n hn hv
  have hmem : n.dimension ∈ (nodes.filter Node.isVariable).map Node.dimension :=
    List.mem_map_of_mem (List.mem_filter.2 ⟨hn, hv⟩)
  unfold commonDimension at h
  split at h
  · rename_i hnil
    rw [hnil] at hmem
    cases hmem
  · rename_i e rest hcons
    rw [hcons] at hmem
    cases hfind : rest.find? (· != e) with
    | some other => simp [hfind] at h
    | none =>
      simp only [hfind, Except.ok.injEq] at h
      rw [← h]
      rcases List.mem_cons.1 hmem with heq | hrest
      · rw [heq]
      · have hsame := List.find?_eq_none.1 hfind _ hrest
        exact congrArg some (by simpa using hsame : n.dimension = e).symm

theorem commonDimension_declared {nodes : List (Node α)} {d : Nat}
    (h : commonDimension nodes = .ok (some d)) : ∃ n ∈ nodes, n.isVariable = true := by
  unfold commonDimension at h
  split at h
  · cases h
  · rename_i e rest hcons
    have hmem : e ∈ (nodes.filter Node.isVariable).map Node.dimension := hcons ▸ List.mem_cons_self
    obtain ⟨n, hn, -⟩ := List.mem_map.1 hmem
    exact ⟨n, List.mem_filter.1 hn⟩

theorem locate_eq_ok {copied : Arena α} {root id : NodeId} {k : Nat} :
    copied.locate root id = .ok k ↔ copied.position? id = some k := by
  unfold Arena.locate
  cases copied.position? id <;> simp

/-- The positions of the objective and of the constraints' nodes, which are operands. -/
theorem Graph.roots_eq_ok {g : Graph α} {root : NodeId} {constraints : List Constraint}
    {roots : List Nat} (h : g.roots root constraints = .ok roots) :
    ∃ o os, g.arena.operand root = .ok o ∧ o.node.dimension = 1 ∧
      List.Forall₂ (fun (c : Constraint) o => g.arena.operand c.node = .ok o) constraints os ∧
      roots = o.position :: os.map (·.position) := by
  obtain ⟨o, ho, h⟩ := bind_eq_ok.1 h
  by_cases hscalar : o.node.dimension = 1
  · rw [if_neg (not_not.2 hscalar)] at h
    obtain ⟨os, hos, h⟩ := bind_eq_ok.1 h
    exact ⟨o, os, ho, hscalar, mapM_eq_ok hos, (Except.ok.inj h).symm⟩
  · rw [if_pos hscalar] at h
    cases h

/-- **What has succeeded** when compiling has. -/
theorem Graph.compile_eq_ok {g : Graph α} {extraction : Extraction} {root : NodeId}
    {constraints : List Constraint} {p : Program α}
    (h : g.compile extraction root constraints = .ok p) :
    ∃ roots, g.roots root constraints = .ok roots ∧
      g.arena.compact (g.marks extraction roots) = .ok p.arena ∧
      commonDimension p.nodes = .ok p.inputDimension ∧ p.arena.position? root = some p.root ∧
      List.Forall₂ (fun c check => p.arena.position? c.node = some check.position ∧
        check.relation = c.relation) constraints p.constraints := by
  obtain ⟨roots, hroots, h⟩ := bind_eq_ok.1 h
  obtain ⟨a, harena, h⟩ := bind_eq_ok.1 h
  obtain ⟨d, hd, h⟩ := bind_eq_ok.1 h
  obtain ⟨k, hk, h⟩ := bind_eq_ok.1 h
  obtain ⟨checks, hchecks, h⟩ := bind_eq_ok.1 h
  obtain rfl := Except.ok.inj h
  refine ⟨roots, hroots, harena, hd, locate_eq_ok.1 hk,
    (mapM_eq_ok hchecks).imp fun c check hcheck => ?_⟩
  obtain ⟨j, hj, hcheck⟩ := bind_eq_ok.1 hcheck
  obtain rfl := Except.ok.inj hcheck
  exact ⟨locate_eq_ok.1 hj, rfl⟩

/-! ## Copies -/

/-- Position `i` of `nodes` and position `k` of `nodes'` hold nodes with one handle. -/
def SameHandle (nodes nodes' : List (Node α)) (i k : Nat) : Prop :=
  ∃ n m, nodes[i]? = some n ∧ nodes'[k]? = some m ∧ m.id = n.id

/-- What a node is, with its operands rebound to positions of the same handles. -/
inductive Kind.Copy (nodes nodes' : List (Node α)) : Kind α → Kind α → Prop
  | leaf (k : Kind α) (hleaf : ∀ f, k ≠ .function f) : Copy nodes nodes' k k
  | function (f : Application α) (operands : List Nat)
      (hoperands : List.Forall₂ (SameHandle nodes nodes') f.operands operands) :
      Copy nodes nodes' (.function f) (.function { f with operands })

/-- The node `m` among `nodes'` is a copy of the node `n` among `nodes`. -/
structure Node.Copy (nodes nodes' : List (Node α)) (n m : Node α) : Prop where
  id : m.id = n.id
  tag : m.tag = n.tag
  value : m.value = n.value
  kind : n.kind.Copy nodes nodes' m.kind

/-- **Every node of `nodes'` is a copy** of a node of `nodes`. -/
def Copies (nodes nodes' : List (Node α)) : Prop :=
  ∀ (k : Nat) (m : Node α), nodes'[k]? = some m →
    ∃ (i : Nat) (n : Node α), nodes[i]? = some n ∧ Node.Copy nodes nodes' n m

/-- The handles increase along the nodes. -/
abbrev Increasing (nodes : List (Node α)) : Prop :=
  nodes.Pairwise fun m n => m.id.number < n.id.number

/-- A handle stands at one position. -/
theorem Increasing.position_unique {nodes : List (Node α)} (h : Increasing nodes) {i j : Nat}
    {m n : Node α} (hm : nodes[i]? = some m) (hn : nodes[j]? = some n) (hid : m.id = n.id) :
    i = j := by
  obtain ⟨hi, rfl⟩ := List.getElem?_eq_some_iff.1 hm
  obtain ⟨hj, rfl⟩ := List.getElem?_eq_some_iff.1 hn
  have hlt := List.pairwise_iff_getElem.1 h
  rcases lt_trichotomy i j with hij | hij | hij
  · exact absurd (congrArg NodeId.number hid) (hlt i j hi hj hij).ne
  · exact hij
  · exact absurd (congrArg NodeId.number hid) (hlt j i hj hi hij).ne'

/-- Caches do not matter. -/
theorem Increasing.alike [Zero α] {nodes nodes' : List (Node α)} (h : Increasing nodes)
    (halike : Alike nodes nodes') : Increasing nodes' := by
  have hids : nodes.map (·.id.number) = nodes'.map (·.id.number) := by
    refine List.ext_getElem? fun i => ?_
    rw [List.getElem?_map, List.getElem?_map]
    exact halike.lookup_eq (fun _ => rfl) i
  have hmap := List.pairwise_map.2 h
  rw [hids] at hmap
  exact List.pairwise_map.1 hmap

theorem SameHandle.append {nodes nodes' : List (Node α)} {i k : Nat}
    (h : SameHandle nodes nodes' i k) (m : Node α) : SameHandle nodes (nodes' ++ [m]) i k := by
  obtain ⟨n, m', hn, hm', hid⟩ := h
  exact ⟨n, m', hn, getElem?_append_of_eq_some hm' [m], hid⟩

namespace Kind.Copy

variable {nodes nodes' : List (Node α)} {k k' : Kind α}

theorem append (h : Kind.Copy nodes nodes' k k') (m : Node α) :
    Kind.Copy nodes (nodes' ++ [m]) k k' := by
  cases h with
  | leaf _ hleaf => exact .leaf k hleaf
  | function f operands hops => exact .function f operands (hops.imp fun _ _ h => h.append m)

theorem matrix?_eq (h : Kind.Copy nodes nodes' k k') : k'.matrix? = k.matrix? := by
  cases h <;> rfl

theorem operands (h : Kind.Copy nodes nodes' k k') :
    List.Forall₂ (SameHandle nodes nodes') k.operands k'.operands := by
  cases h with
  | leaf _ hleaf =>
    cases k with
    | function f => exact absurd rfl (hleaf f)
    | _ => exact .nil
  | function f operands hops => exact hops

end Kind.Copy

namespace Node.Copy

variable {nodes nodes' : List (Node α)} {n m : Node α}

theorem append (h : Node.Copy nodes nodes' n m) (m' : Node α) :
    Node.Copy nodes (nodes' ++ [m']) n m :=
  ⟨h.id, h.tag, h.value, h.kind.append m'⟩

theorem dimension_eq (h : Node.Copy nodes nodes' n m) : m.dimension = n.dimension :=
  congrArg List.length h.value

theorem operands (h : Node.Copy nodes nodes' n m) :
    List.Forall₂ (SameHandle nodes nodes') n.operands m.operands := h.kind.operands

theorem matrix?_eq (h : Node.Copy nodes nodes' n m) : m.matrix? = n.matrix? := h.kind.matrix?_eq

theorem bounds?_eq (h : Node.Copy nodes nodes' n m) : m.bounds? = n.bounds? := by
  have hkind := h.kind
  unfold Node.bounds?
  generalize n.kind = k, m.kind = k' at hkind
  cases hkind <;> rfl

theorem isVariable_eq (h : Node.Copy nodes nodes' n m) : m.isVariable = n.isVariable := by
  have hkind := h.kind
  unfold Node.isVariable
  generalize n.kind = k, m.kind = k' at hkind
  cases hkind <;> rfl

theorem signature_eq (h : Node.Copy nodes nodes' n m) : m.signature = n.signature := by
  unfold Node.signature
  rw [h.dimension_eq, h.tag, h.matrix?_eq]

end Node.Copy

namespace Copies

variable {nodes nodes' : List (Node α)}

/-- Positions with one handle hold a node and its copy. -/
theorem copy (h : Copies nodes nodes') (hinc : Increasing nodes) {i k : Nat}
    (hik : SameHandle nodes nodes' i k) :
    ∃ n m, nodes[i]? = some n ∧ nodes'[k]? = some m ∧ Node.Copy nodes nodes' n m := by
  obtain ⟨n, m, hn, hm, hid⟩ := hik
  obtain ⟨j, n', hn', hcopy⟩ := h k m hm
  obtain rfl := hinc.position_unique hn' hn (hcopy.id.symm.trans hid)
  obtain rfl := Option.some.inj (hn.symm.trans hn')
  exact ⟨n, m, hn, hm, hcopy⟩

theorem signatureAt_eq (h : Copies nodes nodes') (hinc : Increasing nodes) {i k : Nat}
    (hik : SameHandle nodes nodes' i k) : signatureAt nodes' k = signatureAt nodes i := by
  obtain ⟨n, m, hn, hm, hcopy⟩ := h.copy hinc hik
  rw [signatureAt, signatureAt, hn, hm, Option.map_some, Option.map_some, hcopy.signature_eq]

/-- One more copy. -/
theorem push {copied : Arena α} (h : Copies nodes copied.nodes) {i : Nat} {n m : Node α}
    (hn : nodes[i]? = some n) (hcopy : Node.Copy nodes copied.nodes n m) :
    Copies nodes (copied.push m).nodes := by
  intro k m' hm'
  change (copied.nodes ++ [m])[k]? = some m' at hm'
  rcases getElem?_concat_eq_some_iff.1 hm' with hold | ⟨-, rfl⟩
  · obtain ⟨j, n', hn', hcopy'⟩ := h k m' hold
    exact ⟨j, n', hn', hcopy'.append m⟩
  · exact ⟨i, n, hn, hcopy.append m⟩

/-- Positions of one handle correspond. -/
theorem corresponds (h : Copies nodes nodes') (hinc : Increasing nodes) :
    Corresponds (Node.Copy nodes nodes') (SameHandle nodes nodes') nodes nodes' := by
  intro i k hik
  obtain ⟨n, m, hn, hm, hcopy⟩ := h.copy hinc hik
  exact ⟨n, m, hn, hm, hcopy, hcopy.operands⟩

/-- **What is defined by recursion on operands is the same for a copy.** -/
theorem byOperands_copy (h : Copies nodes nodes') (hinc : Increasing nodes)
    (hlt : ∀ i, ∀ k ∈ operandsAt nodes i, k < i) (hlt' : ∀ i, ∀ k ∈ operandsAt nodes' i, k < i)
    {visit : Node α → List β → β} {missing : β}
    (hvisit : ∀ n m, Node.Copy nodes nodes' n m → visit m = visit n) (k : Nat) :
    ∀ i, SameHandle nodes nodes' i k →
      byOperands visit missing nodes' k = byOperands visit missing nodes i :=
  (h.corresponds hinc).byOperands_eq hlt hlt' hvisit k

end Copies

variable [Scalar α]

theorem Node.Copy.denotes_eq {nodes nodes' : List (Node α)} {n m : Node α}
    (h : Node.Copy nodes nodes' n m) : m.denotes = n.denotes := by
  funext operands points
  have hkind := h.kind
  unfold Node.denotes
  rw [h.value, h.dimension_eq]
  generalize n.kind = k, m.kind = k' at hkind
  cases hkind <;> rfl

/-- **A copy denotes what its original does.** -/
theorem denote_copy {s s' : Settings} {nodes nodes' : List (Node α)} (h : Copies nodes nodes')
    (hinc : Increasing nodes) (hok : NodesOK s nodes) (hok' : NodesOK s' nodes') {i k : Nat}
    (hik : SameHandle nodes nodes' i k) : denote nodes' k = denote nodes i :=
  h.byOperands_copy hinc hok.operands_lt hok'.operands_lt (fun _ _ h => h.denotes_eq) k i hik

/-! ## Compacting -/

section Compact

variable {s : Settings} {nodes : List (Node α)} {copied : Arena α}

/-- Rebinding finds the operands' handles among the copies. -/
theorem copy_of_rebind (hcopied : ArenaOK s copied) {n m : Node α}
    (h : rebind nodes copied n = .ok m) : Node.Copy nodes copied.nodes n m := by
  unfold rebind at h
  cases hkind : n.kind with
  | function f =>
    rw [hkind] at h
    obtain ⟨operands, hops, h⟩ := bind_eq_ok.1 h
    obtain rfl := Except.ok.inj h
    refine ⟨rfl, rfl, rfl, hkind ▸ .function f operands ((mapM_eq_ok hops).imp fun i k hik => ?_)⟩
    unfold rebindOperand at hik
    cases hi : nodes[i]? with
    | none => simp [hi] at hik
    | some o =>
      cases hk : copied.position? o.id with
      | none => simp [hi, hk] at hik
      | some k' =>
        simp only [hi, hk, Except.ok.injEq] at hik
        obtain ⟨m, hm, hid⟩ := (hcopied.table o.id k').1 hk
        exact ⟨o, m, hi, hik ▸ hm, hid⟩
  | _ =>
    rw [hkind] at h
    obtain rfl := Except.ok.inj h
    exact ⟨rfl, rfl, rfl, .leaf _ (by simp [hkind])⟩

/-- A copy of a node that fits the nodes before it fits the copies. -/
theorem Node.Copy.nodeOK (hcopies : Copies nodes copied.nodes) (hinc : Increasing nodes) {i : Nat}
    {n m : Node α} (hn : NodeOK s nodes i n) (hcopy : Node.Copy nodes copied.nodes n m) :
    NodeOK s copied.nodes copied.nodes.length m := by
  have hkind := hcopy.kind
  unfold NodeOK at hn ⊢
  rw [hcopy.dimension_eq, hcopy.tag, hcopy.value]
  generalize n.kind = k, m.kind = k' at hkind hn
  cases hkind with
  | leaf k hleaf =>
    cases k with
    | function f => exact absurd rfl (hleaf f)
    | _ => exact hn
  | function f operands hops =>
    obtain ⟨hdim, hlt, σs, hσs, hfits, hsizes⟩ := hn
    refine ⟨hdim, ?_, σs, ?_, hfits, hsizes⟩
    · intro k hk
      obtain ⟨j, -, -, m, -, hm, -⟩ := forall₂_mem_left hops.flip hk
      exact (List.getElem?_eq_some_iff.1 hm).1
    · refine List.forall₂_iff_get.2 ⟨hops.length_eq.symm.trans hσs.length_eq, fun j hj hj' => ?_⟩
      have hj'' : j < f.operands.length := hops.length_eq ▸ hj
      rw [hcopies.signatureAt_eq hinc (hops.get hj'' hj), hσs.get hj'' hj']

/-- **The loop over the kept nodes** keeps a well-formed arena of copies, all older than the
nodes still to come. -/
theorem copies_of_foldlM (hok : NodesOK s nodes) (hinc : Increasing nodes)
    {kept : List (Node α × Bool)} :
    ∀ {copied result : Arena α}, ArenaOK s copied → Copies nodes copied.nodes →
      (∀ p ∈ kept, p.1 ∈ nodes) →
        (kept.map Prod.fst).Pairwise (fun m n => m.id.number < n.id.number) →
      (∀ m ∈ copied.nodes, ∀ p ∈ kept, m.id.number < p.1.id.number) →
      kept.foldlM (fun copied n => do return copied.push (← rebind nodes copied n.1)) copied =
        .ok result →
      ArenaOK s result ∧ Copies nodes result.nodes := by
  induction kept with
  | nil =>
    intro copied result hcopied hcopies _ _ _ h
    obtain rfl := Except.ok.inj h
    exact ⟨hcopied, hcopies⟩
  | cons p kept ih =>
    intro copied result hcopied hcopies hmem hsorted hbelow h
    rw [List.foldlM_cons] at h
    obtain ⟨copied', hstep, h⟩ := bind_eq_ok.1 h
    obtain ⟨m, hm, hstep⟩ := bind_eq_ok.1 hstep
    obtain rfl := Except.ok.inj hstep
    -- the nodes still to come have larger handles than the one that is copied now
    obtain ⟨hfirst, hsorted⟩ := List.pairwise_cons.1 hsorted
    obtain ⟨i, hi⟩ := List.mem_iff_getElem?.1 (hmem p List.mem_cons_self)
    have hcopy := copy_of_rebind hcopied hm
    refine ih (hcopied.push (hcopy.nodeOK hcopies hinc (hok i _ hi)) ?_) (hcopies.push hi hcopy)
      (fun q hq => hmem q (List.mem_cons_of_mem _ hq)) hsorted ?_ h
    · intro m' hm'
      rw [hcopy.id]
      exact hbelow m' hm' p List.mem_cons_self
    · intro m' hm' q hq
      rcases List.mem_append.1 hm' with hm' | hm'
      · exact hbelow m' hm' q (List.mem_cons_of_mem _ hq)
      · obtain rfl := List.mem_singleton.1 hm'
        rw [hcopy.id]
        exact hfirst q.1 (List.mem_map_of_mem hq)

theorem compact_spec {a result : Arena α} (hok : ArenaOK s a) {marks : List Bool}
    (h : a.compact marks = .ok result) : ArenaOK s result ∧ Copies a.nodes result.nodes := by
  have hempty : ArenaOK s ({} : Arena α) := ⟨by simp [NodesOK], .nil, by simp [Arena.position?]⟩
  have hsub : (((a.nodes.zip marks).filter (·.2)).map Prod.fst).Sublist a.nodes :=
    (List.filter_sublist.map _).trans (map_fst_zip_sublist ..)
  refine copies_of_foldlM hok.nodes hok.ids hempty (by simp [Copies]) ?_
    (hok.ids.sublist hsub) (by simp) h
  intro p hp
  exact hsub.subset (List.mem_map_of_mem hp)

end Compact

/-! ## Programs -/

/-- **A program compiled from a graph**: well formed, a copy, with the objective where
the handle stands. -/
structure Program.CompiledFrom (s : Settings) (p : Program α) (g : Graph α)
    (root : NodeId) : Prop where
  ok : ProgramOK s p
  copies : Copies g.nodes p.nodes
  root : ∃ i, g.arena.position? root = some i ∧ SameHandle g.nodes p.nodes i p.root

theorem ArenaOK.sameHandle {s s' : Settings} {a a' : Arena α} (hok : ArenaOK s a)
    (hok' : ArenaOK s' a') {id : NodeId} {i k : Nat} (hi : a.position? id = some i)
    (hk : a'.position? id = some k) :
    SameHandle a.nodes a'.nodes i k := by
  obtain ⟨n, hn, hnid⟩ := (hok.table id i).1 hi
  obtain ⟨m, hm, hmid⟩ := (hok'.table id k).1 hk
  exact ⟨n, m, hn, hm, hmid.trans hnid.symm⟩

/-- **What compiling answers.** -/
theorem compile_spec {s : Settings} {g : Graph α} (hok : ArenaOK s g.arena)
    {extraction : Extraction} {root : NodeId} {constraints : List Constraint} {p : Program α}
    (h : g.compile extraction root constraints = .ok p) : p.CompiledFrom s g root := by
  obtain ⟨roots, hroots, harena, hd, hk, hchecks⟩ := Graph.compile_eq_ok h
  obtain ⟨hcopied, hcopies⟩ := compact_spec hok harena
  -- the objective was looked up in the graph first, and was found to have one component
  obtain ⟨o, -, ho, hscalar, -, -⟩ := Graph.roots_eq_ok hroots
  obtain ⟨hpos, hnode⟩ := Arena.find_eq_ok (Arena.operand_eq_ok ho).1
  have hsame := hok.sameHandle hcopied hpos hk
  refine ⟨⟨hcopied, ?_, ?_, commonDimension_eq_ok hd, ?_⟩, hcopies, o.position, hpos, hsame⟩
  · obtain ⟨n, m, hn, hm, hcopy⟩ := hcopies.copy hok.ids hsame
    obtain rfl := Option.some.inj (hnode.symm.trans hn)
    exact ⟨m, hm, hcopy.dimension_eq.trans hscalar⟩
  · intro c hc
    obtain ⟨c', -, hc', -⟩ := forall₂_mem_left hchecks.flip hc
    exact hcopied.position_lt hc'
  · intro e he
    rw [he] at hd
    exact commonDimension_declared hd

end MixedMonotone
