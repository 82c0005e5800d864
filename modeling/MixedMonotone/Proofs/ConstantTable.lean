import Mathlib
import MixedMonotone.Binary64.Scalar
import MixedMonotone.Proofs.Atomicity
import MixedMonotone.Proofs.Persistence
import MixedMonotone.Proofs.Sharing

/-!
# The table of shared constants

Where constants are shared, a graph looks up the components of a constant in a table before
it adds a node for it.

* `Graph.constants`: the constant vectors of a graph with their handles, read off its nodes.
* `Graph.Tabulated`: the table lists **these and nothing else**, and no two have the same
  components; where constants are not shared, it is empty.
* `keeps_tabulated_call`, `tabulated_persists`: **every builder call** keeps the table, and
  so does every command.
* `constants_are_interned`: the table of every reachable graph is one-to-one, and a constant is
  answered with a node that is there **if and only if there is an equal one**.
-/

namespace MixedMonotone

variable {α : Type}

/-! ## Constants -/

/-- The components of a constant vector, with its handle. -/
def Node.parameter? (n : Node α) : Option (List α × NodeId) :=
  match n.kind with
  | .parameter => some (n.value, n.id)
  | _ => none

theorem Node.parameter?_eq_some_iff {n : Node α} {values : List α} {id : NodeId} :
    n.parameter? = some (values, id) ↔ n.kind = .parameter ∧ n.value = values ∧ n.id = id := by
  unfold parameter?
  cases n.kind <;> simp

theorem Node.parameter?_eq_none {n : Node α} (h : n.kind ≠ .parameter) : n.parameter? = none := by
  unfold parameter?
  cases hkind : n.kind with
  | parameter => exact absurd hkind h
  | _ => rfl

/-- An evaluation overwrites no constant. -/
theorem Node.blank_parameter? [Zero α] (n : Node α) : n.blank.parameter? = n.parameter? := by
  unfold parameter? blank
  cases n.kind <;> rfl

namespace Graph

/-- **The constant vectors of a graph** with their handles, in the order of their creation. -/
def constants (g : Graph α) : List (List α × NodeId) := g.nodes.filterMap Node.parameter?

theorem mem_constants {g : Graph α} {values : List α} {id : NodeId} :
    (values, id) ∈ g.constants ↔ ∃ n ∈ g.nodes, n.kind = .parameter ∧ n.value = values ∧
      n.id = id := by
  simp only [constants, List.mem_filterMap, Node.parameter?_eq_some_iff]

/-- **The table lists the constants**, the latest first, and no two have the same components. Where
constants are not shared, it is empty. -/
structure Tabulated (g : Graph α) : Prop where
  table : g.interned = if g.settings.internParameters then g.constants.reverse else []
  distinct : g.settings.internParameters = true → (g.constants.map Prod.fst).Nodup

theorem constants_eq_of_blank_eq [Zero α] {g g' : Graph α} (h : g.blank = g'.blank) :
    g.constants = g'.constants := by
  have halike : Alike g.nodes g'.nodes := (Arena.blank_eq_iff.1 (Graph.blank_eq_iff.1 h).1).1
  have hread : ∀ nodes : List (Node α), nodes.filterMap Node.parameter? =
      (nodes.map Node.blank).filterMap Node.parameter? := by
    intro nodes
    rw [List.filterMap_map]
    exact congrArg (List.filterMap · nodes) (funext fun n => (Node.blank_parameter? n).symm)
  rw [constants, constants, hread g.nodes, hread g'.nodes, halike]

namespace Tabulated

variable {g g' : Graph α}

/-- What evaluations leave makes no difference. -/
theorem of_blank_eq [Zero α] (h : g.Tabulated) (heq : g.blank = g'.blank) : g'.Tabulated := by
  obtain ⟨-, hsettings, hinterned⟩ := Graph.blank_eq_iff.1 heq
  have hconstants := constants_eq_of_blank_eq heq
  refine ⟨by rw [← hsettings, ← hinterned, ← hconstants, h.table], ?_⟩
  rw [← hsettings, ← hconstants]
  exact h.distinct

variable [DecidableEq α]

/-- **What is looked up is found** if and only if there is such a constant. -/
theorem interned?_eq_some_iff (h : g.Tabulated) {values : List α} {id : NodeId} :
    g.interned? values = some id ↔ g.settings.internParameters = true ∧
    (values, id) ∈ g.constants := by
  cases hshare : g.settings.internParameters with
  | false => simp [interned?, hshare]
  | true =>
    have htable : ∀ e, e ∈ g.interned ↔ e ∈ g.constants := by
      intro e
      rw [h.table, if_pos hshare, List.mem_reverse]
    simp only [interned?, if_pos hshare, Option.map_eq_some_iff, true_and]
    constructor
    · rintro ⟨e, hfind, rfl⟩
      have hkey : e.1 = values := by simpa using List.find?_some hfind
      exact hkey ▸ (htable e).1 (List.mem_of_find?_eq_some hfind)
    · intro hmem
      cases hfind : g.interned.find? fun e => e.1 = values with
      | none => simpa using List.find?_eq_none.1 hfind _ ((htable _).2 hmem)
      | some e =>
        have hkey : e.1 = values := by simpa using List.find?_some hfind
        have he := (htable e).1 (List.mem_of_find?_eq_some hfind)
        -- no two constants have the same components
        rw [List.inj_on_of_nodup_map (h.distinct hshare) he hmem hkey]
        exact ⟨_, rfl, rfl⟩

theorem interned?_eq_none_iff (h : g.Tabulated) {values : List α} :
    g.interned? values = none ↔
      (g.settings.internParameters = true → values ∉ g.constants.map Prod.fst) := by
  rw [Option.eq_none_iff_forall_ne_some]
  simp only [ne_eq, h.interned?_eq_some_iff, List.mem_map, Prod.exists, not_and]
  constructor
  · rintro hnone hshare ⟨_, id, hmem, rfl⟩
    exact hnone id hshare hmem
  · exact fun hnone id hshare hmem => hnone hshare ⟨values, id, hmem, rfl⟩

end Tabulated

end Graph

/-! ## Adding nodes -/

section Adding

variable {b : Builder α}

theorem constants_append (b : Builder α) (d : Draft α) :
    (b.append d).graph.constants = b.graph.constants ++ (b.nodeOf d).parameter?.toList := by
  rw [Graph.constants, b.nodes_append, List.filterMap_append, Graph.constants]
  rfl

/-- **Adding any other node** leaves the table as it should be. -/
theorem Graph.Tabulated.append (h : b.graph.Tabulated) {d : Draft α} (hd : d.kind ≠ .parameter) :
    (b.append d).graph.Tabulated := by
  have hnone : (b.nodeOf d).parameter? = none := Node.parameter?_eq_none hd
  have hconstants : (b.append d).graph.constants = b.graph.constants := by
    rw [constants_append, hnone, Option.toList_none, List.append_nil]
  exact ⟨by rw [hconstants]; exact h.table, by rw [hconstants]; exact h.distinct⟩

variable [Scalar α]

/-- The builder with a constant vector added, and recorded where constants are shared. -/
def Builder.addConstant (b : Builder α) (values : List α) : Builder α :=
  let added := b.append (b.graph.draftParameter values)
  if b.graph.settings.internParameters then added.record values b.next else added

theorem addConstant_settings (b : Builder α) (values : List α) :
    (b.addConstant values).graph.settings = b.graph.settings := by
  unfold Builder.addConstant
  dsimp only
  split <;> rfl

theorem addConstant_nodes (b : Builder α) (values : List α) :
    (b.addConstant values).graph.nodes = b.graph.nodes ++
      [b.nodeOf (b.graph.draftParameter values)] := by
  unfold Builder.addConstant
  dsimp only
  split <;> rfl

theorem addConstant_interned (b : Builder α) (values : List α) :
    (b.addConstant values).graph.interned =
      if b.graph.settings.internParameters then (values, b.next) :: b.graph.interned
        else b.graph.interned := by
  unfold Builder.addConstant
  dsimp only
  split <;> rfl

theorem addConstant_constants (b : Builder α) (values : List α) :
    (b.addConstant values).graph.constants = b.graph.constants ++ [(values, b.next)] := by
  rw [Graph.constants, addConstant_nodes, List.filterMap_append]
  rfl

variable [DecidableEq α]

theorem constant_of_some {values : List α} {id : NodeId} (h : b.graph.interned? values = some id) :
    Build.constant values b = .ok id b := by
  rw [Build.constant, h]

theorem constant_of_none {values : List α} (h : b.graph.interned? values = none) :
    Build.constant values b = .ok b.next (b.addConstant values) := by
  rw [Build.constant, h]
  rfl

/-- **A constant is added only if there is no equal one**, so the table stays as it should be. -/
theorem Graph.Tabulated.addConstant (h : b.graph.Tabulated) {values : List α}
    (hnew : b.graph.interned? values = none) : (b.addConstant values).graph.Tabulated := by
  refine ⟨?_, ?_⟩
  · rw [addConstant_interned, addConstant_settings, addConstant_constants,
      List.reverse_concat, h.table]
    split <;> rfl
  · rw [addConstant_settings, addConstant_constants, List.map_append]
    intro hshare
    have hfresh := h.interned?_eq_none_iff.1 hnew hshare
    exact (h.distinct hshare).append (List.nodup_singleton _) (by simpa using hfresh)

end Adding

/-! ## Calls -/

section Calls

/-- A node that is no constant leaves the table as it is. -/
theorem keeps_tabulated_place {draft : Graph α → Except (Error α) (Draft α)}
    (hdraft : ∀ g d, draft g = .ok d → d.kind ≠ .parameter) :
    Action.Keeps (fun b : Builder α => b.graph.Tabulated) (Build.place draft) :=
  keeps_place_of fun b d hb hd => hb.append (hdraft b.graph d hd)

/-- So does a function node. -/
theorem tabulated_function (b : Builder α) (d : Draft α) (f : Application α)
    (hb : b.graph.Tabulated) (hf : d.kind = .function f) : (b.append d).graph.Tabulated :=
  hb.append (hf ▸ nofun)

variable [Scalar α]

theorem keeps_tabulated_declare (v : VariableSpec α) :
    Action.Keeps (fun b : Builder α => b.graph.Tabulated) (Build.declare v) := by
  refine keeps_tabulated_place fun _ d hd => ?_
  obtain ⟨⟨⟩, -, hd⟩ := bind_eq_ok.1 hd
  obtain rfl := Except.ok.inj hd
  exact nofun

theorem keeps_tabulated_matrix (m : Matrix α) :
    Action.Keeps (fun b : Builder α => b.graph.Tabulated) (Build.matrixParameter m) := by
  refine keeps_tabulated_place fun g d hd => ?_
  obtain rfl := Except.ok.inj hd
  exact nofun

variable [DecidableEq α]

theorem keeps_tabulated_constant (values : List α) :
    Action.Keeps (fun b : Builder α => b.graph.Tabulated) (Build.constant values) := by
  intro b hb
  cases h : b.graph.interned? values with
  | some id => rw [Action.after_eq_of_ok (constant_of_some h)]; exact hb
  | none => rw [Action.after_eq_of_ok (constant_of_none h)]; exact hb.addConstant h

theorem keeps_tabulated_parameter (values : List α) :
    Action.Keeps (fun b : Builder α => b.graph.Tabulated) (Build.parameter values) := by
  unfold Build.parameter
  split
  · exact .throw _
  · exact keeps_tabulated_constant values

/-- **Every builder call keeps the table.** -/
theorem keeps_tabulated_call (c : Call α NodeId) :
    Action.Keeps (fun b : Builder α => b.graph.Tabulated) c.run := by
  cases c with
  | taggedVariable | boundedVariable | declare => exact keeps_tabulated_declare _
  | parameter values => exact keeps_tabulated_parameter values
  | scalar v => exact keeps_tabulated_constant [v]
  | ones dimension => exact keeps_tabulated_parameter _
  | matrixParameter m => exact keeps_tabulated_matrix m
  | _ => exact keeps_function_call tabulated_function rfl

/-- **The table persists**, whatever is called. -/
theorem tabulated_persists (calls : List (Call α NodeId)) :
    Graph.Persists calls (Graph.Tabulated (α := α)) where
  empty settings := ⟨by simp [Graph.constants, Graph.nodes], by simp [Graph.constants, Graph.nodes]⟩
  call c _ := keeps_tabulated_call c
  slack := keeps_slack_function tabulated_function
  blank _ _ h heq := h.of_blank_eq heq

end Calls

/-! ## What is answered -/

/-- The components of the constant vector that a call asks for. -/
def Call.constant? {ρ : Type} [One α] : Call α ρ → Option (List α)
  | .parameter values => some values
  | .scalar v => some [v]
  | .ones dimension => some (List.replicate dimension 1)
  | _ => none

/-- **The table is one-to-one.** -/
structure Graph.InternsOneToOne (g : Graph α) : Prop where
  /-- It leads from what every constant vector holds to its handle, and contains nothing else. -/
  entries : g.settings.internParameters = true → ∀ values id, (values, id) ∈ g.interned ↔
    ∃ n ∈ g.nodes, n.kind = .parameter ∧ n.value = values ∧ n.id = id
  /-- Components are listed once, and so are handles. -/
  keys : (g.interned.map Prod.fst).Nodup
  handles : (g.interned.map Prod.snd).Nodup
  /-- No two constant vectors hold the same. -/
  distinct : g.settings.internParameters = true →
    ∀ (i j : Nat) (n m : Node α), g.nodes[i]? = some n →
    g.nodes[j]? = some m → n.kind = .parameter → m.kind = .parameter → n.value = m.value → i = j
  unshared : g.settings.internParameters = false → g.interned = []

/-- **A constant with the given components is answered with a node that is there if and only if
there is an equal one**, and otherwise by adding one node, which is tabulated. -/
structure Builder.AnswersConstant [Scalar α] [DecidableEq α] (b : Builder α) (call : Build α NodeId)
    (values : List α) : Prop where
  /-- A vector without components is refused. -/
  empty : values = [] → call b = .error .emptyParameter b
  found : b.graph.settings.internParameters = true → ∀ n ∈ b.graph.nodes, n.kind = .parameter →
    n.value = values → call b = .ok n.id b
  added : values ≠ [] →
    (b.graph.settings.internParameters = true → ∀ n ∈ b.graph.nodes, n.kind = .parameter →
      n.value ≠ values) →
    ∃ n b', call b = .ok n.id b' ∧ b'.graph.nodes = b.graph.nodes ++ [n] ∧ n.kind = .parameter ∧
      n.value = values ∧ (∀ m ∈ b.graph.nodes, m.id ≠ n.id) ∧
      b'.graph.interned =
      if b.graph.settings.internParameters then (values, n.id) :: b.graph.interned else []
  reused : (∃ n ∈ b.graph.nodes, call.answer b = .ok n.id) ↔
    b.graph.settings.internParameters = true ∧ ∃ n ∈ b.graph.nodes, n.kind = .parameter ∧
    n.value = values

section Answers

variable [Scalar α] {nextId : Nat} {log : List Event} {g : Graph α} {b : Builder α}

/-- The handles of the constants differ, as those of all nodes do. -/
theorem GraphOK.nodup_handles (hg : GraphOK nextId log g) : (g.constants.map Prod.snd).Nodup := by
  rw [List.Nodup, List.pairwise_map, Graph.constants, List.pairwise_filterMap]
  refine hg.arena.ids.imp fun {n m} hlt e he e' he' heq => ?_
  obtain ⟨-, -, hid⟩ := Node.parameter?_eq_some_iff.1 he
  obtain ⟨-, -, hid'⟩ := Node.parameter?_eq_some_iff.1 he'
  rw [hid, hid', heq] at hlt
  exact lt_irrefl _ hlt

theorem Graph.Tabulated.internsOneToOne (h : g.Tabulated) (hg : GraphOK nextId log g) :
    g.InternsOneToOne := by
  have hlisted : g.interned.Sublist g.constants.reverse := by
    rw [h.table]
    split
    · exact .refl _
    · exact List.nil_sublist _
  refine ⟨fun hshare values id => ?_, ?_, ?_, ?_, fun hshare => ?_⟩
  · rw [h.table, if_pos hshare, List.mem_reverse, Graph.mem_constants]
  · rw [h.table]
    split
    · rename_i hshare
      rw [List.map_reverse, List.nodup_reverse]
      exact h.distinct hshare
    · exact List.nodup_nil
  · refine (hlisted.map Prod.snd).nodup ?_
    rw [List.map_reverse, List.nodup_reverse]
    exact hg.nodup_handles
  · intro hshare i j n m hn hm hnk hmk heq
    have hnc := Graph.mem_constants.2 ⟨n, List.mem_of_getElem? hn, hnk, rfl, rfl⟩
    have hmc := Graph.mem_constants.2 ⟨m, List.mem_of_getElem? hm, hmk, rfl, rfl⟩
    have hsame := List.inj_on_of_nodup_map (h.distinct hshare) hnc hmc heq
    exact Increasing.position_unique hg.arena.ids hn hm (congrArg Prod.snd hsame)
  · rw [h.table, hshare]
    rfl

variable [DecidableEq α]

/-- **How a constant with at least one component is answered.** -/
theorem Graph.Tabulated.answersConstant (h : b.graph.Tabulated)
    (hb : GraphOK b.nextId b.log b.graph) {values : List α} (hne : values ≠ []) :
    b.AnswersConstant (Build.constant values) values := by
  have hnew : ∀ m ∈ b.graph.nodes, m.id ≠ b.next := by
    intro m hm heq
    have hlt := hb.issued m hm
    rw [heq] at hlt
    exact lt_irrefl _ hlt
  have hfound : b.graph.settings.internParameters = true →
      ∀ n ∈ b.graph.nodes, n.kind = .parameter →
      n.value = values → Build.constant values b = .ok n.id b := fun hshare n hn hkind hvalue =>
    constant_of_some (h.interned?_eq_some_iff.2 ⟨hshare, Graph.mem_constants.2
      ⟨n, hn, hkind, hvalue, rfl⟩⟩)
  have hadded : (b.graph.settings.internParameters = true →
      ∀ n ∈ b.graph.nodes, n.kind = .parameter →
      n.value ≠ values) → Build.constant values b = .ok b.next (b.addConstant values) := by
    refine fun hnone => constant_of_none (h.interned?_eq_none_iff.2 fun hshare hmem => ?_)
    obtain ⟨⟨values', id⟩, hentry, rfl⟩ := List.mem_map.1 hmem
    obtain ⟨n, hn, hkind, hvalue, -⟩ := Graph.mem_constants.1 hentry
    exact hnone hshare n hn hkind hvalue
  refine ⟨fun hempty => absurd hempty hne, hfound, fun _ hnone => ?_, ?_, ?_⟩
  · refine ⟨b.nodeOf (b.graph.draftParameter values), _, hadded hnone, addConstant_nodes b values,
      rfl, rfl, hnew, ?_⟩
    rw [addConstant_interned, h.table]
    split
    · rfl
    · rfl
  · rintro ⟨n, hn, hanswer⟩
    by_contra hnone
    have hrun := hadded fun hshare m hm hkind hvalue => hnone ⟨hshare, m, hm, hkind, hvalue⟩
    -- the next handle is that of no node
    rw [Action.answer, hrun] at hanswer
    exact hnew n hn (Except.ok.inj hanswer).symm
  · rintro ⟨hshare, n, hn, hkind, hvalue⟩
    exact ⟨n, hn, Action.answer_eq_ok.2 ⟨b, hfound hshare n hn hkind hvalue⟩⟩

/-- A vector without components is refused, and no constant is one. -/
theorem Graph.Tabulated.answersParameter (h : b.graph.Tabulated)
    (hb : GraphOK b.nextId b.log b.graph) (values : List α) :
    b.AnswersConstant (Build.parameter values) values := by
  unfold Build.parameter
  by_cases hempty : values = []
  · subst hempty
    have hnone : ∀ n ∈ b.graph.nodes, n.kind = .parameter → n.value ≠ [] := by
      intro n hn hkind hvalue
      obtain ⟨i, hi⟩ := List.mem_iff_getElem?.1 hn
      have hnode := hb.nodes i n hi
      rw [NodeOK, hkind] at hnode
      have hpos : 0 < n.value.length := hnode.1
      rw [hvalue] at hpos
      exact lt_irrefl _ hpos
    refine ⟨fun _ => rfl, fun _ n hn hkind hvalue => absurd hvalue (hnone n hn hkind),
      fun hne => absurd rfl hne, ?_, ?_⟩
    · rintro ⟨n, -, hanswer⟩
      cases hanswer
    · rintro ⟨-, n, hn, hkind, hvalue⟩
      exact absurd hvalue (hnone n hn hkind)
  · rw [if_neg (by simpa using hempty)]
    exact h.answersConstant hb hempty

/-- **The table of every reachable graph is one-to-one, and constants are answered from it.** Let
any commands be carried out, evaluations and copies among them. Where constants are shared, the
table leads from what each constant vector holds to its handle, contains nothing else, and no two
constants hold the same; so a constant is answered with a node that is there if and only if there is
an equal one, and by adding one node otherwise. Where they are not, the table is empty and every
constant is added. -/
theorem constants_are_interned (commands : List (Command α NodeId)) {g : Nat} {b : Builder α}
    (hb : (Session.runAll commands {}).builder? g = some b) :
    b.graph.InternsOneToOne ∧
      ∀ (c : Call α NodeId) (values : List α), c.constant? = some values →
        b.AnswersConstant c.run values := by
  obtain ⟨G, hG, rfl⟩ := Option.map_eq_some_iff.1 hb
  have hok := graphOK_runAll hG
  have htable := (tabulated_persists _).of_runAll hG
  refine ⟨htable.internsOneToOne hok, fun c values hc => ?_⟩
  cases c with
  | parameter values => cases hc; exact htable.answersParameter hok values
  | scalar v => cases hc; exact htable.answersConstant hok (List.cons_ne_nil v [])
  | ones dimension => cases hc; exact htable.answersParameter hok _
  | _ => cases hc

/-- Zero, minus zero and no number as constants, each asked for twice, in a graph that is then
copied; and one in a graph that shares no constants. -/
def zeroCommands : List (Command Float NodeId) :=
  [.newGraph {}, .graph 0 (.build (.scalar 0)), .graph 0 (.build (.parameter [-0])),
    .graph 0 (.build (.parameter [0 / 0])), .graph 0 (.build (.scalar 0)),
    .graph 0 (.build (.parameter [-0])), .graph 0 (.build (.scalar (0 / 0))), .graph 0 .duplicate,
    .newGraph { internParameters := false }, .graph 2 (.build (.scalar 1))]

/-- The copy answers minus zero and no number with the nodes it took over, each under its own
handle; where constants are not shared, one is added once more. -/
theorem constants_are_interned_zero :
    ∃ b b' n b'', (Session.runAll zeroCommands {}).builder? 1 = some b ∧
    Build.scalar (-0) b = .ok ⟨2⟩ b ∧ Build.parameter [0 / 0] b = .ok ⟨3⟩ b ∧
    (Session.runAll zeroCommands {}).builder? 2 = some b' ∧ Build.ones 1 b' = .ok n.id b'' ∧
    b''.graph.nodes = b'.graph.nodes ++ [n] := by
  obtain ⟨b, hb, hshare, ⟨n, hn, hkind, hvalue, hid⟩, m, hm, hmkind, hmvalue, hmid⟩ :
      ∃ b, (Session.runAll zeroCommands {}).builder? 1 = some b ∧
      b.graph.settings.internParameters = true ∧
        (∃ n ∈ b.graph.nodes, n.kind = .parameter ∧ n.value = [-0] ∧ n.id = ⟨2⟩) ∧
        ∃ m ∈ b.graph.nodes, m.kind = .parameter ∧ m.value = [0 / 0] ∧ m.id = ⟨3⟩ :=
    ⟨((Session.runAll zeroCommands {}).builder? 1).getD ⟨{}, 0, []⟩, by decide +kernel⟩
  obtain ⟨b', hb', hshare'⟩ : ∃ b', (Session.runAll zeroCommands {}).builder? 2 = some b' ∧
      b'.graph.settings.internParameters = false :=
    ⟨((Session.runAll zeroCommands {}).builder? 2).getD ⟨{}, 0, []⟩, by decide +kernel⟩
  have hcopy := (constants_are_interned zeroCommands hb).2
  have hminus := (hcopy (.scalar (-0)) _ rfl).found hshare n hn hkind hvalue
  have hnan := (hcopy (.parameter [0 / 0]) _ rfl).found hshare m hm hmkind hmvalue
  have hsecond := ((constants_are_interned zeroCommands hb').2 (.ones 1) _ rfl).added (by simp)
  obtain ⟨k, b'', hrun, hnodes, -⟩ := hsecond fun hcontra => by
    rw [hshare'] at hcontra; cases hcontra
  exact ⟨b, b', k, b'', hb, hid ▸ hminus, hmid ▸ hnan, hb', hrun, hnodes⟩

end Answers

end MixedMonotone
