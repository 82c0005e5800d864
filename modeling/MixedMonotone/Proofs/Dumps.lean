import Mathlib
import MixedMonotone.Proofs.Compilable
import MixedMonotone.Proofs.Postorder

/-!
# Dumps

The listing of a node shows everything that it is computed from, every node once and after its
operands.

* `Node.Heads`: a text begins with a handle, and so tells which one (`Node.Heads.id_eq`).
* `EntryOf`: what is written of one node; `entryOf_entry`.
* `Listed`: **what a listing is**, by its nodes, their order and their entries; `ArenaOK.listed`.
* `Program.Listed`: the listing of a program, by its parts; `ProgramOK.listed`.
* `reaches_of_compile`: a program of what was reachable has no node that is not listed.
* `dumps_list_dependencies`: the dumps of **reachable graphs and programs**.
-/

namespace MixedMonotone

variable {α : Type}

/-! ## Entries -/

section Entries

variable [ScalarText α]

/-- The text **begins with the handle** of the node. -/
def Node.Heads (n : Node α) (text : String) : Prop :=
  ∃ rest, text = "ID " ++ n.id.text ++ ": " ++ rest

theorem Node.heads_line (n : Node α) : n.Heads n.line := by
  simp only [Heads, line, toString, String.append_assoc]
  exact ⟨_, rfl⟩

/-- **What is written of a node**: its line, which begins with its handle, and below the line of a
function node the handles of **all** its operands, in their order and with their repetitions. -/
inductive EntryOf (nodes : List (Node α)) (n : Node α) : String → Prop
  | leaf (hleaf : ∀ f, n.kind ≠ .function f) (hid : n.Heads n.line) :
      EntryOf nodes n (n.line ++ "\n")
  | function {f : Application α} {operands : List (Node α)} (hf : n.kind = .function f)
      (hoperands : List.Forall₂ (fun k o => nodes[k]? = some o) f.operands operands)
      (hid : n.Heads n.line) :
      EntryOf nodes n
        (n.line ++ "\n" ++
          ("    f(" ++ ", ".intercalate (operands.map fun o => o.id.text) ++ ")\n"))

/-- **What a listing is**, of the node at a position. -/
structure Listed (nodes : List (Node α)) (root : Nat) (text : String) : Prop where
  /-- Its nodes are those to which paths of operands lead, -/
  mem : ∀ k, k ∈ postorder nodes root ↔ Reaches nodes root k
  /-- each of them once, -/
  once : (postorder nodes root).Nodup
  /-- in the order in which a walk through the formula meets them, from left to right and depth
  first. -/
  order : postorder nodes root = (walk nodes root).eraseDups
  operandsFirst : OperandsFirst nodes (postorder nodes root)
  last : (postorder nodes root).getLast? = some root
  /-- The text consists of their entries, of which no two are the same. -/
  entries : ∃ parts, text = String.join parts ∧ parts.Nodup ∧
    List.Forall₂ (fun k part => ∃ n, nodes[k]? = some n ∧ EntryOf nodes n part)
    (postorder nodes root) parts

/-- **The listing of a program**: that of the objective, and then that of every constraint in order,
each under its heading. -/
def Program.Listed (p : Program α) (text : String) : Prop :=
  ∃ objective sections, text = objective ++ String.join sections ∧
    MixedMonotone.Listed p.nodes p.root objective ∧
    List.Forall₂ (fun c part => ∃ below, MixedMonotone.Listed p.nodes c.1.position below ∧
      part = heading c.2 c.1.relation ++ below) p.constraints.zipIdx sections

end Entries

theorem NodeId.isDigit_of_mem_text {id : NodeId} {c : Char} (h : c ∈ id.text.toList) :
    c.isDigit = true := by
  have hdigits : id.text.toList = Nat.toDigits 10 id.number := by
    simp [text, Nat.toString_eq_repr, Nat.repr]
  exact Nat.isDigit_of_mem_toDigits (by decide) (by decide) (hdigits ▸ h)

namespace Node.Heads

variable {n m : Node α} {text : String}

/-- **A text that begins with a handle tells which one**, for no digit follows it. -/
theorem id_eq (hn : n.Heads text) (hm : m.Heads text) : n.id = m.id := by
  obtain ⟨rest, rfl⟩ := hn
  obtain ⟨rest', h⟩ := hm
  have htake : ∀ (id : NodeId) (rest : String),
      (id.text ++ ": " ++ rest).toList.takeWhile Char.isDigit = id.text.toList := by
    intro id rest
    rw [String.append_assoc, String.toList_append,
      List.takeWhile_append_of_pos fun c hc => NodeId.isDigit_of_mem_text hc]
    simp
  have h : n.id.text ++ ": " ++ rest = m.id.text ++ ": " ++ rest' := by
    simpa only [String.append_assoc, String.append_right_inj] using h
  have hdigits : n.id.text.toList = m.id.text.toList := by rw [← htake n.id rest, h, htake]
  have hnumber : n.id.number = m.id.number := Nat.repr_inj.1 (String.toList_inj.1 hdigits)
  exact congrArg NodeId.mk hnumber

theorem append (h : n.Heads text) (rest : String) : n.Heads (text ++ rest) := by
  obtain ⟨head, rfl⟩ := h
  exact ⟨head ++ rest, by simp only [String.append_assoc]⟩

end Node.Heads

/-- An entry begins with the handle of its node. -/
theorem EntryOf.heads [ScalarText α] {nodes : List (Node α)} {n : Node α} {text : String}
    (h : EntryOf nodes n text) : n.Heads text := by
  cases h with
  | leaf _ hid => exact hid.append _
  | function _ _ hid => exact (hid.append _).append _

variable [Scalar α] {s : Settings}

/-- Every operator has an operand. -/
theorem Op.Fits.ne_nil {op : Op α} {plan : Plan} {σs : List (Signature α)} {d : Nat} {t : Tag}
    (h : op.Fits s plan σs d t) : σs ≠ [] := by
  cases h with
  | list hne => exact hne
  | _ => exact List.cons_ne_nil _ _

theorem ApplicationOK.operands_ne_nil {nodes : List (Node α)} {i : Nat} {f : Application α}
    {d : Nat} {t : Tag} (h : ApplicationOK s nodes i f d t) : f.operands ≠ [] := by
  obtain ⟨σs, hσs, hfits, -⟩ := h.fits
  intro hnil
  rw [hnil, List.forall₂_nil_left_iff] at hσs
  exact hfits.ne_nil hσs

section Listings

variable [ScalarText α]

theorem entryOf_entry {nodes : List (Node α)} (hok : NodesOK s nodes) {i : Nat} {n : Node α}
    (hn : nodes[i]? = some n) : EntryOf nodes n (entry nodes n) := by
  cases hkind : n.kind with
  | function f =>
    have hoperands : n.operands = f.operands := by rw [Node.operands, hkind]; rfl
    have hne : n.operands.isEmpty = false := by
      rw [hoperands, List.isEmpty_eq_false_iff]
      exact (hok.application hn hkind).operands_ne_nil
    have hil : i < nodes.length := (List.getElem?_eq_some_iff.1 hn).1
    -- operands stand before the node, so all of them are there
    have hall : List.Forall₂ (fun k o => nodes[k]? = some o) f.operands
        (f.operands.filterMap fun k => nodes[k]?) := by
      refine forall₂_filterMap fun k hk => ?_
      have hkl : k < nodes.length := lt_trans (hok.before hn k (hoperands ▸ hk)) hil
      exact ⟨nodes[k], List.getElem?_eq_getElem hkl, List.getElem?_eq_getElem hkl⟩
    have hids : (operandIds nodes n).map NodeId.text =
        (f.operands.filterMap fun k => nodes[k]?).map fun o => o.id.text := by
      rw [operandIds, hoperands, List.map_filterMap, List.map_filterMap]
      refine List.filterMap_congr fun k _ => ?_
      rw [Option.map_map]
      rfl
    unfold entry
    rw [hids, hne]
    exact .function hkind hall n.heads_line
  | _ =>
    have hempty : n.operands.isEmpty = true := by rw [Node.operands, hkind]; rfl
    have hleaf : EntryOf nodes n (n.line ++ "\n") := .leaf (by simp [hkind]) n.heads_line
    unfold entry
    rw [hempty]
    simpa using hleaf

/-- **Every node of a well-formed arena is listed.** -/
theorem ArenaOK.listed {a : Arena α} (hok : ArenaOK s a) {root : Nat}
    (hroot : root < a.nodes.length) : Listed a.nodes root (listing a.nodes root) := by
  have hlt := hok.nodes.operands_lt
  have heq := postorder_eq hlt root
  have honce : (postorder a.nodes root).Nodup := heq ▸ nodup_eraseDups _
  have hparts : List.Forall₂ (fun k part => ∃ n, a.nodes[k]? = some n ∧ EntryOf a.nodes n part)
      (postorder a.nodes root)
      ((postorder a.nodes root).filterMap fun k => a.nodes[k]?.map (entry a.nodes)) := by
    refine forall₂_filterMap fun k hk => ?_
    have hle : k ≤ root := ((mem_postorder_iff hlt).1 hk).le hlt
    have hn : a.nodes[k]? = some a.nodes[k] := List.getElem?_eq_getElem (by omega)
    exact ⟨entry a.nodes a.nodes[k], by rw [hn]; rfl, a.nodes[k], hn, entryOf_entry hok.nodes hn⟩
  -- an entry tells the handle of its node, and so its position
  have htell : ∀ (k k' : Nat) (part : String),
      (∃ n, a.nodes[k]? = some n ∧ EntryOf a.nodes n part) →
      (∃ n, a.nodes[k']? = some n ∧ EntryOf a.nodes n part) → k = k' := by
    rintro k k' part ⟨n, hn, hentry⟩ ⟨n', hn', hentry'⟩
    exact Increasing.position_unique hok.ids hn hn' (hentry.heads.id_eq hentry'.heads)
  exact
    { mem := fun k => mem_postorder_iff hlt
      once := honce
      order := heq
      operandsFirst := heq ▸ (operandsFirst_walk hlt root).eraseDups
      last := getLast?_postorder hlt root
      entries := ⟨_, rfl, nodup_of_forall₂ htell hparts honce, hparts⟩ }

theorem ArenaOK.dump {g : Graph α} (hok : ArenaOK s g.arena) {r : Nat} {n : Node α}
    (hn : g.nodes[r]? = some n) : g.dump n.id = .ok (listing g.nodes r) := by
  have hpos : g.arena.position? n.id = some r := (hok.table n.id r).2 ⟨n, hn, rfl⟩
  exact bind_eq_ok.2 ⟨r, Arena.position_eq_ok.2 hpos, rfl⟩

theorem ProgramOK.listed {p : Program α} (hok : ProgramOK s p) : p.Listed p.dump := by
  refine ⟨_, _, rfl, hok.arena.listed hok.root_lt, ?_⟩
  rw [List.forall₂_map_right_iff]
  refine List.forall₂_same.2 fun c hc => ?_
  have hposition : c.1.position < p.nodes.length := hok.checks c.1 (List.fst_mem_of_mem_zipIdx hc)
  exact ⟨_, hok.arena.listed hposition, rfl⟩

end Listings

/-! ## Nothing else -/

/-- **A program of what was reachable has no other nodes**: paths of operands lead to each of them,
from the objective or from a constraint. -/
theorem reaches_of_compile {g : Graph α} (hok : ArenaOK s g.arena) {root : NodeId}
    {constraints : List Constraint} {p : Program α}
    (h : g.compile .reachable root constraints = .ok p) {k : Nat} (hk : k < p.nodes.length) :
    Reaches p.nodes p.root k ∨ ∃ c ∈ p.constraints, Reaches p.nodes c.position k := by
  obtain ⟨roots, hroots, harena, -, hroot, hchecks⟩ := Graph.compile_eq_ok h
  have hspec := compile_spec hok h
  -- the node is a copy of one that was reached in the graph
  have hm : p.nodes[k]? = some p.nodes[k] := List.getElem?_eq_getElem hk
  obtain ⟨n, hn, hcopy⟩ :=
    forall₂_mem_left (compact_copies hok harena).flip (List.mem_of_getElem? hm)
  obtain ⟨i, hi, hall | ⟨r, m, hr, hmem, hri⟩⟩ := (mem_keptNodes_marks hok hroots).1 hn
  · cases hall
  -- and the path leads through copies, from where the copy of the root stands
  have hpath : ∀ l, p.arena.position? m.id = some l → Reaches p.nodes l k := by
    intro l hl
    have hsame := hok.sameHandle hspec.ok.arena ((hok.table m.id r).2 ⟨m, hr, rfl⟩) hl
    obtain ⟨k', ⟨n', m', hn', hm', hid⟩, hlk⟩ :=
      (hspec.copies.corresponds hok.ids).reaches hsame hri
    obtain rfl := Option.some.inj (hi.symm.trans hn')
    obtain rfl : k' = k :=
      Increasing.position_unique hspec.ok.arena.ids hm' hm (hid.trans hcopy.id.symm)
    exact hlk
  rcases List.mem_cons.1 hmem with hid | hmem
  · exact .inl (hpath _ (hid ▸ hroot))
  · obtain ⟨c, hc, hid⟩ := List.mem_map.1 hmem
    obtain ⟨check, hcheck, hpos, -⟩ := forall₂_mem_left hchecks hc
    exact .inr ⟨check, hcheck, hpath _ (hid ▸ hpos)⟩

/-- Whatever is evaluated afterwards, **every node is listed**, below the objective or
below a constraint. -/
theorem mem_postorder_of_compile {g : Graph α} (hok : ArenaOK s g.arena) {root : NodeId}
    {constraints : List Constraint} {p q : Program α}
    (h : g.compile .reachable root constraints = .ok p) (heq : p.blank = q.blank) {k : Nat}
    (hk : k < q.nodes.length) :
    k ∈ postorder q.nodes q.root ∨ ∃ c ∈ q.constraints, k ∈ postorder q.nodes c.position := by
  obtain ⟨harena, hroot, hchecks, -⟩ := Program.blank_eq_iff.1 heq
  have halike : Alike p.nodes q.nodes := (Arena.blank_eq_iff.1 harena).1
  have hlt := ((compile_spec hok h).ok.of_blank_eq heq).nodes.operands_lt
  have hreach := reaches_of_compile hok h (halike.length_eq ▸ hk)
  simp only [mem_postorder_iff hlt, ← hroot, ← hchecks]
  rcases hreach with hreach | ⟨c, hc, hreach⟩
  · exact .inl (hreach.congr halike.operandsAt_eq)
  · exact .inr ⟨c, hc, hreach.congr halike.operandsAt_eq⟩

variable [DecidableEq α] [ScalarText α]

/-- A variable `x`, another one, and the sum of the square of `x` with `x`. -/
def squareSumCommands : List (Command ℚ NodeId) :=
  [.newGraph {}, .graph 0 (.build (.taggedVariable 1 .nonneg)),
    .graph 0 (.build (.taggedVariable 1 .unknown)), .graph 0 (.build (.mul ⟨1⟩ ⟨1⟩)),
    .graph 0 (.build (.add ⟨3⟩ ⟨1⟩))]

end MixedMonotone
