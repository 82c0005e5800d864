import Mathlib
import MixedMonotone.Session.Script
import MixedMonotone.Proofs.Pace

/-!
# Renaming handles

A function on the numbers of handles renames whatever has handles in it.

* `NodeId.rename`, …, `Model.rename`, `Script.Outcome.rename`: the data with **all handles
  replaced, and nothing else**.
* `exists_follows`: there is a function that follows a correspondence in which no
  handle corresponds to two.
* `Model.Renamed.eq_rename` and its kin: data whose handles correspond are renamed by every function
  that follows the correspondence.
* `Error.messageAs`, `Graph.dumpAs`, `Program.dumpAs`: the texts, with **handles
  written in any other way**.
* `Model.Renamed.dumps_eq`: the listings are the same texts but for how handles are written.
-/

namespace MixedMonotone

variable {α : Type}

/-! ## Data -/

section Data

variable (f : Nat → Nat)

/-- The handle with another number. -/
def NodeId.rename (id : NodeId) : NodeId := ⟨f id.number⟩

/-- The error with its handles renamed. -/
def Error.rename : Error α → Error α
  | matrixOperand id => .matrixOperand (id.rename f)
  | notAMatrix id => .notAMatrix (id.rename f)
  | unknownNode id => .unknownNode (id.rename f)
  | notScalar id dimension => .notScalar (id.rename f) dimension
  | operandLeftOut node operand => .operandLeftOut (node.rename f) (operand.rename f)
  | e => e

/-- The node with its handle renamed. -/
def Node.rename (n : Node α) : Node α := { n with id := n.id.rename f }

/-- The arena with its handles renamed, those in the table included. -/
def Arena.rename (a : Arena α) : Arena α where
  nodes := a.nodes.map (Node.rename f)
  positions := a.positions.map fun p => (p.1.rename f, p.2)

/-- The graph with its handles renamed, those of shared constants included. -/
def Graph.rename (g : Graph α) : Graph α :=
  { g with arena := g.arena.rename f, interned := g.interned.map fun e => (e.1, e.2.rename f) }

/-- The program with its handles renamed. -/
def Program.rename (p : Program α) : Program α := { p with arena := p.arena.rename f }

/-- The graph and its programs with their handles renamed. -/
def Model.rename (m : Model α) : Model α where
  graph := m.graph.rename f
  programs := m.programs.map (Program.rename f)

/-- The answer with its handle renamed. -/
def Reply.rename : Reply α → Reply α
  | node id => .node (id.rename f)
  | constraint c => .constraint ⟨c.node.rename f, c.relation⟩
  | r => r

/-- What became of a step, with the handles renamed. -/
def Script.Outcome.rename : Outcome α → Outcome α
  | answered r => .answered (r.rename f)
  | refused e => .refused (e.rename f)
  | unresolved => .unresolved

end Data

/-! ## Following a correspondence -/

/-- The function takes every handle to the one that corresponds to it. -/
def Follows (f : Nat → Nat) (H : NodeId → NodeId → Prop) : Prop :=
  ∀ id id', H id id' → id' = id.rename f

/-- There is such a function if no handle corresponds to two. -/
theorem exists_follows {H : NodeId → NodeId → Prop} (h : ∀ id a b, H id a → H id b → a = b) :
    ∃ f, Follows f H := by
  have hnumber : ∀ i : Nat, ∃ j : Nat, ∀ a, H ⟨i⟩ a → a = ⟨j⟩ := by
    intro i
    by_cases hi : ∃ a, H ⟨i⟩ a
    · obtain ⟨b, hb⟩ := hi
      exact ⟨b.number, fun a ha => h ⟨i⟩ a b ha hb⟩
    · exact ⟨0, fun a ha => absurd ⟨a, ha⟩ hi⟩
  choose f hf using hnumber
  exact ⟨f, fun id a ha => hf id.number a ha⟩

section Follows

variable {f : Nat → Nat} {H I : NodeId → NodeId → Prop} (hf : Follows f H)

/-- The error with the handles given. -/
def Error.withHandles : Error α → List NodeId → Error α
  | matrixOperand _, [id] => .matrixOperand id
  | notAMatrix _, [id] => .notAMatrix id
  | unknownNode _, [id] => .unknownNode id
  | notScalar _ dimension, [id] => .notScalar id dimension
  | operandLeftOut _ _, [node, operand] => .operandLeftOut node operand
  | e, _ => e

theorem Error.anonymous_withHandles (e : Error α) : e.anonymous.withHandles e.handles = e := by
  cases e <;> rfl

theorem Error.rename_eq_withHandles (e : Error α) :
    e.rename f = e.anonymous.withHandles (e.handles.map (NodeId.rename f)) := by
  cases e <;> rfl

include hf

theorem Follows.map_eq {ids ids' : List NodeId} (h : List.Forall₂ H ids ids') :
    ids' = ids.map (NodeId.rename f) := by
  have hmap : ids.map (NodeId.rename f) = ids'.map id :=
    map_eq_of_forall₂ h fun a a' ha => (hf a a' ha).symm
  rw [hmap, List.map_id]

theorem Error.Renamed.eq_rename {e e' : Error α} (h : e.Renamed H e') : e' = e.rename f := by
  rw [e.rename_eq_withHandles, ← hf.map_eq h.handles, ← h.anonymous, e'.anonymous_withHandles]

theorem Node.Twin.eq_rename {n n' : Node α} (h : n.Twin n') (hid : H n.id n'.id) :
    n' = n.rename f := by
  have hhandle := hf _ _ hid
  obtain ⟨htag, hkind, hvalue⟩ := h
  cases n'
  dsimp only at htag hkind hvalue hhandle
  rw [htag, hkind, hvalue, hhandle]
  rfl

theorem Arena.Renamed.eq_rename {a a' : Arena α} (h : a.Renamed H a') : a' = a.rename f := by
  have hnodes : a'.nodes = a.nodes.map (Node.rename f) := by
    refine List.ext_getElem? fun i => ?_
    have hat := h.getElem? i
    rw [List.getElem?_map]
    generalize a.nodes[i]? = x, a'.nodes[i]? = x' at hat
    cases hat with
    | none => rfl
    | some hn => rw [Option.map_some, hn.1.eq_rename hf hn.2]
  have hpositions : a.positions.map (fun p => (p.1.rename f, p.2)) = a'.positions.map id :=
    map_eq_of_forall₂ h.positions fun p q hpq => by rw [← hf _ _ hpq.1, ← hpq.2, id]
  rw [List.map_id] at hpositions
  obtain ⟨nodes', positions'⟩ := a'
  rw [Arena.rename, hpositions, ← hnodes]

theorem Graph.Renamed.eq_rename {g g' : Graph α} (h : g.Renamed H g') : g' = g.rename f := by
  have hinterned : g.interned.map (fun e => (e.1, e.2.rename f)) = g'.interned.map id :=
    map_eq_of_forall₂ h.interned fun e e' he => by rw [← hf _ _ he.2, ← he.1, id]
  rw [List.map_id] at hinterned
  have harena := h.arena.eq_rename hf
  have hsettings := h.settings
  obtain ⟨settings', arena', interned'⟩ := g'
  rw [Graph.rename, hinterned, ← harena, ← hsettings]

theorem Program.Renamed.eq_rename {p p' : Program α} (h : p.Renamed H p') : p' = p.rename f := by
  obtain ⟨harena, hroot, hconstraints, hinput, hzero⟩ := h
  have hrenamed := harena.eq_rename hf
  obtain ⟨arena', root', constraints', inputDimension', zeroRule'⟩ := p'
  rw [Program.rename, ← hrenamed, ← hroot, ← hconstraints, ← hinput, ← hzero]

theorem Reply.Renamed.eq_rename {r r' : Reply α} (h : r.Renamed H r') : r' = r.rename f := by
  cases h with
  | node h => rw [Reply.rename, hf _ _ h]
  | @constraint c c' h =>
    have hnode := hf _ _ h.node
    have hrelation := h.relation
    obtain ⟨node', relation'⟩ := c'
    rw [Reply.rename, ← hnode, ← hrelation]
  | same r hid =>
    cases r with
    | node | constraint => cases hid
    | _ => rfl

end Follows

/-! ## Models and outcomes -/

/-- **The same graph with the same programs**, under corresponding handles. -/
structure Model.Renamed (H : NodeId → NodeId → Prop) (m m' : Model α) : Prop where
  graph : m.graph.Renamed H m'.graph
  programs : List.Forall₂ (Program.Renamed H) m.programs m'.programs

/-- **The same became of a step**, with corresponding handles. -/
inductive Script.Outcome.Renamed (H : NodeId → NodeId → Prop) : Outcome α → Outcome α → Prop
  | answered {r r' : Reply α} (h : r.Renamed H r') : Renamed H (.answered r) (.answered r')
  | refused {e e' : Error α} (h : e.Renamed H e') : Renamed H (.refused e) (.refused e')
  | unresolved : Renamed H .unresolved .unresolved

section Outcomes

open Script

variable {f : Nat → Nat} {H I : NodeId → NodeId → Prop} {m m' : Model α} {o o' : Outcome α}

theorem Model.Renamed.mono (h : m.Renamed H m') (hHI : H ≤ I) : m.Renamed I m' :=
  ⟨h.graph.mono hHI, h.programs.imp fun _ _ hp => hp.mono hHI⟩

theorem Model.Renamed.eq_rename (hf : Follows f H) (h : m.Renamed H m') : m' = m.rename f := by
  have hprograms : m.programs.map (Program.rename f) = m'.programs.map id :=
    map_eq_of_forall₂ h.programs fun p p' hp => (hp.eq_rename hf).symm
  rw [List.map_id] at hprograms
  have hgraph := h.graph.eq_rename hf
  obtain ⟨graph', programs'⟩ := m'
  rw [Model.rename, hprograms, ← hgraph]

theorem Session.Renamed.model {s s' : Session α} {g : Nat} (h : Session.Renamed g H s s') :
    Option.Rel (Model.Renamed H) s.models[g]? s'.models[g]? := by
  obtain ⟨m, m', hm, hm', hb, hprograms⟩ := h
  rw [hm, hm']
  exact .some ⟨hb.graph.toRenamed, hprograms⟩

theorem Session.Renamed.aligned {s s' : Session α} {g : Nat} (h : Session.Renamed g H s s') :
    Aligned H := by
  obtain ⟨_, _, _, _, hb, _⟩ := h
  exact hb.aligned

theorem Reply.Renamed.mono {r r' : Reply α} (h : r.Renamed H r') (hHI : H ≤ I) :
    r.Renamed I r' := by
  cases h with
  | node h => exact .node (hHI _ _ h)
  | constraint h => exact .constraint ⟨hHI _ _ h.node, h.relation⟩
  | same r hid => exact .same r hid

theorem Script.Outcome.Renamed.mono (h : o.Renamed H o') (hHI : H ≤ I) : o.Renamed I o' := by
  cases h with
  | answered h => exact .answered (h.mono hHI)
  | refused h => exact .refused ⟨h.anonymous, h.handles.imp hHI⟩
  | unresolved => exact .unresolved

theorem Script.Outcome.Renamed.eq_rename (hf : Follows f H) (h : o.Renamed H o') :
    o' = o.rename f := by
  cases h with
  | answered h => rw [Outcome.rename, h.eq_rename hf]
  | refused h => rw [Outcome.rename, h.eq_rename hf]
  | unresolved => rfl

/-- The handles that a step has answered correspond. -/
theorem Script.Outcome.Renamed.id? (h : o.Renamed H o') : Option.Rel H o.id? o'.id? := by
  cases h with
  | answered h =>
    cases h with
    | node h => exact .some h
    | constraint h => exact .some h.node
    | same _ hid =>
      simp only [Outcome.id?, hid]
      exact .none
  | refused | unresolved => exact .none

/-- References to steps of which the same became are looked up alike. -/
theorem Script.rel_lookup_renamed {outcomes outcomes' : List (Outcome α)}
    (h : List.Forall₂ (Outcome.Renamed H) outcomes outcomes') (step : Nat) :
    Option.Rel H (lookup outcomes step) (lookup outcomes' step) :=
  rel_bind (forall₂_rel_getElem? h step) fun _ _ ho => ho.id?

end Outcomes

/-! ## Texts -/

section Texts

variable [ScalarText α] (write : NodeId → String)

/-- The wording of an error, with handles written in the given way. -/
def Error.messageAs : Error α → String
  | matrixOperand id =>
    s!"Matrix parameter {write id} can only be the left operand of a matrix-vector product"
  | notAMatrix id => s!"Node {write id} is not a matrix parameter"
  | unknownNode id => s!"Unknown node {write id}"
  | notScalar id dimension =>
    s!"Domain error: node {write id} has dimension {dimension}, expected a scalar"
  | operandLeftOut node operand =>
    s!"Compaction failed: operand {write operand} of node {write node} is not in the compacted graph"
  | e => e.message

/-- The listing of a node in one line, with its handle written in the given way. -/
def Node.lineAs (n : Node α) : String :=
  let content := match n.matrix? with
    | some m => m.text
    | none => "[" ++ ", ".intercalate (n.value.map ScalarText.threePlaces) ++ "]"
  s!"ID {write n.id}: {n.name} (dim={n.dimension}, tag={n.tag.abbreviation}): " ++ content

/-- The entry of one node, with handles written in the given way. -/
def entryAs (nodes : List (Node α)) (n : Node α) : String :=
  let operands := ", ".intercalate ((operandIds nodes n).map write)
  n.lineAs write ++ "\n" ++ if n.operands.isEmpty then "" else s!"    f({operands})\n"

/-- The listing of a node and of everything below it, with handles written in the given way. -/
def listingAs (nodes : List (Node α)) (root : Nat) : String :=
  String.join ((postorder nodes root).filterMap fun i => nodes[i]?.map (entryAs write nodes))

/-- The listing of a node of a graph, with handles written in the given way. -/
def Graph.dumpAs (g : Graph α) (id : NodeId) : Except (Error α) String := do
  return listingAs write g.nodes (← g.arena.position id)

/-- The listing of a program, with handles written in the given way. -/
def Program.dumpAs (p : Program α) : String :=
  listingAs write p.nodes p.root ++ String.join (p.constraints.zipIdx.map fun (c, index) =>
    heading index c.relation ++ listingAs write p.nodes c.position)

/-- The listings of all nodes of the graph and of all its programs. A listing is missing where
none is answered. -/
def Model.dumps (m : Model α) : List (Option String) :=
  m.graph.nodes.map (fun n => (m.graph.dump n.id).toOption) ++ m.programs.map fun p => some p.dump

/-- These listings, with handles written in the given way. -/
def Model.dumpsAs (m : Model α) : List (Option String) :=
  m.graph.nodes.map (fun n => (m.graph.dumpAs write n.id).toOption) ++ m.programs.map fun p =>
    some (p.dumpAs write)

/-- The wording of a refusal. -/
def Script.Outcome.message? : Outcome α → Option String
  | refused e => some e.message
  | _ => none

/-- The wording of a refusal, with handles written in the given way. -/
def Script.Outcome.messageAs? : Outcome α → Option String
  | refused e => some (e.messageAs write)
  | _ => none

theorem Model.dumpsAs_text (m : Model α) : m.dumpsAs NodeId.text = m.dumps := rfl

theorem Script.Outcome.messageAs?_text (o : Outcome α) : o.messageAs? NodeId.text = o.message? := by
  cases o with
  | refused e => cases e <;> rfl
  | _ => rfl

end Texts

section Renamed

variable (f : Nat → Nat)

/-- The number to which a handle is renamed, as it is written. -/
def renamedText (id : NodeId) : String := (id.rename f).text

theorem operandsAt_rename (nodes : List (Node α)) :
    operandsAt (nodes.map (Node.rename f)) = operandsAt nodes := by
  funext i
  unfold operandsAt
  rw [List.getElem?_map, Option.map_map]
  rfl

theorem operandIds_rename (nodes : List (Node α)) (n : Node α) :
    operandIds (nodes.map (Node.rename f)) (n.rename f) = (operandIds nodes n).map
      (NodeId.rename f) := by
  unfold operandIds
  rw [List.map_filterMap]
  refine List.filterMap_congr fun i _ => ?_
  rw [List.getElem?_map, Option.map_map, Option.map_map]
  rfl

/-- The nodes are listed in the same order. -/
theorem postorderBelow_rename (nodes : List (Node α)) (n : Nat) :
    postorderBelow (nodes.map (Node.rename f)) n = postorderBelow nodes n := by
  induction n with
  | zero => rfl
  | succ n ih =>
    funext order i
    rw [postorderBelow, postorderBelow, ih, operandsAt_rename]

variable [ScalarText α]

theorem Error.message_rename (e : Error α) :
    (e.rename f).message = e.messageAs (renamedText f) := by
  cases e <;> rfl

/-- **A listing names the handles, and does not depend on them otherwise.** -/
theorem listing_rename (nodes : List (Node α)) (root : Nat) :
    listing (nodes.map (Node.rename f)) root = listingAs (renamedText f) nodes root := by
  have hentry : ∀ n : Node α, entry (nodes.map (Node.rename f)) (n.rename f) =
      entryAs (renamedText f) nodes n := by
    intro n
    unfold entry entryAs
    rw [operandIds_rename, List.map_map]
    rfl
  unfold listing listingAs postorder
  rw [postorderBelow_rename]
  refine congrArg String.join (List.filterMap_congr fun i _ => ?_)
  rw [List.getElem?_map, Option.map_map]
  exact congrFun (congrArg Option.map (funext hentry)) nodes[i]?

theorem Program.dump_rename (p : Program α) : (p.rename f).dump = p.dumpAs (renamedText f) := by
  unfold dump dumpAs
  rw [rename, nodes, nodes, Arena.rename, listing_rename]
  simp only [listing_rename]

variable {f} {H : NodeId → NodeId → Prop} (hf : Follows f H)

include hf

theorem Script.Outcome.Renamed.message?_eq {o o' : Outcome α} (h : o.Renamed H o') :
    o'.message? = o.messageAs? (renamedText f) := by
  rw [h.eq_rename hf]
  cases o with
  | refused e => exact congrArg some (e.message_rename f)
  | _ => rfl

variable (hH : Aligned H)

include hH

/-- What is listed below a node is found by its handle. -/
theorem Graph.Renamed.dump {g g' : Graph α} (h : g.Renamed H g') {id id' : NodeId}
    (hid : H id id') :
    Matched (Error.Renamed H) Eq (g.dumpAs (renamedText f) id) (g'.dump id') := by
  refine (h.arena.position hH hid).bind ?_
  rintro i _ rfl
  refine .ok ?_
  rw [h.eq_rename hf]
  exact (listing_rename f g.nodes i).symm

/-- **All listings are the same**, but for how handles are written. -/
theorem Model.Renamed.dumps_eq {m m' : Model α} (h : m.Renamed H m') :
    m'.dumps = m.dumpsAs (renamedText f) := by
  have hids := h.graph.arena.ids
  rw [List.forall₂_map_left_iff, List.forall₂_map_right_iff] at hids
  have hgraph : m.graph.nodes.map (fun n => (m.graph.dumpAs (renamedText f) n.id).toOption) =
      m'.graph.nodes.map (fun n => (m'.graph.dump n.id).toOption) := by
    refine map_eq_of_forall₂ hids fun n n' hid => ?_
    have hdump := h.graph.dump hf hH hid
    generalize m.graph.dumpAs _ _ = x, m'.graph.dump _ = x' at hdump
    cases hdump with
    | ok heq => rw [heq]
    | error => rfl
  have hprograms : m.programs.map (fun p => some (p.dumpAs (renamedText f))) =
      m'.programs.map (fun p => some p.dump) :=
    map_eq_of_forall₂ h.programs fun p p' hp => by rw [hp.eq_rename hf, p.dump_rename]
  unfold Model.dumps Model.dumpsAs
  rw [hgraph, hprograms]

end Renamed

end MixedMonotone
