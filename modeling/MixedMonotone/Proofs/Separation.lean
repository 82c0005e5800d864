import Mathlib
import MixedMonotone.Proofs.Growth

/-!
# Graphs of one session

The graphs of a session share nothing but the counter of handles.

* `keeps_others_runGraph`, `keeps_others_runProgram`: a command on one graph, or on a program
  compiled from it, **leaves every other model**.
* `Session.handles`: the numbers of the handles that a graph has issued.
* `Session.Apart`, `keeps_apart`: two graphs that have no handle in common **never will**, as what
  is issued next is new to both.
-/

namespace MixedMonotone

variable {α β : Type}

/-! ## Other models -/

/-- The model under the number `k` is `m`. -/
def Session.Holds (k : Nat) (m : Model α) (s : Session α) : Prop := s.models[k]? = some m

section Others

variable {g k : Nat} {m : Model α}

/-- A call on a model is carried out if the model is there. -/
theorem keeps_others_onModel {act : Model α → Action α (Session α) β}
    (h : ∀ m', Action.Keeps (Session.Holds k m) (act m')) :
    Action.Keeps (Session.Holds k m) (Session.onModel g act) :=
  fun s hs => onModel_after hs fun m' _ => h m' s hs

variable (hk : k ≠ g)

include hk

/-- Replacing a model leaves the others. -/
theorem Session.Holds.put {s : Session α} (hs : s.Holds k m) (m' : Model α) (nextId : Nat)
    (log : List Event) : Session.Holds k m { s.putModel g m' with nextId, log } := by
  have hother : (s.models.set g m')[k]? = s.models[k]? := List.getElem?_set_ne (Ne.symm hk)
  exact hother.trans hs

theorem keeps_others_onBuilder (act : Build α β) :
    Action.Keeps (Session.Holds k m) (Session.onBuilder g act) :=
  keeps_others_onModel fun _ => .focus fun _ hs => hs.put hk _ _ _

theorem keeps_others_onProgram (p : Nat) (act : Action α (Program α) β) :
    Action.Keeps (Session.Holds k m) (Session.onProgram g p act) := by
  refine keeps_others_onModel fun m' => ?_
  cases m'.programs[p]? with
  | none => exact .throw _
  | some program => exact .focus fun s hs => hs.put hk _ s.nextId s.log

theorem keeps_others_addProgram (p : Program α) :
    Action.Keeps (Session.Holds k m) (Session.addProgram g p) :=
  keeps_others_onModel fun _ s hs => hs.put hk _ s.nextId s.log

variable [Scalar α]

/-- **A command on a program leaves all other models.** -/
theorem keeps_others_runProgram (p : Nat) (c : ProgramCommand α NodeId) :
    Action.Keeps (Session.Holds k m) (Session.runProgram g p c) := by
  cases c with
  | duplicate =>
    refine .bind (keeps_others_onProgram hk p _) fun program => ?_
    exact .bind (keeps_others_addProgram hk program) fun _ => .pure _
  | _ => exact .bind (keeps_others_onProgram hk p _) fun _ => .pure _

variable [DecidableEq α]

/-- **A command on a graph leaves all other models.** -/
theorem keeps_others_runGraph (c : GraphCommand α NodeId) :
    Action.Keeps (Session.Holds k m) (Session.runGraph g c) := by
  cases c with
  | compile extraction root constraints =>
    exact .bind (keeps_others_onBuilder hk _) fun p => .bind (keeps_others_addProgram hk p)
      fun _ => .pure _
  | duplicate =>
    refine .bind (keeps_others_onBuilder hk _) fun G => .bind ?_ fun _ => .pure _
    exact fun s hs => getElem?_append_of_eq_some hs _
  | _ => exact .bind (keeps_others_onBuilder hk _) fun _ => .pure _

end Others

/-! ## Handles -/

/-- **The numbers of the handles of a graph.** -/
def Session.handles (s : Session α) (g : Nat) : Set Nat :=
  {i | ∃ G, s.graph? g = some G ∧ ∃ n ∈ G.nodes, n.id.number = i}

theorem Session.mem_handles {s : Session α} {g i : Nat} :
    i ∈ s.handles g ↔ ∃ a, s.arena? (.graph g) = some a ∧ ∃ n ∈ a.nodes, n.id.number = i := by
  have harena : s.arena? (.graph g) = (s.graph? g).map Graph.arena := by
    unfold arena? graph? Place.graph
    cases s.models[g]? <;> rfl
  rw [harena]
  unfold handles
  cases s.graph? g <;> simp [Graph.nodes]

variable {s t : Session α} {g k : Nat}

/-- **A handle of a graph was one of its handles before, or it is new** and this graph has grown. -/
theorem Session.Since.handles {grown : Option Place} (h : s.Since grown t)
    (hg : (s.arena? (.graph g)).isSome) {i : Nat} (hi : i ∈ t.handles g) :
    i ∈ s.handles g ∨
    (grown = some (.graph g) ∧ s.nextId ≤ i) := by
  obtain ⟨a, ha, n, hn, rfl⟩ := Session.mem_handles.1 hi
  rcases h.nodes _ a ha n hn with ⟨Q, b, hb, ⟨n', hn', hid, -⟩, hplace⟩ | ⟨hgrown, hlow, -⟩
  · obtain rfl := hplace hg
    exact .inl (Session.mem_handles.2 ⟨b, hb, n', hn', congrArg NodeId.number hid⟩)
  · exact .inr ⟨hgrown, hlow⟩

variable [Scalar α]

theorem SessionOK.issued (hs : SessionOK s) {i : Nat} (hi : i ∈ s.handles g) : i < s.nextId := by
  obtain ⟨G, hG, n, hn, rfl⟩ := hi
  obtain ⟨m, hm, rfl⟩ := Option.map_eq_some_iff.1 hG
  exact (hs.model hm).graph.issued n hn

/-- **Two graphs that have no handle in common.** -/
structure Session.Apart (g k : Nat) (s : Session α) : Prop where
  ok : SessionOK s
  left : (s.arena? (.graph g)).isSome
  right : (s.arena? (.graph k)).isSome
  disjoint : Disjoint (s.handles g) (s.handles k)

/-- Whatever is issued is new to both graphs, and at most one of them grows. -/
theorem keeps_apart [DecidableEq α] (hgk : g ≠ k) (c : Command α NodeId) :
    Action.Keeps (Session.Apart g k) (Session.run c) := by
  intro s hs
  obtain ⟨j, hst⟩ := since_run hs.ok c
  refine ⟨keeps_run c s hs.ok, hst.stays _ hs.left, hst.stays _ hs.right,
    Set.disjoint_left.2 fun i hi hi' => ?_⟩
  rcases hst.handles hs.left hi with hold | ⟨hgrown, hlow⟩ <;>
    rcases hst.handles hs.right hi' with hold' | ⟨hgrown', hlow'⟩
  · exact Set.disjoint_left.1 hs.disjoint hold hold'
  · have := hs.ok.issued hold
    omega
  · have := hs.ok.issued hold'
    omega
  · have hsame : Place.graph g = Place.graph k := Option.some.inj (hgrown.symm.trans hgrown')
    exact hgk (congrArg Place.model hsame)

end MixedMonotone
