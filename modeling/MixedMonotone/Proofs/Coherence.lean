import Mathlib
import MixedMonotone.Proofs.Growth
import MixedMonotone.Proofs.Handles

/-!
# A handle means one node

Graphs are copied and then built on, constants are shared in one graph and not in its copy, and
programs hold the nodes of a graph at other positions. Since one counter issues all handles, a
handle still means the same node wherever it is known.

* `Session.Coherent`: all arenas agree on the nodes of the handles they know.
* `Session.Coherent.since`: **what a command does keeps them in agreement**.
* `learned_alone`: what is added to one graph stays unknown to everything else that was there.
* `handle_means_one_node`: both, for every reachable session.
-/

namespace MixedMonotone

variable {α : Type}

/-! ## Reachable sessions -/

section Coherence

variable [Scalar α] {s t : Session α} {grown : Option Place}

theorem SessionOK.arena (hs : SessionOK s) {P : Place} {a : Arena α} (h : s.arena? P = some a) :
    ∃ settings, ArenaOK settings a := by
  obtain ⟨m, hm, ha⟩ := Option.bind_eq_some_iff.1 h
  have hmodel := hs.model hm
  cases hP : P.program with
  | none =>
    rw [hP] at ha
    obtain rfl := Option.some.inj ha
    exact ⟨_, hmodel.graph.arena⟩
  | some p =>
    rw [hP] at ha
    obtain ⟨program, hp, rfl⟩ := Option.map_eq_some_iff.1 ha
    obtain ⟨settings, hok⟩ := hmodel.programs program (List.mem_of_getElem? hp)
    exact ⟨settings, hok.arena⟩

theorem SessionOK.knowsAt_iff (hs : SessionOK s) {P : Place} {id : NodeId} :
    s.KnowsAt P id ↔ ∃ a n, s.arena? P = some a ∧ n ∈ a.nodes ∧ n.id = id := by
  constructor
  · rintro ⟨a, n, ha, hn⟩
    obtain ⟨settings, hok⟩ := hs.arena ha
    exact ⟨a, n, ha, hok.mem_of_node hn⟩
  · rintro ⟨a, n, ha, hn, rfl⟩
    obtain ⟨settings, hok⟩ := hs.arena ha
    obtain ⟨i, hi⟩ := List.mem_iff_getElem?.1 hn
    exact ⟨a, n, ha, hok.node_eq hi⟩

/-- **All arenas agree**: their handles have been issued, and nodes with one handle are one node. -/
structure Session.Coherent (s : Session α) : Prop where
  ok : SessionOK s
  issued : ∀ P a, s.arena? P = some a → ∀ n ∈ a.nodes, n.id.number < s.nextId
  agree : ∀ P Q a b, s.arena? P = some a → s.arena? Q = some b → ∀ n ∈ a.nodes, ∀ m ∈ b.nodes,
    n.id = m.id → n.identity a.nodes = m.identity b.nodes

namespace Session.Coherent

theorem issued_of_knowsAt (h : s.Coherent) {P : Place} {id : NodeId} (hknows : s.KnowsAt P id) :
    id.number < s.nextId := by
  obtain ⟨a, n, ha, hn, rfl⟩ := h.ok.knowsAt_iff.1 hknows
  exact h.issued P a ha n hn

/-- **What a command does keeps the arenas in agreement.** -/
theorem since (h : s.Coherent) (ht : SessionOK t) (hst : s.Since grown t) : t.Coherent := by
  refine ⟨ht, fun P a ha n hn => ?_, fun P Q a b ha hb n hn m hm hid => ?_⟩
  · rcases hst.nodes P a ha n hn with ⟨Q, b, hb, ⟨n', hn', hid, -⟩, -⟩ | ⟨-, -, hlt⟩
    · exact hid ▸ (h.issued Q b hb n' hn').trans_le hst.counter
    · exact hlt
  · rcases hst.nodes P a ha n hn with ⟨P', a', ha', ⟨n', hn', hnid, hneq⟩, -⟩ | ⟨hP, hlow, -⟩
    · rcases hst.nodes Q b hb m hm with ⟨Q', b', hb', ⟨m', hm', hmid, hmeq⟩, -⟩ | ⟨-, hlow, -⟩
      · rw [← hneq, ← hmeq]
        exact h.agree P' Q' a' b' ha' hb' n' hn' m' hm' (hnid.trans (hid.trans hmid.symm))
      -- a new node has a handle that no old one has
      · have hlt := h.issued P' a' ha' n' hn'
        rw [hnid, hid] at hlt
        omega
    · rcases hst.nodes Q b hb m hm with ⟨Q', b', hb', ⟨m', hm', hmid, -⟩, -⟩ | ⟨hQ, -, -⟩
      · have hlt := h.issued Q' b' hb' m' hm'
        rw [hmid, ← hid] at hlt
        omega
      -- only one arena has new nodes, and there a handle has one bearer
      · obtain rfl : P = Q := Option.some.inj (hP.symm.trans hQ)
        obtain rfl : a = b := Option.some.inj (ha.symm.trans hb)
        obtain ⟨settings, hok⟩ := ht.arena ha
        rw [hok.eq_of_id hn hm hid]

end Session.Coherent

/-- **An arena never learns a handle that was issued before**, unless it was made since. -/
theorem Session.Since.unknown (hst : s.Since grown t) (hs : SessionOK s) (ht : SessionOK t)
    {P : Place} (hP : (s.arena? P).isSome) {id : NodeId} (hid : id.number < s.nextId)
    (h : ¬ s.KnowsAt P id) :
    ¬ t.KnowsAt P id := by
  intro hknows
  obtain ⟨a, n, ha, hn, rfl⟩ := ht.knowsAt_iff.1 hknows
  rcases hst.nodes P a ha n hn with ⟨Q, b, hb, ⟨n', hn', hnid, -⟩, hQ⟩ | ⟨-, hlow, -⟩
  · obtain rfl := hQ hP
    exact h (hs.knowsAt_iff.2 ⟨b, n', hb, hn', hnid⟩)
  · omega

variable [DecidableEq α]

theorem keeps_coherent (c : Command α NodeId) : Action.Keeps Session.Coherent (Session.run c) := by
  intro s hs
  obtain ⟨g, hst⟩ := since_run hs.ok c
  exact hs.since (keeps_run c s hs.ok) hst

theorem coherent_runAll (commands : List (Command α NodeId)) :
    (Session.runAll commands {}).Coherent :=
  runAll_induction keeps_coherent commands
    {} ⟨by simp [SessionOK], by simp [Session.arena?], by simp [Session.arena?]⟩

/-- A handle that was issued for no node stays unknown. -/
theorem never_known {id : NodeId} (later : List (Command α NodeId)) (hs : s.Coherent)
    (hid : id.number < s.nextId) (h : ∀ P, ¬ s.KnowsAt P id) (P : Place) :
    ¬ (Session.runAll later s).KnowsAt P id := by
  refine (runAll_induction (I := fun t => t.Coherent ∧ id.number < t.nextId ∧ ∀ P, ¬ t.KnowsAt P id)
    (fun c t ht => ?_) later s ⟨hs, hid, h⟩).2.2 P
  obtain ⟨hok, hissued, hunknown⟩ := ht
  obtain ⟨g, hst⟩ := since_run hok.ok c
  have hok' := hok.since (keeps_run c t hok.ok) hst
  refine ⟨hok', hissued.trans_le hst.counter, fun P hknows => ?_⟩
  obtain ⟨a, n, ha, hn, rfl⟩ := hok'.ok.knowsAt_iff.1 hknows
  rcases hst.nodes P a ha n hn with ⟨Q, b, hb, ⟨n', hn', hnid, -⟩, -⟩ | ⟨-, hlow, -⟩
  · exact hunknown Q (hok.ok.knowsAt_iff.2 ⟨b, n', hb, hn', hnid⟩)
  · omega

/-- **What a graph has learned since, nothing else has that was there.** -/
theorem learned_alone (later : List (Command α NodeId)) (hs : s.Coherent) {g : Nat}
    (hg : (s.arena? (.graph g)).isSome) {id : NodeId} (h : ¬ s.KnowsAt (.graph g) id)
    (hknows : (Session.runAll later s).KnowsAt (.graph g) id) {P : Place} (hP : (s.arena? P).isSome)
    (hne : P ≠ .graph g) : ¬ (Session.runAll later s).KnowsAt P id := by
  refine (runAll_induction (I := fun t => t.Coherent ∧ (t.arena? (.graph g)).isSome ∧
    (t.arena? P).isSome ∧ (t.KnowsAt (.graph g) id → ¬ t.KnowsAt P id)) (fun c t ht => ?_) later s
    ⟨hs, hg, hP, fun hk => absurd hk h⟩).2.2.2 hknows
  obtain ⟨hok, hgt, hPt, halone⟩ := ht
  obtain ⟨g', hst⟩ := since_run hok.ok c
  have hok' := hok.since (keeps_run c t hok.ok) hst
  refine ⟨hok', hst.stays _ hgt, hst.stays _ hPt, fun hlearned => ?_⟩
  obtain ⟨a, n, ha, hn, rfl⟩ := hok'.ok.knowsAt_iff.1 hlearned
  rcases hst.nodes _ a ha n hn with ⟨Q, b, hb, ⟨n', hn', hnid, -⟩, hQ⟩ | ⟨hgrown, hlow, -⟩
  -- the graph knew it already
  · obtain rfl := hQ hgt
    have hknew : t.KnowsAt (.graph g) n.id := hok.ok.knowsAt_iff.2 ⟨b, n', hb, hn', hnid⟩
    exact hst.unknown hok.ok hok'.ok hPt (hok.issued_of_knowsAt hknew) (halone hknew)
  -- the command has just added it, to this graph and to nothing else
  · intro hother
    obtain ⟨b, m, hb, hm, hid⟩ := hok'.ok.knowsAt_iff.1 hother
    rcases hst.nodes P b hb m hm with ⟨Q, b', hb', ⟨m', hm', hmid, -⟩, -⟩ | ⟨hgrown', -, -⟩
    · have hlt := hok.issued Q b' hb' m' hm'
      rw [hmid, hid] at hlt
      omega
    · exact hne (Option.some.inj (hgrown'.symm.trans hgrown))

/-- A copy of a graph is another graph with the same nodes. -/
theorem duplicate_graph {g h : Nat}
    (hanswer : (Session.run (.graph g .duplicate)).answer s = .ok (.graph h)) :
    h ≠ g ∧ ((Session.run (.graph g .duplicate)).after s).graph? h = s.graph? g ∧
      ((Session.run (.graph g .duplicate)).after s).graph? g = s.graph? g := by
  simp only [Session.run, Session.runGraph] at hanswer ⊢
  rw [Action.after_bind]
  rw [Action.answer_bind] at hanswer
  cases hG : (Session.onGraph g get).answer s with
  | error e =>
    rw [hG] at hanswer
    cases hanswer
  | ok G =>
    obtain ⟨hgraph, hafter⟩ := get_graph hG
    obtain ⟨m, hm, rfl⟩ := Option.map_eq_some_iff.1 hgraph
    have hlt := (List.getElem?_eq_some_iff.1 hm).1
    rw [hG, hafter] at hanswer
    obtain rfl : s.models.length = h := Reply.graph.inj (Except.ok.inj hanswer)
    rw [hafter, hgraph]
    refine ⟨hlt.ne', ?_, ?_⟩
    · change (s.models ++ [{ graph := m.graph }])[s.models.length]?.map Model.graph = _
      rw [List.getElem?_concat_length]
      rfl
    · change (s.models ++ [{ graph := m.graph }])[g]?.map Model.graph = _
      rw [List.getElem?_append_left hlt, hm]
      rfl

/-- **A handle means one node everywhere.** After any commands, let two graphs or programs know a
handle. Then its node is made of the same in both, with the same operands, plan, dimension and tag.
A handle that was issued for no node is never known to any of them. A copy of a graph has the same
nodes, and what is added to a graph is unknown, now and later, to every other graph and to every
program that was there before. -/
theorem handle_means_one_node (commands : List (Command α NodeId)) :
    let s := Session.runAll commands {}
    (∀ P Q a b id n m, s.arena? P = some a → s.arena? Q = some b → a.node id = .ok n →
      b.node id = .ok m → n.identity a.nodes = m.identity b.nodes) ∧
    (∀ id, (Session.run .freshId).answer s = .ok (.node id) →
      ∀ later P, ¬ (Session.runAll (.freshId :: later) s).KnowsAt P id) ∧
    (∀ g h, (Session.run (.graph g .duplicate)).answer s = .ok (.graph h) →
      h ≠ g ∧ ((Session.run (.graph g .duplicate)).after s).graph? h = s.graph? g ∧
        ((Session.run (.graph g .duplicate)).after s).graph? g = s.graph? g) ∧
    ∀ later g id, (s.graph? g).isSome → ¬ s.KnowsAt (.graph g) id →
      (Session.runAll later s).KnowsAt (.graph g) id →
      ∀ P, (s.arena? P).isSome → P ≠ .graph g → ¬ (Session.runAll later s).KnowsAt P id := by
  intro s
  have hs : s.Coherent := coherent_runAll commands
  refine ⟨?_, ?_, fun g h => duplicate_graph, ?_⟩
  · intro P Q a b id n m ha hb hn hm
    obtain ⟨settings, hok⟩ := hs.ok.arena ha
    obtain ⟨settings', hok'⟩ := hs.ok.arena hb
    obtain ⟨hmem, rfl⟩ := hok.mem_of_node hn
    obtain ⟨hmem', hid⟩ := hok'.mem_of_node hm
    exact hs.agree P Q a b ha hb n hmem m hmem' hid.symm
  · intro id hid later P
    obtain rfl : ⟨s.nextId⟩ = id := Reply.node.inj (Except.ok.inj hid)
    have hfresh := keeps_coherent .freshId s hs
    refine never_known later hfresh (Nat.lt_succ_self s.nextId) (fun P hknows => ?_) P
    have hlt : s.nextId < s.nextId := hs.issued_of_knowsAt hknows
    exact lt_irrefl _ hlt
  · intro later g id hg hunknown hknows P hP hne
    refine learned_alone later hs ?_ hunknown hknows hP hne
    obtain ⟨G, hG⟩ := Option.isSome_iff_exists.1 hg
    obtain ⟨m, hm, -⟩ := Option.map_eq_some_iff.1 hG
    rw [Place.graph, Session.arena?_eq hm]
    rfl

end Coherence

/-- A number times a variable, copied and compiled. -/
def branchedCommands : List (Command ℚ NodeId) :=
  [.newGraph {}, .graph 0 (.build (.taggedVariable 1 .nonneg)), .graph 0 (.build (.scalar 5)),
    .graph 0 (.build (.mul ⟨2⟩ ⟨1⟩)), .graph 0 .duplicate, .graph 0 (.compile .everything ⟨3⟩ [])]

/-- One number is added to the copy and to the graph, an evaluation goes on in the program, and a
handle is issued for no node. -/
def diverging : List (Command ℚ NodeId) :=
  [.graph 1 (.build (.scalar 7)), .graph 0 (.build (.scalar 7)), .program 0 0 (.objective [2] [2]),
    .freshId, .graph 0 (.build (.add ⟨3⟩ ⟨5⟩))]

/-- The copy and the program know the same product, and neither of them knows the graph's number. -/
theorem handle_means_one_node_copy : ∃ s t, Session.runAll branchedCommands {} = s ∧
    Session.runAll diverging s = t ∧
    (∃ a b n m, t.arena? (.graph 1) = some a ∧ t.arena? ⟨0, some 0⟩ = some b ∧ a.node ⟨3⟩ = .ok n ∧
      b.node ⟨3⟩ = .ok m ∧ n.identity a.nodes = m.identity b.nodes) ∧
    t.KnowsAt (.graph 0) ⟨5⟩ ∧ ¬ t.KnowsAt (.graph 1) ⟨5⟩ ∧ ¬ t.KnowsAt ⟨0, some 0⟩ ⟨5⟩ := by
  let s := Session.runAll branchedCommands {}
  let t := Session.runAll diverging s
  let G := (t.arena? (.graph 0)).getD {}
  let a := (t.arena? (.graph 1)).getD {}
  let b := (t.arena? ⟨0, some 0⟩).getD {}
  let missing : Node ℚ := ⟨⟨0⟩, .unknown, .parameter, []⟩
  have ha : t.arena? (.graph 1) = some a := by decide +kernel
  have hb : t.arena? ⟨0, some 0⟩ = some b := by decide +kernel
  have hn : a.node ⟨3⟩ = .ok ((a.node ⟨3⟩).toOption.getD missing) := by decide +kernel
  have hm : b.node ⟨3⟩ = .ok ((b.node ⟨3⟩).toOption.getD missing) := by decide +kernel
  have hknows : t.KnowsAt (.graph 0) ⟨5⟩ :=
    ⟨G, (G.node ⟨5⟩).toOption.getD missing, by decide +kernel, by decide +kernel⟩
  -- the number's handle was not issued before the two arenas were there
  have hunknown : ¬ s.KnowsAt (.graph 0) ⟨5⟩ := by
    intro h
    have hlt := (coherent_runAll branchedCommands).issued_of_knowsAt h
    revert hlt
    decide +kernel
  obtain ⟨hone, -⟩ := handle_means_one_node (branchedCommands ++ diverging)
  obtain ⟨-, -, -, halone⟩ := handle_means_one_node branchedCommands
  rw [Session.runAll, List.foldl_append] at hone
  exact ⟨s, t, rfl, rfl, ⟨a, b, _, _, ha, hb, hn, hm, hone _ _ a b ⟨3⟩ _ _ ha hb hn hm⟩, hknows,
    halone diverging 0 ⟨5⟩ (by decide +kernel) hunknown hknows (.graph 1) (by decide +kernel)
      (by decide),
    halone diverging 0 ⟨5⟩ (by decide +kernel) hunknown hknows ⟨0, some 0⟩ (by decide +kernel)
      (by decide)⟩

end MixedMonotone
