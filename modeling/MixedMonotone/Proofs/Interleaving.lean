import Mathlib
import MixedMonotone.Proofs.Renaming
import MixedMonotone.Proofs.Separation

/-!
# Independent graphs

Two parties use one session, each a graph of its own, which begins empty, and the programs compiled
from it. Their steps may be interleaved in any way. All that passes between them is the counter from
which both take handles.

* `Request`, `Interleaving`: the steps of a party, and the ways in which two parties take turns.
* `Play`: what came of every turn so far, with the session; `Play.of` is the part of one graph.
* `Play.Level`: two plays have come to **the same for one graph**, under corresponding handles. A
  turn of the other party keeps it (`Play.Level.waits`), a turn of this one makes more handles
  correspond (`Play.Level.next`), so it holds after all turns (`Play.Level.all`).
* `Play.AlikeUnder`: it is the same **under a function on handles** that keeps their order.
* `interleavings_agree`: whatever the order of the turns, there is one such function for both
  graphs.
-/

namespace MixedMonotone

open Script

variable {α : Type}

/-! ## Turns -/

/-- What a party can ask of its graph, or of one of the programs compiled from it. Nodes are
named by the number of the party's own step that has answered them. A copy of the graph would
be another graph. -/
inductive Request (α : Type) where
  | graph (c : GraphCommand α Nat) (hc : c ≠ .duplicate)
  | program (p : Nat) (c : ProgramCommand α Nat)

/-- The command that a request is, on a graph with a number. -/
def Request.command (g : Nat) : Request α → Command α Nat
  | graph c _ => .graph g c
  | program p c => .program g p c

/-- A request of the party that uses the graph with a number. -/
structure Turn (α : Type) where
  graph : Nat
  request : Request α

/-- **The turns are an interleaving** of the steps of two parties, on the graphs 0 and 1. -/
inductive Interleaving : List (Request α) → List (Request α) → List (Turn α) → Prop
  | nil : Interleaving [] [] []
  | first (r : Request α) {A B : List (Request α)} {turns : List (Turn α)}
      (h : Interleaving A B turns) : Interleaving (r :: A) B (⟨0, r⟩ :: turns)
  | second (r : Request α) {A B : List (Request α)} {turns : List (Turn α)}
      (h : Interleaving A B turns) : Interleaving A (r :: B) (⟨1, r⟩ :: turns)

/-- The steps of either party are among the turns in their order. -/
theorem Interleaving.filter {A B : List (Request α)} {turns : List (Turn α)}
    (h : Interleaving A B turns) :
    turns.filter (·.graph = 0) = A.map (Turn.mk 0) ∧
    turns.filter (·.graph = 1) = B.map (Turn.mk 1) := by
  induction h with
  | nil => exact ⟨rfl, rfl⟩
  | first r _ ih =>
    obtain ⟨hA, hB⟩ := ih
    exact ⟨congrArg (_ :: ·) hA, hB⟩
  | second r _ ih =>
    obtain ⟨hA, hB⟩ := ih
    exact ⟨hA, congrArg (_ :: ·) hB⟩

/-- What came of a turn: its outcome, and the party's graph and programs as it has left them. -/
structure Stage (α : Type) where
  graph : Nat
  outcome : Outcome α
  model : Option (Model α)

/-- What came of every turn so far, and the session. -/
structure Play (α : Type) where
  stages : List (Stage α) := []
  session : Session α

/-- What came of the turns on one graph. -/
def Play.of (P : Play α) (g : Nat) : List (Stage α) := P.stages.filter (·.graph = g)

section Turns

variable [Scalar α] [DecidableEq α]

/-- Two empty graphs, when handles up to a counter have been issued. -/
def Play.start (first second : Settings) (counter : Nat) : Play α :=
  { session := Session.runAll [.newGraph first, .newGraph second] { nextId := counter } }

/-- What a turn comes to. The steps that its request refers to are those of the same party. -/
def Play.turn (P : Play α) (t : Turn α) : Outcome α × Session α :=
  step (t.request.command t.graph) ((P.of t.graph).map Stage.outcome) P.session

/-- **One more turn.** -/
def Play.next (P : Play α) (t : Turn α) : Play α where
  stages := P.stages ++ [⟨t.graph, (P.turn t).1, (P.turn t).2.models[t.graph]?⟩]
  session := (P.turn t).2

/-- All turns in order. -/
def Play.all (P : Play α) (turns : List (Turn α)) : Play α := turns.foldl next P

end Turns

/-! ## Renaming -/

/-- What came of a turn, with the handles renamed. -/
def Stage.rename (f : Nat → Nat) (e : Stage α) : Stage α :=
  { e with outcome := e.outcome.rename f, model := e.model.map (Model.rename f) }

/-- The wording of the refusal, if the turn was refused, and all listings that can be made after
it. -/
def Stage.texts [ScalarText α] (e : Stage α) : List (Option String) :=
  e.outcome.message? :: (e.model.map Model.dumps).getD []

/-- These texts, with handles written in the given way. -/
def Stage.textsAs [ScalarText α] (write : NodeId → String) (e : Stage α) : List (Option String) :=
  e.outcome.messageAs? write :: (e.model.map (Model.dumpsAs write)).getD []

/-- **The same came of two turns**, with corresponding handles. -/
structure Stage.Renamed (H : NodeId → NodeId → Prop) (e e' : Stage α) : Prop where
  graph : e'.graph = e.graph
  outcome : e.outcome.Renamed H e'.outcome
  model : Option.Rel (Model.Renamed H) e.model e'.model

namespace Stage.Renamed

variable {H I : NodeId → NodeId → Prop} {f : Nat → Nat} {e e' : Stage α}

theorem mono (h : e.Renamed H e') (hHI : H ≤ I) : e.Renamed I e' := by
  refine ⟨h.graph, h.outcome.mono hHI, ?_⟩
  have hmodel := h.model
  generalize e.model = x, e'.model = x' at hmodel
  cases hmodel with
  | none => exact .none
  | some hm => exact .some (hm.mono hHI)

theorem eq_rename (hf : Follows f H) (h : e.Renamed H e') : e' = e.rename f := by
  obtain ⟨hgraph, houtcome, hmodel⟩ := h
  have hrenamed : e.model.map (Model.rename f) = e'.model.map id :=
    map_eq_of_rel hmodel fun _ _ hm => (hm.eq_rename hf).symm
  rw [Option.map_id_fun, id] at hrenamed
  have hout := houtcome.eq_rename hf
  obtain ⟨graph', outcome', model'⟩ := e'
  rw [rename, hrenamed, ← hout, ← hgraph]

theorem texts_eq [ScalarText α] (hf : Follows f H) (hH : Aligned H) (h : e.Renamed H e') :
    e'.texts = e.textsAs (renamedText f) := by
  have hdumps : e.model.map (Model.dumpsAs (renamedText f)) = e'.model.map Model.dumps :=
    map_eq_of_rel h.model fun _ _ hm => (hm.dumps_eq hf hH).symm
  unfold texts textsAs
  rw [hdumps, h.outcome.message?_eq hf]

end Stage.Renamed

/-! ## Two parties -/

section Steps

/-- The handles of a graph are renamed with it. -/
theorem Session.handles_rename {s s' : Session α} {f : Nat → Nat} {g : Nat}
    (h : s'.models[g]? = s.models[g]?.map (Model.rename f)) : s'.handles g = f '' s.handles g := by
  have hgraph : s'.graph? g = (s.graph? g).map (Graph.rename f) := by
    unfold graph?
    rw [h, Option.map_map, Option.map_map]
    rfl
  refine Set.Subset.antisymm ?_ ?_
  · rintro _ ⟨G', hG', n', hn', rfl⟩
    rw [hgraph] at hG'
    obtain ⟨G, hG, rfl⟩ := Option.map_eq_some_iff.1 hG'
    obtain ⟨n, hn, rfl⟩ := List.mem_map.1 hn'
    exact ⟨n.id.number, ⟨G, hG, n, hn, rfl⟩, rfl⟩
  · rintro _ ⟨_, ⟨G, hG, n, hn, rfl⟩, rfl⟩
    rw [Option.map_eq_some_iff.2 ⟨G, hG, rfl⟩] at hgraph
    exact ⟨G.rename f, hgraph, n.rename f, List.mem_map_of_mem hn, rfl⟩

variable [Scalar α]

namespace Play

variable {P P' Q Q' R : Play α} {t : Turn α} {g : Nat} {H : NodeId → NodeId → Prop} {f : Nat → Nat}

/-- Turns of others were taken since: **one graph has waited**, while handles were issued. -/
structure Waits (g : Nat) (P Q : Play α) : Prop where
  model : ∀ m, P.session.Holds g m → Q.session.Holds g m
  counter : P.session.nextId ≤ Q.session.nextId
  stages : Q.of g = P.of g
  ok : SessionOK P.session → SessionOK Q.session

theorem Waits.refl (g : Nat) (P : Play α) : P.Waits g P := ⟨fun _ h => h, le_rfl, rfl, fun h => h⟩

theorem Waits.trans (h : P.Waits g Q) (h' : Q.Waits g R) : P.Waits g R :=
  ⟨fun m hm => h'.model m (h.model m hm), h.counter.trans h'.counter, h'.stages.trans h.stages,
    fun hok => h'.ok (h.ok hok)⟩

/-- **Both plays have come to the same for one graph**, as far as the handles in `H` correspond. -/
structure Level (g : Nat) (H : NodeId → NodeId → Prop) (P P' : Play α) : Prop where
  session : Session.Renamed g H P.session P'.session
  stages : List.Forall₂ (Stage.Renamed H) (P.of g) (P'.of g)
  ok : SessionOK P.session
  ok' : SessionOK P'.session

/-- While others take their turns, it stays so. -/
theorem Level.waits (h : Level g H P P') (hQ : P.Waits g Q) (hQ' : P'.Waits g Q') :
    Level g H Q Q' := by
  obtain ⟨m, m', hm, hm', hb, hprograms⟩ := h.session
  refine ⟨⟨m, m', hQ.model m hm, hQ'.model m' hm', ⟨hb.graph, hb.aligned, ?_⟩, hprograms⟩,
    ?_, hQ.ok h.ok, hQ'.ok h.ok'⟩
  · intro a a' ha
    obtain ⟨hissued, hissued'⟩ := hb.issued a a' ha
    exact ⟨hissued.trans_le hQ.counter, hissued'.trans_le hQ'.counter⟩
  · rw [hQ.stages, hQ'.stages]
    exact h.stages

/-- The handles of a graph are those that correspond to others. -/
theorem Level.handles (h : Level g H P P') {a a' : NodeId} (ha : H a a') :
    a.number ∈ P.session.handles g ∧ a'.number ∈ P'.session.handles g := by
  obtain ⟨m, m', hm, hm', hb, -⟩ := h.session
  obtain ⟨hknown, hknown'⟩ := hb.graph.known a a' ha
  obtain ⟨n, hn, rfl⟩ := List.mem_map.1 hknown
  obtain ⟨n', hn', rfl⟩ := List.mem_map.1 hknown'
  refine ⟨⟨m.graph, ?_, n, hn, rfl⟩, ⟨m'.graph, ?_, n', hn', rfl⟩⟩
  · rw [Session.graph?, hm, Option.map_some]
  · rw [Session.graph?, hm', Option.map_some]

theorem Level.follows (h : Level g H P P') (hf : Follows f H) {i : Nat}
    (hi : i ∈ P.session.handles g) : H ⟨i⟩ ⟨f i⟩ := by
  obtain ⟨m, m', hm, hm', hb, -⟩ := h.session
  obtain ⟨G, hG, n, hn, rfl⟩ := hi
  rw [Session.graph?, hm, Option.map_some] at hG
  obtain rfl := Option.some.inj hG
  obtain ⟨a', -, ha'⟩ := forall₂_mem_left hb.graph.arena.ids (List.mem_map_of_mem hn)
  obtain rfl := hf _ _ ha'
  exact ha'

theorem Level.model_eq (h : Level g H P P') (hf : Follows f H) :
    P'.session.models[g]? = P.session.models[g]?.map (Model.rename f) := by
  have hmodel : P.session.models[g]?.map (Model.rename f) = P'.session.models[g]?.map id :=
    map_eq_of_rel h.session.model fun _ _ hm => (hm.eq_rename hf).symm
  rw [hmodel, Option.map_id_fun, id]

/-- **Everything that belongs to one graph is the same**, under a renaming of handles that
keeps their order. -/
structure AlikeUnder (f : Nat → Nat) (g : Nat) (P P' : Play α) : Prop where
  order : StrictMonoOn f (P.session.handles g)
  onto : P'.session.handles g = f '' P.session.handles g
  stages : P'.of g = (P.of g).map (Stage.rename f)
  model : P'.session.models[g]? = P.session.models[g]?.map (Model.rename f)
  texts : ∀ [ScalarText α], (P'.of g).map Stage.texts = (P.of g).map (Stage.textsAs (renamedText f))

/-- **A function that follows the correspondence** is such a renaming. -/
theorem Level.alike (h : Level g H P P') (hf : Follows f H) : AlikeUnder f g P P' where
  order _ hi _ hj hij := (h.session.aligned _ _ _ _ (h.follows hf hi) (h.follows hf hj)).1 hij
  onto := Session.handles_rename (h.model_eq hf)
  stages := by
    have hstages : (P.of g).map (Stage.rename f) = (P'.of g).map id :=
      map_eq_of_forall₂ h.stages fun _ _ he => (he.eq_rename hf).symm
    rw [hstages, List.map_id]
  model := h.model_eq hf
  texts := (map_eq_of_forall₂ h.stages fun _ _ he => (he.texts_eq hf h.session.aligned).symm).symm

/-- The two correspondences fit together, as neither graph has a handle of the other. -/
theorem exists_renaming {k : Nat} {K : NodeId → NodeId → Prop} (h : Level g H P P')
    (h' : Level k K P P') (hapart : Session.Apart g k P.session)
    (hapart' : Session.Apart g k P'.session) :
    ∃ f : Nat → Nat, Set.InjOn f (P.session.handles g ∪ P.session.handles k) ∧
      AlikeUnder f g P P' ∧ AlikeUnder f k P P' := by
  have hone : ∀ id a b, H id a ∨ K id a → H id b ∨ K id b → a = b := by
    rintro id a b (ha | ha) (hb | hb)
    · exact (h.session.aligned.eq_iff ha hb).1 rfl
    · exact absurd (h'.handles hb).1 (Set.disjoint_left.1 hapart.disjoint (h.handles ha).1)
    · exact absurd (h'.handles ha).1 (Set.disjoint_left.1 hapart.disjoint (h.handles hb).1)
    · exact (h'.session.aligned.eq_iff ha hb).1 rfl
  obtain ⟨f, hf⟩ := exists_follows hone
  have hg : AlikeUnder f g P P' := h.alike fun id a ha => hf id a (.inl ha)
  have hk : AlikeUnder f k P P' := h'.alike fun id a ha => hf id a (.inr ha)
  have hseparate : ∀ i ∈ P.session.handles g, ∀ j ∈ P.session.handles k, f i ≠ f j := by
    intro i hi j hj hij
    have hi' : f i ∈ P'.session.handles g := hg.onto ▸ Set.mem_image_of_mem f hi
    have hj' : f j ∈ P'.session.handles k := hk.onto ▸ Set.mem_image_of_mem f hj
    exact Set.disjoint_left.1 hapart'.disjoint hi' (hij ▸ hj')
  exact ⟨f, (Set.injOn_union hapart.disjoint).2 ⟨hg.order.injOn, hk.order.injOn, hseparate⟩, hg, hk⟩

variable [DecidableEq α]

theorem of_next_self (P : Play α) (t : Turn α) : (P.next t).of t.graph =
    P.of t.graph ++ [⟨t.graph, (P.turn t).1, (P.turn t).2.models[t.graph]?⟩] := by
  unfold of next
  rw [List.filter_append, List.filter_cons_of_pos (by simp), List.filter_nil]

theorem of_next_other (P : Play α) (ht : t.graph ≠ g) : (P.next t).of g = P.of g := by
  unfold of next
  rw [List.filter_append, List.filter_cons_of_neg (by simpa using ht), List.filter_nil,
    List.append_nil]

/-- What every command keeps is kept by every turn. -/
theorem kept_next {S : Session α → Prop} (h : S P.session)
    (hS : ∀ d, (t.request.command t.graph).resolve (lookup ((P.of t.graph).map Stage.outcome)) =
      some d → Action.Keeps S (Session.run d)) : S (P.next t).session := by
  change S (P.turn t).2
  unfold turn
  cases hd : (t.request.command t.graph).resolve (lookup ((P.of t.graph).map Stage.outcome)) with
  | none =>
    rw [step_of_none hd]
    exact h
  | some d =>
    rw [step_of_some hd]
    exact hS d hd _ h

theorem kept_all {S : Session α → Prop}
    (hS : ∀ d : Command α NodeId, Action.Keeps S (Session.run d)) (turns : List (Turn α)) :
    ∀ {P : Play α}, S P.session → S (P.all turns).session := by
  induction turns with
  | nil => exact fun h => h
  | cons t turns ih => exact fun h => ih (kept_next h fun d _ => hS d)

/-- **A turn on another graph.** -/
theorem waits_next (hok : SessionOK P.session) (ht : t.graph ≠ g) : P.Waits g (P.next t) where
  model m hm := by
    refine kept_next (S := Session.Holds g m) hm fun d hd => ?_
    obtain ⟨k, r⟩ := t
    cases r with
    | graph c hc =>
      obtain ⟨c', -, hd⟩ := Option.bind_eq_some_iff.1 hd
      obtain rfl := Option.some.inj hd
      exact keeps_others_runGraph (Ne.symm ht) c'
    | program p c =>
      obtain ⟨c', -, hd⟩ := Option.bind_eq_some_iff.1 hd
      obtain rfl := Option.some.inj hd
      exact keeps_others_runProgram (Ne.symm ht) p c'
  counter := by
    have hkept : SessionOK (P.next t).session ∧ P.session.nextId ≤ (P.next t).session.nextId := by
      refine kept_next (S := fun s => SessionOK s ∧ P.session.nextId ≤ s.nextId) ⟨hok, le_rfl⟩
        fun d _ s hs => ?_
      obtain ⟨_, hsince⟩ := since_run hs.1 d
      exact ⟨keeps_run d s hs.1, hs.2.trans hsince.counter⟩
    exact hkept.2
  stages := of_next_other P ht
  ok h := kept_next h fun d _ => keeps_run d

theorem waits_all {turns : List (Turn α)} (hturns : ∀ t ∈ turns, t.graph ≠ g) :
    ∀ {P : Play α}, SessionOK P.session → P.Waits g (P.all turns) := by
  induction turns with
  | nil => exact fun _ => .refl g _
  | cons t turns ih =>
    intro P hok
    have ht := waits_next hok (hturns t List.mem_cons_self)
    exact ht.trans (ih (fun u hu => hturns u (List.mem_cons_of_mem t hu)) (ht.ok hok))

end Play

variable [DecidableEq α]

/-- A request is carried out on both sides, or refers to a step that has answered no node on
both. -/
theorem Request.keepsPace {H : NodeId → NodeId → Prop} {env env' : Nat → Option NodeId}
    (h : ∀ i, Option.Rel H (env i) (env' i)) (g : Nat) (r : Request α) :
    Option.Rel (fun d d' => Action.KeepsPace (Session.Renamed g) Reply.Renamed H (Session.run d)
      (Session.run d')) ((r.command g).resolve env) ((r.command g).resolve env') := by
  cases r with
  | graph c hc =>
    exact rel_bind (GraphCommand.renamed_resolve h hc) fun _ _ hd => .some (keepsPace_runGraph g hd)
  | program p c =>
    exact rel_bind (ProgramCommand.renamed_resolve h c) fun _ _ hd =>
      .some (keepsPace_runProgram g p hd)

namespace Play

variable {P P' : Play α} {t : Turn α} {g : Nat} {H : NodeId → NodeId → Prop}

/-- **A turn of this party** comes to the same on both sides, and more handles correspond. -/
theorem Level.next (h : Level g H P P') (ht : t.graph = g) : ∃ I, H ≤ I ∧
    Level g I (P.next t) (P'.next t) := by
  subst ht
  have houtcomes : List.Forall₂ (Outcome.Renamed H) ((P.of t.graph).map Stage.outcome)
      ((P'.of t.graph).map Stage.outcome) := by
    rw [List.forall₂_map_left_iff, List.forall₂_map_right_iff]
    exact h.stages.imp fun _ _ he => he.outcome
  have hturn : ∃ I, H ≤ I ∧ Session.Renamed t.graph I (P.turn t).2 (P'.turn t).2 ∧
      Outcome.Renamed I (P.turn t).1 (P'.turn t).1 := by
    unfold turn
    have hpace := t.request.keepsPace (rel_lookup_renamed houtcomes) t.graph
    generalize
      hd : (t.request.command t.graph).resolve (lookup ((P.of t.graph).map Stage.outcome)) = x,
      hd' : (t.request.command t.graph).resolve (lookup ((P'.of t.graph).map Stage.outcome)) = x'
      at hpace
    cases hpace with
    | none =>
      rw [step_of_none hd, step_of_none hd']
      exact ⟨H, le_rfl, h.session, .unresolved⟩
    | some hpace =>
      rw [step_of_some hd, step_of_some hd']
      obtain ⟨I, hHI, hafter, hanswer⟩ := hpace _ _ h.session
      refine ⟨I, hHI, hafter, ?_⟩
      generalize Action.answer _ P.session = y, Action.answer _ P'.session = y' at hanswer
      cases hanswer with
      | ok hr => exact .answered hr
      | error he => exact .refused he
  obtain ⟨I, hHI, hsession, houtcome⟩ := hturn
  refine ⟨I, hHI, hsession, ?_, kept_next h.ok fun d _ => keeps_run d,
    kept_next h.ok' fun d _ => keeps_run d⟩
  rw [of_next_self, of_next_self]
  exact List.rel_append (h.stages.imp fun _ _ he => he.mono hHI)
    (.cons ⟨rfl, houtcome, hsession.model⟩ .nil)

/-- **All turns.** Those of one party are the same in both plays; where the others stand
makes no difference. -/
theorem Level.all (g : Nat) (turns : List (Turn α)) : ∀ (turns' : List (Turn α))
    {H : NodeId → NodeId → Prop}
    {P P' : Play α}, turns.filter (·.graph = g) = turns'.filter (·.graph = g) → Level g H P P' →
      ∃ I, H ≤ I ∧ Level g I (P.all turns) (P'.all turns') := by
  induction turns with
  | nil =>
    intro turns' H P P' hsame h
    have hothers : ∀ t ∈ turns', t.graph ≠ g := by simpa using hsame.symm
    exact ⟨H, le_rfl, h.waits (.refl g P) (waits_all hothers h.ok')⟩
  | cons t turns ih =>
    intro turns' H P P' hsame h
    by_cases ht : t.graph = g
    · -- the other play comes to this turn after some turns of others
      rw [List.filter_cons_of_pos (by simpa using ht)] at hsame
      obtain ⟨before, after, rfl, hbefore, -, hafter⟩ := List.filter_eq_cons_iff.1 hsame.symm
      have hothers : ∀ u ∈ before, u.graph ≠ g := by simpa using hbefore
      obtain ⟨I, hHI, hnext⟩ := (h.waits (.refl g P) (waits_all hothers h.ok')).next ht
      obtain ⟨J, hIJ, hlast⟩ := ih after hafter.symm hnext
      refine ⟨J, hHI.trans hIJ, ?_⟩
      have hsplit : P'.all (before ++ t :: after) = ((P'.all before).next t).all after := by
        unfold Play.all
        rw [List.foldl_append, List.foldl_cons]
      rw [hsplit]
      exact hlast
    · rw [List.filter_cons_of_neg (by simpa using ht)] at hsame
      exact ih turns' hsame (h.waits (waits_next h.ok ht) (.refl g P'))

/-! ## From the beginning -/

section Start

variable (first second : Settings) (counter counter' : Nat)

theorem apart_start : Session.Apart 0 1 (start (α := α) first second counter).session where
  ok := by
    have hnone : SessionOK (α := α) { nextId := counter } := fun m hm => by cases hm
    exact runAll_induction keeps_run _ _ hnone
  left := rfl
  right := rfl
  disjoint := by
    refine Set.disjoint_left.2 fun i hi _ => ?_
    obtain ⟨G, hG, n, hn, -⟩ := hi
    obtain rfl := Option.some.inj hG
    cases hn

/-- At the beginning no handles correspond. -/
theorem level_start {g : Nat} (hg : g < 2) :
    Level (α := α) g (fun _ _ => False) (start first second counter)
    (start first second counter') := by
  refine ⟨?_, .nil, (apart_start first second counter).ok, (apart_start first second counter').ok⟩
  have hempty : ∀ settings : Settings, Builder.Renamed (α := α) (fun _ _ => False)
      ⟨{ settings }, counter, []⟩ ⟨{ settings }, counter', []⟩ := fun settings =>
    ⟨⟨⟨rfl, ⟨.nil, .nil, .nil⟩, .nil⟩, fun _ _ h => h.elim⟩, fun _ _ _ _ h => h.elim,
      fun _ _ h => h.elim⟩
  have hcases : g = 0 ∨ g = 1 := by omega
  rcases hcases with rfl | rfl
  · exact ⟨_, _, rfl, rfl, hempty first, .nil⟩
  · exact ⟨_, _, rfl, rfl, hempty second, .nil⟩

end Start

end Play

/-- **Independent graphs do not influence each other.** In any two interleavings of the same steps,
everything that belongs to a graph (what each step on it has answered or been refused with, in words
too; its nodes with the values stored in them; its programs; and what it and they list) is the same
but for a renaming of handles. The renaming keeps the order of the handles of each graph, and takes
no two handles to one. It cannot keep the order between handles of different graphs, which is the
order of the turns. -/
theorem interleavings_agree (first second : Settings) (counter counter' : Nat)
    {A B : List (Request α)} {turns turns' : List (Turn α)} (h : Interleaving A B turns)
    (h' : Interleaving A B turns') :
    let P := (Play.start first second counter).all turns
    let P' := (Play.start first second counter').all turns'
    ∃ f : Nat → Nat, Set.InjOn f (P.session.handles 0 ∪ P.session.handles 1) ∧
      Play.AlikeUnder f 0 P P' ∧ Play.AlikeUnder f 1 P P' := by
  intro P P'
  obtain ⟨H, -, hfirst⟩ := Play.Level.all 0 turns turns' (h.filter.1.trans h'.filter.1.symm)
    (Play.level_start first second counter counter' Nat.zero_lt_two)
  obtain ⟨K, -, hsecond⟩ := Play.Level.all 1 turns turns' (h.filter.2.trans h'.filter.2.symm)
    (Play.level_start first second counter counter' Nat.one_lt_two)
  have hapart : ∀ n (us : List (Turn α)),
      Session.Apart 0 1 ((Play.start first second n).all us).session :=
    fun n us => Play.kept_all (keeps_apart Nat.zero_ne_one) us (Play.apart_start first second n)
  exact Play.exists_renaming hfirst hsecond (hapart counter turns) (hapart counter' turns')

end Steps

/-- A product, with a call that is refused before it, and its program. -/
def productRequests : List (Request ℚ) :=
  [.graph (.build (.taggedVariable 1 .nonneg)) nofun, .graph (.build (.scalar 2)) nofun,
    .graph (.build (.component 0 5)) nofun, .graph (.build (.mul 0 1)) nofun,
    .graph (.compile .everything 3 []) nofun, .program 0 (.objective [3] [1])]

/-- The negative of a sum. Before it, a compilation is refused for a vector, and a step
refers to that one. -/
def negativeRequests : List (Request ℚ) :=
  [.graph (.build (.taggedVariable 2 .nonneg)) nofun, .graph (.build (.sum 0)) nofun,
    .graph (.compile .everything 0 []) nofun, .graph (.build (.add 2 0)) nofun,
    .graph (.build (.neg 1)) nofun]

/-- The parties take turns. -/
def alternateTurns : List (Turn ℚ) :=
  ((productRequests.zip negativeRequests).flatMap fun (r, r') => [⟨0, r⟩, ⟨1, r'⟩]) ++
    [⟨0, .program 0 (.objective [3] [1])⟩]

/-- The second party comes first. -/
def successiveTurns : List (Turn ℚ) :=
  negativeRequests.map (Turn.mk 1) ++ productRequests.map (Turn.mk 0)

/-- When the second party comes first, its handles are the smallest, and its refusal
names another one. -/
theorem interleavings_agree_successive :
    let P := (Play.start {} {} 1).all alternateTurns
    let P' := (Play.start {} {} 1).all successiveTurns
    (P.of 0).map Stage.outcome = [.answered (.node ⟨1⟩), .answered (.node ⟨3⟩),
      .refused (.dimensionMismatch .slice (.rangeWithin 1) (.range 5 1)), .answered (.node ⟨5⟩),
      .answered (.program 0), .answered (.number 6)] ∧
    (P.of 1).map Stage.outcome = [.answered (.node ⟨2⟩), .answered (.node ⟨4⟩),
      .refused (.notScalar ⟨2⟩ 2), .unresolved, .answered (.node ⟨6⟩)] ∧
    ∃ f : Nat → Nat, (f 1 = 4 ∧ f 3 = 5 ∧ f 5 = 6) ∧ (f 2 = 1 ∧ f 4 = 2 ∧ f 6 = 3) ∧
      Play.AlikeUnder f 0 P P' ∧ Play.AlikeUnder f 1 P P' := by
  intro P P'
  have halternate : Interleaving productRequests negativeRequests alternateTurns :=
    .first _ <| .second _ <| .first _ <| .second _ <| .first _ <| .second _ <|
      .first _ <| .second _ <| .first _ <| .second _ <| .first _ .nil
  have hsuccessive : Interleaving productRequests negativeRequests successiveTurns :=
    .second _ <| .second _ <| .second _ <| .second _ <| .second _ <|
      .first _ <| .first _ <| .first _ <| .first _ <| .first _ <| .first _ .nil
  obtain ⟨f, -, hfirst, hsecond⟩ := interleavings_agree {} {} 1 1 halternate hsuccessive
  have hP₀ : (P.of 0).map Stage.outcome = [.answered (.node ⟨1⟩), .answered (.node ⟨3⟩),
      .refused (.dimensionMismatch .slice (.rangeWithin 1) (.range 5 1)), .answered (.node ⟨5⟩),
      .answered (.program 0), .answered (.number 6)] := by decide +kernel
  have hP₁ : (P.of 1).map Stage.outcome = [.answered (.node ⟨2⟩), .answered (.node ⟨4⟩),
      .refused (.notScalar ⟨2⟩ 2), .unresolved, .answered (.node ⟨6⟩)] := by decide +kernel
  have hP₀' : (P'.of 0).map (fun e => e.outcome.id?) =
      [some ⟨4⟩, some ⟨5⟩, none, some ⟨6⟩, none, none] := by decide +kernel
  have hP₁' : (P'.of 1).map (fun e => e.outcome.id?) =
      [some ⟨1⟩, some ⟨2⟩, none, none, some ⟨3⟩] := by decide +kernel
  have hrenamed : ∀ g, Play.AlikeUnder f g P P' → (P'.of g).map (fun e => e.outcome.id?) =
      ((P.of g).map Stage.outcome).map fun o => (o.rename f).id? := by
    intro g hg
    rw [hg.stages, List.map_map, List.map_map]
    rfl
  have hids₀ := hrenamed 0 hfirst
  have hids₁ := hrenamed 1 hsecond
  rw [hP₀, hP₀'] at hids₀
  rw [hP₁, hP₁'] at hids₁
  simp only [List.map_cons, List.map_nil, Outcome.rename, Reply.rename, Outcome.id?, Reply.id?,
    NodeId.rename, Error.rename, List.cons.injEq, Option.some.injEq, NodeId.mk.injEq, and_true,
    true_and] at hids₀ hids₁
  refine ⟨hP₀, hP₁, f, ⟨hids₀.1.symm, hids₀.2.1.symm, hids₀.2.2.symm⟩,
    ⟨hids₁.1.symm, hids₁.2.1.symm, hids₁.2.2.symm⟩, hfirst, hsecond⟩

end MixedMonotone
