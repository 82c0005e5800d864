import Mathlib
import MixedMonotone.Proofs.Acceptance
import MixedMonotone.Proofs.Atomicity
import MixedMonotone.Proofs.Views

/-!
# What calls lead to

A builder call on nodes whose views are known adds a node whose view is known, and nothing that a
handle showed is lost.

* `Graph.Shows`: a handle and its view, from which acceptance and answers follow.
* `Builder.Extends`: the builder has gone on.
* `Build.Leads`: **the call is answered** with a node of the view; `Build.Leads.bind` for calls
  one after the other.
* `leads_arith`, `leads_dot`, …: one lemma per call.
* `Graph.Interchangeable`: two nodes that cannot be told apart.
-/

namespace MixedMonotone

variable {α : Type}

theorem broadcast_eq {site : Site} {l r d : Nat} (h : Broadcasts l r d) :
    broadcast (α := α) site l r = .ok d := by
  unfold Broadcasts at h
  unfold broadcast
  split
  · exact congrArg Except.ok (by omega)
  · rw [if_pos (by omega)]
    exact congrArg Except.ok (by omega)

/-! ## Handles -/

theorem Arena.node_eq_ok {a : Arena α} {id : NodeId} {n : Node α} :
    a.node id = .ok n ↔ ∃ o, a.find id = .ok o ∧ o.node = n := map_eq_ok

namespace Graph

/-- Points as long as all variables of a graph are accepted. -/
theorem accepts_of_all {g : Graph α} {id : NodeId} {i : Nat} {x y : List α}
    (hid : g.nodes[i]?.map Node.id = some id) (hlen : x.length = y.length)
    (hall : ∀ n ∈ g.nodes, n.isVariable = true → n.dimension = x.length) : g.Accepts id x y :=
  ⟨i, hid, hlen, fun _ n _ hn => hall n (List.mem_of_getElem? hn)⟩

/-- The handle names a vector with `d` components. -/
def HasVector (g : Graph α) (id : NodeId) (d : Nat) : Prop :=
  ∃ o, g.arena.operand id = .ok o ∧ o.node.dimension = d

theorem hasVector_iff {g : Graph α} {id : NodeId} {d : Nat} :
    g.HasVector id d ↔ (g.arena.operand id).map (·.node.dimension) = .ok d := map_eq_ok.symm

instance [DecidableEq α] (g : Graph α) (id : NodeId) (d : Nat) : Decidable (g.HasVector id d) :=
  decidable_of_iff _ hasVector_iff.symm

variable [Scalar α]

/-- The evaluation is answered with `v`, **whatever evaluations before have left**. -/
def Answers (g : Graph α) (id : NodeId) (x y v : List α) : Prop :=
  ∀ g', g'.blank = g.blank → (evaluate id x y).answer g' = .ok v

/-- **Two nodes that cannot be told apart**: they have one dimension and one tag, the same points
are accepted for both, and the answers there are the same. -/
structure Interchangeable (g : Graph α) (id id' : NodeId) : Prop where
  signature : ∃ n n', g.arena.node id = .ok n ∧ g.arena.node id' = .ok n' ∧
    n.dimension = n'.dimension ∧ n.tag = n'.tag
  accepts : ∀ x y, g.Accepts id x y ↔ g.Accepts id' x y
  answers : ∀ x y, g.Accepts id x y → ∃ v, g.Answers id x y v ∧ g.Answers id' x y v

/-- The handle names a node that **shows a view**. -/
def Shows (g : Graph α) (id : NodeId) (V : View α) : Prop :=
  ∃ o, g.arena.find id = .ok o ∧ MixedMonotone.Shows g.nodes o.position V

variable {g : Graph α} {id id' : NodeId} {V W : View α} {x y : List α} {nextId : Nat}
    {log : List Event}

theorem exists_shows {o : Operand α} (h : g.arena.find id = .ok o) :
    ∃ V : View α, g.Shows id V ∧ V.toSignature = o.node.signature := by
  obtain ⟨-, hnode⟩ := Arena.find_eq_ok h
  obtain ⟨V, hV, hsig⟩ := MixedMonotone.exists_shows hnode
  exact ⟨V, ⟨o, h, hV⟩, hsig⟩

theorem HasVector.exists_shows {d : Nat} (h : g.HasVector id d) :
    ∃ V : View α, g.Shows id V ∧ V.IsVector ∧ V.dimension = d := by
  obtain ⟨o, ho, hd⟩ := h
  obtain ⟨hfind, hmatrix⟩ := Arena.operand_eq_ok ho
  obtain ⟨V, hV, hsig⟩ := Graph.exists_shows hfind
  exact ⟨V, hV, (congrArg Signature.matrix? hsig).trans hmatrix,
    (congrArg Signature.dimension hsig).trans hd⟩

/-- Handles that name numbers. -/
theorem exists_shows_numbers {items : List NodeId} (h : ∀ id ∈ items, g.HasVector id 1) :
    ∃ Vs : List (View α),
      List.Forall₂ (fun id V => g.Shows id V ∧ V.IsVector ∧ V.dimension = 1) items Vs :=
  exists_forall₂ fun id hid => (h id hid).exists_shows

namespace Shows

theorem node (h : g.Shows id V) : ∃ n, g.arena.node id = .ok n ∧ n.signature = V.toSignature := by
  obtain ⟨o, ho, hV⟩ := h
  exact ⟨o.node, by rw [Arena.node, ho]; rfl, hV.signature_eq (Arena.find_eq_ok ho).2⟩

/-- A vector is found as an operand. -/
theorem operand (h : g.Shows id V) (hvec : V.IsVector) :
    ∃ o, g.arena.operand id = .ok o ∧ o.node.signature = V.toSignature ∧
      MixedMonotone.Shows g.nodes o.position V := by
  obtain ⟨o, ho, hV⟩ := h
  have hsig := hV.signature_eq (Arena.find_eq_ok ho).2
  have hmatrix : o.node.matrix? = none := (congrArg Signature.matrix? hsig).trans hvec
  refine ⟨o, ?_, hsig, hV⟩
  rw [Arena.operand, ho]
  simp [bind, Except.bind, Node.isMatrix, hmatrix]

/-- The handle of a vector names one of its dimension only. -/
theorem hasVector_iff (h : g.Shows id V) (hvec : V.IsVector) {d : Nat} :
    g.HasVector id d ↔ V.dimension = d := by
  obtain ⟨o, ho, hsig, -⟩ := h.operand hvec
  have hdim : o.node.dimension = V.dimension := congrArg Signature.dimension hsig
  rw [Graph.hasVector_iff, ho, ← hdim]
  simp [Except.map]

theorem has (h : g.Shows id V) (hok : GraphOK nextId log g) {points : Points α}
    (hfits : V.Fits points) : (V.both points).Has V.dimension := by
  obtain ⟨o, -, hV⟩ := h
  exact hV.has hok.nodes hfits

theorem dimension_pos (h : g.Shows id V) (hok : GraphOK nextId log g) (hvec : V.IsVector) :
    0 < V.dimension := by
  obtain ⟨o, -, hV⟩ := h
  exact hV.dimension_pos hok.nodes hvec

theorem congr (h : g.Shows id V) (hVW : V.Same W) : g.Shows id W := by
  obtain ⟨o, ho, hV⟩ := h
  exact ⟨o, ho, hV.congr hVW⟩

/-- **Points are accepted** if they are equally long and fit the variables below. -/
theorem accepts_iff (h : g.Shows id V) (hok : GraphOK nextId log g) :
    g.Accepts id x y ↔ x.length = y.length ∧ V.Fits ⟨x, y⟩ := by
  obtain ⟨o, ho, hV⟩ := h
  obtain ⟨hpos, -⟩ := Arena.find_eq_ok ho
  rw [← exists_evaluable_iff hok.arena]
  simp only [evaluable_eq_ok hok.arena, hpos, ← hV.fits_iff]
  constructor
  · rintro ⟨i, hi, hin, hlen⟩
    obtain rfl := Option.some.inj hi
    exact ⟨hlen, hin⟩
  · rintro ⟨hlen, hin⟩
    exact ⟨o.position, rfl, hin, hlen⟩

/-- Points are accepted for several nodes if they are equally long and fit the
variables below each. -/
theorem forall_accepts_iff {ids : List NodeId} {Vs : List (View α)}
    (h : List.Forall₂ g.Shows ids Vs) (hok : GraphOK nextId log g) (hne : ids ≠ []) :
    (∀ id ∈ ids, g.Accepts id x y) ↔ x.length = y.length ∧ ∀ V ∈ Vs, V.Fits ⟨x, y⟩ := by
  constructor
  · intro hall
    have hboth : ∀ V ∈ Vs, x.length = y.length ∧ V.Fits ⟨x, y⟩ := by
      intro V hV
      obtain ⟨id, hid, hshows⟩ := forall₂_mem_left h.flip hV
      exact (accepts_iff hshows hok).1 (hall id hid)
    obtain ⟨id, hid⟩ := List.exists_mem_of_ne_nil ids hne
    obtain ⟨V, hV, -⟩ := forall₂_mem_left h hid
    exact ⟨(hboth V hV).1, fun V hV => (hboth V hV).2⟩
  · rintro ⟨hlen, hfits⟩ id hid
    obtain ⟨V, hV, hshows⟩ := forall₂_mem_left h hid
    exact (accepts_iff hshows hok).2 ⟨hlen, hfits V hV⟩

/-- **What is answered is the value that is shown.** -/
theorem answers (h : g.Shows id V) (hok : GraphOK nextId log g) (haccepts : g.Accepts id x y) :
    g.Answers id x y (V.value ⟨x, y⟩) := by
  intro g' hblank
  obtain ⟨hlen, hfits⟩ := (h.accepts_iff hok).1 haccepts
  obtain ⟨o, ho, hV⟩ := h
  obtain ⟨hpos, -⟩ := Arena.find_eq_ok ho
  have hok' : GraphOK nextId log g' := hok.of_blank_eq hblank.symm
  obtain ⟨halike, hpositions⟩ := Arena.blank_eq_iff.1 (Graph.blank_eq_iff.1 hblank).1
  have heval : g'.evaluable id x y = .ok o.position := by
    refine (evaluable_eq_ok hok'.arena).2 ⟨?_, (hV.fits_iff.2 hfits).alike halike.symm, hlen⟩
    rwa [Arena.position?, hpositions]
  obtain ⟨g'', hrun, -⟩ := evaluate_spec hok'.arena heval
  have hvalue : denote g'.nodes o.position ⟨x, y⟩ = V.value ⟨x, y⟩ := by
    have hdenote : denote g'.nodes = denote g.nodes := denote_alike halike
    rw [hdenote, hV.value _ hfits]
  exact Action.answer_eq_ok.2 ⟨g'', hvalue ▸ hrun⟩

/-- Nodes of one view cannot be told apart. -/
theorem interchangeable (h : g.Shows id V) (h' : g.Shows id' V) (hok : GraphOK nextId log g) :
    g.Interchangeable id id' := by
  obtain ⟨n, hn, hsig⟩ := h.node
  obtain ⟨n', hn', hsig'⟩ := h'.node
  have hsame : n.signature = n'.signature := hsig.trans hsig'.symm
  have haccepts : ∀ x y, g.Accepts id x y ↔ g.Accepts id' x y := fun x y =>
    (h.accepts_iff hok).trans (h'.accepts_iff hok).symm
  refine ⟨⟨n, n', hn, hn', congrArg Signature.dimension hsame, congrArg Signature.tag hsame⟩,
    haccepts, ?_⟩
  intro x y hxy
  exact ⟨_, h.answers hok hxy, h'.answers hok ((haccepts x y).1 hxy)⟩

end Shows

end Graph

/-! ## Calls -/

variable [Scalar α]

/-- **The builder has gone on**: it is well formed, under the same settings, and every handle
shows what it showed. -/
structure Builder.Extends (b b' : Builder α) : Prop where
  ok : GraphOK b'.nextId b'.log b'.graph
  settings : b'.graph.settings = b.graph.settings
  keeps : ∀ {id V}, b.graph.Shows id V → b'.graph.Shows id V

namespace Builder.Extends

variable {b b' b'' : Builder α}

theorem refl (hb : GraphOK b.nextId b.log b.graph) : b.Extends b := ⟨hb, rfl, fun h => h⟩

theorem trans (h : b.Extends b') (h' : b'.Extends b'') : b.Extends b'' :=
  ⟨h'.ok, h'.settings.trans h.settings, fun hV => h'.keeps (h.keeps hV)⟩

end Builder.Extends

/-- **The call is answered** with a node that shows the view, and the builder has gone on. -/
def Build.Leads (act : Build α NodeId) (b : Builder α) (V : View α) : Prop :=
  ∃ id b', act b = .ok id b' ∧ b.Extends b' ∧ b'.graph.Shows id V

/-- Two calls, the second one on what the first one has answered. -/
theorem Build.Leads.bind {act : Build α NodeId} {next : NodeId → Build α NodeId} {b : Builder α}
    {V W : View α} (h : act.Leads b V)
    (hnext : ∀ id b', b.Extends b' → b'.graph.Shows id V → (next id).Leads b' W) :
    Build.Leads (act >>= next) b W := by
  obtain ⟨id, b₁, hact, hext, hV⟩ := h
  obtain ⟨id', b₂, hrun, hext', hW⟩ := hnext id b₁ hext hV
  exact ⟨id', b₂, by rw [Action.bind_of_ok hact, hrun], hext.trans hext', hW⟩

section Calls

variable {b : Builder α} (hb : GraphOK b.nextId b.log b.graph)

include hb

/-- **A draft of a function node leads to what its operator shows.** -/
theorem leads_place {draft : Graph α → Except (Error α) (Draft α)} (hfits : FitsGraph draft)
    {op : Op α} {plan : Plan} {os : List (Operand α)} {d : Nat} {t : Tag} {notices : List Event}
    {Vs : List (View α)}
    (hdraft : draft b.graph = .ok { Draft.function op plan os d t with notices })
    (hVs : List.Forall₂ (fun o V => Shows b.graph.nodes o.position V) os Vs) :
    (Build.place draft).Leads b (View.apply b.graph.settings op d Vs) := by
  have hD := hfits b.graph _ hb.nodes hdraft
  generalize hdrafted : ({ Draft.function op plan os d t with notices } : Draft α) = D at hdraft hD
  have hnode : NodeOK b.graph.settings b.graph.nodes b.graph.nodes.length (b.nodeOf D) :=
    hD.node b.next
  have hok : GraphOK (b.append D).nextId (b.append D).log (b.append D).graph :=
    (BuilderOK.append ⟨hb, le_rfl, List.Subset.refl _⟩ hD).graph
  have hlast : (b.append D).graph.nodes[b.graph.nodes.length]? = some (b.nodeOf D) :=
    b.getElem?_append D
  refine ⟨b.next, b.append D, by rw [Build.place, hdraft], ⟨hok, rfl, ?_⟩, ?_⟩
  · rintro id V ⟨o, ho, hV⟩
    obtain ⟨hpos, hn⟩ := Arena.find_eq_ok ho
    obtain ⟨n, hn', rfl⟩ := (hb.arena.table id o.position).1 hpos
    obtain rfl := Option.some.inj (hn.symm.trans hn')
    have hstays : (b.append D).graph.nodes[o.position]? = some o.node :=
      getElem?_append_of_eq_some hn _
    exact ⟨o, hok.arena.find_eq hstays, hV.append hb.nodes hnode⟩
  · refine ⟨⟨_, b.nodeOf D⟩, hok.arena.find_eq hlast, ?_⟩
    subst hdrafted
    have hVs' : List.Forall₂ (Shows (b.append _).graph.nodes) (os.map (·.position)) Vs :=
      List.forall₂_map_left_iff.2 (hVs.imp fun _ _ hV => hV.append hb.nodes hnode)
    have hshows := shows_function hok.nodes hlast rfl hVs'
    have hdim : (b.nodeOf { Draft.function op plan os d t with notices }).dimension = d :=
      List.length_replicate
    rwa [hdim] at hshows

theorem leads_matvec {x y : NodeId} {V W : View α} (hx : b.graph.Shows x V) (hy : b.graph.Shows y W)
    {m : Matrix α} (hm : V.matrix? = some m) (hW : W.IsVector) (hd : W.dimension = m.cols) :
    (Build.matvec x y).Leads b (View.apply b.graph.settings
      (.matvec (Graph.matvecKernel m V.tag W.tag).2) m.rows [V, W]) := by
  obtain ⟨l, hl, hlV⟩ := hx
  obtain ⟨r, hr, hrsig, hrW⟩ := hy.operand hW
  have hlsig := hlV.signature_eq (Arena.find_eq_ok hl).2
  have hmatrix : l.node.matrix? = some m := (congrArg Signature.matrix? hlsig).trans hm
  have hltag : l.node.tag = V.tag := congrArg Signature.tag hlsig
  have hrtag : r.node.tag = W.tag := congrArg Signature.tag hrsig
  have hdim : r.node.dimension = m.cols := (congrArg Signature.dimension hrsig).trans hd
  have hdraft : Graph.draftMatvec x y b.graph =
      .ok (.function (.matvec (Graph.matvecKernel m V.tag W.tag).2)
        (Graph.matvecKernel m V.tag W.tag).1 [l, r] m.rows (V.tag.mul W.tag)) := by
    refine bind_eq_ok.2 ⟨l, hl, bind_eq_ok.2 ⟨r, hr, ?_⟩⟩
    rw [hmatrix, hltag, hrtag]
    dsimp only
    rw [if_neg (not_not.2 hdim)]
    rfl
  exact leads_place hb (Graph.fits_draftMatvec x y) hdraft (.cons hlV (.cons hrW .nil))

variable {x y : NodeId} {V W : View α} (hx : b.graph.Shows x V) (hy : b.graph.Shows y W)
    (hV : V.IsVector)
  (hW : W.IsVector)

include hx hV

theorem leads_unary {op : Op α} {route : Route} {tag : Tag → Tag} (hop : op ≠ .dot)
    (hfits : ∀ (s : Settings) (σ : Signature α), σ.IsVector →
      op.Fits s (.single route) [σ] σ.dimension (tag σ.tag)) :
    (Build.place (Graph.draftUnary op route tag x)).Leads b
      (View.apply b.graph.settings op V.dimension [V]) := by
  obtain ⟨o, ho, hsig, hoV⟩ := hx.operand hV
  have hdim : o.node.dimension = V.dimension := congrArg Signature.dimension hsig
  have hdraft : Graph.draftUnary op route tag x b.graph =
      .ok (.function op (.single route) [o] V.dimension (tag o.node.tag)) :=
    bind_eq_ok.2 ⟨o, ho, by rw [hdim]; rfl⟩
  exact leads_place hb (Graph.fits_draftUnary x hop hfits) hdraft (.cons hoV .nil)

theorem leads_neg : (Build.neg x).Leads b (View.apply b.graph.settings .neg V.dimension [V]) :=
  leads_unary hb hx hV (by simp) fun _ _ => .neg

theorem leads_sum : (Build.sum x).Leads b (View.apply b.graph.settings .sum 1 [V]) := by
  obtain ⟨o, ho, -, hoV⟩ := hx.operand hV
  have hdraft : Graph.draftSum x b.graph = .ok (.function .sum (.single .own) [o] 1 o.node.tag) :=
    bind_eq_ok.2 ⟨o, ho, rfl⟩
  exact leads_place hb (Graph.fits_draftSum x) hdraft (.cons hoV .nil)

theorem leads_prod : (Build.prod x).Leads b (View.apply b.graph.settings .prod 1 [V]) := by
  obtain ⟨o, ho, -, hoV⟩ := hx.operand hV
  have hdraft : Graph.draftProd x b.graph =
      .ok (.function .prod (if o.node.tag = .nonneg then .single .own else .interval) [o] 1
        (o.node.tag.prod o.node.dimension)) := bind_eq_ok.2 ⟨o, ho, rfl⟩
  exact leads_place hb (Graph.fits_draftProd x) hdraft (.cons hoV .nil)

theorem leads_slice {start length : Nat} (hpos : 0 < length) (hle : start + length ≤ V.dimension)
    (hword : start + length < wordSize) :
    (Build.slice x start length .checked).Leads b
      (View.apply b.graph.settings (.slice start) length [V]) := by
  obtain ⟨o, ho, hsig, hoV⟩ := hx.operand hV
  have hdim : o.node.dimension = V.dimension := congrArg Signature.dimension hsig
  have hrange : checkRange (α := α) start length o.node.dimension .checked = .ok () :=
    checkRange_checked.2 ⟨hpos, hdim ▸ hle, hword⟩
  have hdraft : Graph.draftSlice x start length .checked b.graph =
      .ok (.function (.slice start) (.single .own) [o] length o.node.tag) :=
    bind_eq_ok.2 ⟨o, ho, bind_eq_ok.2 ⟨(), hrange, rfl⟩⟩
  exact leads_place hb (Graph.fits_draftSlice x start length) hdraft (.cons hoV .nil)

include hy hW

theorem leads_arith (op : Arith) {d : Nat} (hd : Broadcasts V.dimension W.dimension d) :
    (Build.place (Graph.draftArith op x y)).Leads b
      (View.apply b.graph.settings (.arith op) d [V, W]) := by
  obtain ⟨l, hl, hlsig, hlV⟩ := hx.operand hV
  obtain ⟨r, hr, hrsig, hrW⟩ := hy.operand hW
  have hldim : l.node.dimension = V.dimension := congrArg Signature.dimension hlsig
  have hrdim : r.node.dimension = W.dimension := congrArg Signature.dimension hrsig
  have hdraft : Graph.draftArith op x y b.graph =
      .ok (.function (.arith op) (.binary (op.strategy l.node.tag r.node.tag)) [l, r] d
        (op.tag l.node.tag r.node.tag)) :=
    bind_eq_ok.2 ⟨l, hl,
      bind_eq_ok.2 ⟨r, hr, bind_eq_ok.2 ⟨d, broadcast_eq (hldim ▸ hrdim ▸ hd), rfl⟩⟩⟩
  exact leads_place hb (Graph.fits_draftArith op x y) hdraft (.cons hlV (.cons hrW .nil))

theorem leads_dot (hd : V.dimension = W.dimension) :
    (Build.dot x y).Leads b (View.apply b.graph.settings .dot 1 [V, W]) := by
  obtain ⟨l, hl, hlsig, hlV⟩ := hx.operand hV
  obtain ⟨r, hr, hrsig, hrW⟩ := hy.operand hW
  have hsize : l.node.dimension = r.node.dimension :=
    (congrArg Signature.dimension hlsig).trans (hd.trans (congrArg Signature.dimension hrsig).symm)
  have hdraft : Graph.draftDot x y b.graph =
      .ok { Draft.function .dot (.binary (Arith.mul.strategy l.node.tag r.node.tag)) [l, r] 1
              (b.graph.settings.dotTag l.node.tag r.node.tag) with
            notices := b.graph.settings.dotReports l.node.tag r.node.tag } := by
    refine bind_eq_ok.2 ⟨l, hl, bind_eq_ok.2 ⟨r, hr, ?_⟩⟩
    rw [if_neg (not_not.2 hsize), Graph.dotTag_eq]
    rfl
  exact leads_place hb (Graph.fits_draftDot x y) hdraft (.cons hlV (.cons hrW .nil))

/-- A difference adds the negation and then the sum. -/
theorem leads_sub {d : Nat} (hd : Broadcasts V.dimension W.dimension d) :
    (Build.sub x y).Leads b (View.apply b.graph.settings (.arith .add) d
      [V, View.apply b.graph.settings .neg W.dimension [W]]) := by
  obtain ⟨l, hl, hlsig, -⟩ := hx.operand hV
  obtain ⟨r, hr, hrsig, -⟩ := hy.operand hW
  have hldim : l.node.dimension = V.dimension := congrArg Signature.dimension hlsig
  have hrdim : r.node.dimension = W.dimension := congrArg Signature.dimension hrsig
  have hcheck : b.graph.checkDifference x y = .ok () :=
    bind_eq_ok.2 ⟨l, hl,
      bind_eq_ok.2 ⟨r, hr, bind_eq_ok.2 ⟨d, broadcast_eq (hldim ▸ hrdim ▸ hd), rfl⟩⟩⟩
  obtain ⟨id, b', hrun, hext, hshows⟩ := (leads_neg hb hy hW).bind fun negated b' hext hneg =>
    hext.settings ▸ leads_arith hext.ok (hext.keeps hx) hneg hV rfl .add hd
  refine ⟨id, b', ?_, hext, hshows⟩
  rw [Build.sub, Action.inquire_bind_eq, hcheck]
  exact hrun

end Calls

/-- Numbers are packed into one vector. -/
theorem leads_list {b : Builder α} (hb : GraphOK b.nextId b.log b.graph) {items : List NodeId}
    {Vs : List (View α)} (hne : items ≠ [])
    (hitems : List.Forall₂ (fun id V => b.graph.Shows id V ∧ V.IsVector ∧
      V.dimension = 1) items Vs) :
    (Build.list items).Leads b (View.apply b.graph.settings .list Vs.length Vs) := by
  obtain ⟨os, hos, hVs⟩ : ∃ os, items.mapM b.graph.listItem = .ok os ∧
      List.Forall₂ (fun o V => Shows b.graph.nodes o.position V) os Vs := by
    refine exists_mapM_of_forall₂ hitems ?_
    rintro id V ⟨hV, hvec, hdim⟩
    obtain ⟨o, ho, hsig, hoV⟩ := hV.operand hvec
    have hone : o.node.dimension = 1 := (congrArg Signature.dimension hsig).trans hdim
    exact ⟨o, bind_eq_ok.2 ⟨o, ho, by rw [if_pos hone]⟩, hoV⟩
  have hempty : items.isEmpty = false := List.isEmpty_eq_false_iff.2 hne
  have hdraft : Graph.draftList items b.graph =
      .ok (.function .list (.single .own) os Vs.length (Tag.list (os.map (·.node.tag)))) := by
    rw [Graph.draftList, hempty, ← hVs.length_eq]
    exact bind_eq_ok.2 ⟨os, hos, rfl⟩
  exact leads_place hb (Graph.fits_draftList items) hdraft hVs

end MixedMonotone
