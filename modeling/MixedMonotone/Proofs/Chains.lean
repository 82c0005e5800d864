import Mathlib
import MixedMonotone.Proofs.Leading
import MixedMonotone.Proofs.Signs

/-!
# Products of many numbers

The product of a packed vector folds an interval from one, by the strategy for operands of unknown
sign. A chain of multiplications chooses a strategy for each link, from the tag of all links before.

* `View.Measures`: a number along both routes, of the sign that its tag says.
* `View.Measures.mul`: **one link** is one step of the interval; `View.Measures.chain`:
  so is the whole chain.
* `View.value_prod`: the product of a vector, as a fold of the same interval.
* `Tag.prod_list_eq_foldl`: a tag that the product has is the one of the chain.
* `prod_agrees_with_chain`: **the two are answered alike**, whatever the tags.
-/

namespace MixedMonotone

/-! ## Numbers of truthful tags -/

section Measures

variable {K : Type} [Field K] [LinearOrder K]

/-- The points have the signs that the variables declare. -/
def View.Respects (V : View K) (points : Points K) : Prop :=
  ∀ σ ∈ V.inputs, (∀ a ∈ points.own, σ.tag.Holds a) ∧ ∀ a ∈ points.swapped, σ.tag.Holds a

/-- The points have the signs that the variables below the node declare. -/
def Graph.RespectsSigns (g : Graph K) (id : NodeId) (x y : List K) : Prop :=
  ∃ i, g.nodes[i]?.map Node.id = some id ∧ MixedMonotone.RespectsSigns g.nodes i ⟨x, y⟩

/-- **A number along both routes**, of the sign that its tag says. -/
structure View.Measures (V : View K) (points : Points K) (d : Dual K) : Prop where
  both : V.both points = ⟨[d.own], [d.swapped]⟩
  sign : V.tag.HoldsBoth d

namespace View.Measures

variable {V : View K} {points : Points K} {d : Dual K}

theorem flip (h : V.Measures points d) : V.Measures points.flip d.flip :=
  ⟨by rw [both_flip, h.both]; rfl, h.sign.flip⟩

theorem has (h : V.Measures points d) : (V.both points).Has 1 := h.both ▸ ⟨rfl, rfl⟩

theorem value_eq (h : V.Measures points d) : V.value points = [d.own] := congrArg Dual.own h.both

end View.Measures

variable [Logarithms K]

theorem View.respects_apply {s : Settings} {op : Op K} {d : Nat} {Vs : List (View K)}
    {points : Points K} :
    (View.apply s op d Vs).Respects points ↔ ∀ V ∈ Vs, V.Respects points := View.forall_inputs_apply

theorem Shows.respects_iff {nodes : List (Node K)} {i : Nat} {V : View K} {points : Points K}
    (h : Shows nodes i V) : RespectsSigns nodes i points ↔ V.Respects points := by
  rw [View.Respects, ← h.inputs]
  constructor
  · rintro hsigns _ ⟨j, n, hij, hn, hv, rfl⟩
    exact hsigns j n hij hn hv
  · intro hsigns j n hij hn hv
    exact hsigns n.signature ⟨j, n, hij, hn, hv, rfl⟩

theorem Graph.Shows.respects_iff {g : Graph K} {nextId : Nat} {log : List Event} {id : NodeId}
    {V : View K} (h : g.Shows id V) (hok : GraphOK nextId log g) {x y : List K} :
    g.RespectsSigns id x y ↔ V.Respects ⟨x, y⟩ := by
  obtain ⟨o, ho, hV⟩ := h
  obtain ⟨hpos, -⟩ := Arena.find_eq_ok ho
  rw [← hV.respects_iff]
  constructor
  · rintro ⟨i, hi, hsigns⟩
    obtain rfl := Option.some.inj (hpos.symm.trans (hok.arena.position?_eq_some_iff.2 hi))
    exact hsigns
  · exact fun hsigns => ⟨o.position, hok.arena.position?_eq_some_iff.1 hpos, hsigns⟩

variable [IsStrictOrderedRing K]

section Truthful

variable {g : Graph K} {nextId : Nat} {log : List Event} (hok : GraphOK nextId log g)
  (hsign : g.settings.parameterSign = .reduced) (hdot : g.settings.dotSign = .nonpositive)
  {points : Points K}

include hok hsign hdot

/-- Under truthful settings a node with one component **measures some number**. -/
theorem Graph.Shows.exists_measures {id : NodeId} {V : View K} (h : g.Shows id V)
    (hdim : V.dimension = 1) (hfits : V.Fits points) (hpoints : V.Respects points) :
    ∃ d, V.Measures points d := by
  obtain ⟨o, ho, hV⟩ := h
  obtain ⟨-, hnode⟩ := Arena.find_eq_ok ho
  have htag : o.node.tag = V.tag := congrArg Signature.tag (hV.signature_eq hnode)
  have hin := hV.fits_iff.2 hfits
  have hsigns := hV.respects_iff.2 hpoints
  have hown := denote_holds hsign hdot hok.nodes _ _ points hnode hin hsigns
  have hswapped := denote_holds hsign hdot hok.nodes _ _ points.flip hnode hin.flip hsigns.flip
  rw [hV.value points hfits, htag] at hown
  rw [hV.value points.flip hfits.flip, htag] at hswapped
  obtain ⟨a, b, ha, hb⟩ := View.exists_numbers (hdim ▸ hV.has hok.nodes hfits)
  refine ⟨⟨a, b⟩, by rw [View.both, ha, hb], hown a ?_, hswapped b ?_⟩
  · simp [ha]
  · simp [hb]

theorem exists_measures_numbers {items : List NodeId} {Vs : List (View K)}
    (h : List.Forall₂ (fun id V => g.Shows id V ∧ V.IsVector ∧ V.dimension = 1) items Vs)
    (hfits : ∀ V ∈ Vs, V.Fits points) (hpoints : ∀ V ∈ Vs, V.Respects points) :
    ∃ ds, List.Forall₂ (fun V d => V.Measures points d) Vs ds := by
  refine exists_forall₂ fun V hV => ?_
  obtain ⟨id, -, hid, -, hdim⟩ := forall₂_mem_left h.flip hV
  exact hid.exists_measures hok hsign hdot hdim (hfits V hV) (hpoints V hV)

end Truthful

end Measures

/-! ## Tags -/

namespace Tag

/-- The tag of a chain whose operands share a tag goes by the parity. -/
theorem foldl_mul_prod (t : Tag) {ts : List Tag} (h : ∀ t' ∈ ts, t' = t) :
    ∀ n, ts.foldl mul (t.prod n) = t.prod (n + ts.length) := by
  induction ts with
  | nil => exact fun n => rfl
  | cons t' ts ih =>
    intro n
    obtain ⟨rfl, hts⟩ := List.forall_mem_cons.1 h
    rw [List.foldl_cons, prod_succ, ih hts, List.length_cons, Nat.add_comm ts.length, Nat.add_assoc]

/-- A packed vector of known tag is packed from nodes of that tag. -/
theorem eq_of_list_known {ts : List Tag} (h : Tag.list ts ≠ .unknown) :
    ∀ t ∈ ts, t = Tag.list ts := by
  unfold Tag.list at h ⊢
  split
  · rename_i hall
    simpa using hall
  · rename_i hsome
    rw [if_neg hsome] at h
    split
    · rename_i hall
      simpa using hall
    · rename_i hmixed
      rw [if_neg hmixed] at h
      exact absurd rfl h

/-- **A known tag of a product is the tag of the chain.** -/
theorem prod_list_eq_foldl (t : Tag) (ts : List Tag) :
    (Tag.list (t :: ts)).prod (ts.length + 1) = .unknown ∨
      (Tag.list (t :: ts)).prod (ts.length + 1) = ts.foldl mul t := by
  by_cases hlist : Tag.list (t :: ts) = .unknown
  · exact .inl (by rw [hlist]; rfl)
  · obtain ⟨ht, hts⟩ := List.forall_mem_cons.1 (eq_of_list_known hlist)
    have hone : (Tag.list (t :: ts)).prod 1 = t := by
      rw [← ht]
      cases t <;> rfl
    have hchain := foldl_mul_prod (Tag.list (t :: ts)) hts 1
    rw [hone, Nat.add_comm] at hchain
    exact .inr hchain.symm

end Tag

/-! ## Chains -/

/-- What a chain of multiplications shows, link by link. -/
def View.chain {α : Type} [Scalar α] (s : Settings) (V : View α) (Vs : List (View α)) : View α :=
  Vs.foldl (fun product W => View.apply s (.arith .mul) 1 [product, W]) V

theorem View.tag_chain {α : Type} [Scalar α] {s : Settings} (Vs : List (View α)) :
    ∀ V : View α, (View.chain s V Vs).tag = (Vs.map fun W => W.tag).foldl Tag.mul V.tag := by
  induction Vs with
  | nil => exact fun V => rfl
  | cons W Vs ih => exact fun V => ih (View.apply s (.arith .mul) 1 [V, W])

/-- **The tag of the product is unknown or that of the chain.** -/
theorem View.tag_prod_list {α : Type} [Scalar α] {s : Settings} (V : View α) (Vs : List (View α)) :
    (View.apply s .prod 1 [View.apply s .list (V :: Vs).length (V :: Vs)]).tag = .unknown ∨
      (View.apply s .prod 1 [View.apply s .list (V :: Vs).length (V :: Vs)]).tag =
        (View.chain s V Vs).tag := by
  have htags : ((V :: Vs).map View.toSignature).map Signature.tag = V.tag :: Vs.map
      fun W => W.tag :=
    List.map_map
  have hparity := Tag.prod_list_eq_foldl V.tag (Vs.map fun W => W.tag)
  rw [List.length_map, ← htags] at hparity
  rw [View.tag_chain]
  exact hparity

theorem View.fits_chain {α : Type} [Scalar α] {s : Settings} {points : Points α}
    (Vs : List (View α)) :
    ∀ V : View α, (View.chain s V Vs).Fits points ↔ ∀ W ∈ V :: Vs, W.Fits points := by
  induction Vs with
  | nil => intro V; simp [chain]
  | cons W Vs ih =>
    intro V
    have hlink := ih (View.apply s (.arith .mul) 1 [V, W])
    rw [List.forall_mem_cons, fits_apply] at hlink
    simpa [chain, and_assoc] using hlink

/-- **A chain of multiplications** is answered, and shows what its links do. -/
theorem leads_chain {α : Type} [Scalar α] {rest : List NodeId} {Vs : List (View α)} :
    ∀ {b : Builder α} {first : NodeId} {V : View α}, GraphOK b.nextId b.log b.graph →
      b.graph.Shows first V → V.IsVector → V.dimension = 1 →
      List.Forall₂ (fun id V => b.graph.Shows id V ∧ V.IsVector ∧ V.dimension = 1) rest Vs →
      Build.Leads (rest.foldlM Build.mul first) b (View.chain b.graph.settings V Vs) := by
  -- link by link from the left, each on the builder that the links before have left
  induction rest generalizing Vs with
  | nil =>
    intro b first V hb hV _ _ hrest
    cases hrest
    exact ⟨first, b, rfl, .refl hb, hV⟩
  | cons next rest ih =>
    intro b first V hb hV hvec hdim hrest
    cases hrest with
    | cons hnext hrest =>
      obtain ⟨hW, hWvec, hWdim⟩ := hnext
      rw [List.foldlM_cons]
      refine (leads_arith hb hV hW hvec hWvec .mul (.inl ⟨hdim, .inl hWdim⟩)).bind
        fun id b' hext hlink => ?_
      have hrest' := hrest.imp fun _ _ h => (⟨hext.keeps h.1, h.2⟩ : _ ∧ _)
      have hchain := ih hext.ok hlink rfl rfl hrest'
      rwa [hext.settings] at hchain

variable {K : Type} [Field K] [LinearOrder K] [Logarithms K]

/-! ## Values -/

namespace View

variable {s : Settings} {V W : View K} {Vs : List (View K)} {points : Points K} {d e : Dual K}
  {es : List (Dual K)}

/-- Two numbers of truthful tags multiply to the bound, by whatever strategy. -/
theorem Measures.value_mul (hV : V.Measures points d) (hW : W.Measures points e) :
    (apply s (.arith .mul) 1 [V, W]).value points = [productBound d e] := by
  rw [value_arith hV.has hW.has (.inl ⟨rfl, .inl rfl⟩), hV.both, hW.both]
  exact congrArg (fun a => [a]) (Arith.combine_mul_eq_bound hV.sign hW.sign)

/-- A packed vector holds its numbers along both routes. -/
theorem both_list {n : Nat} (hVs : List.Forall₂ (fun W e => W.Measures points e) Vs es) :
    (apply s .list n Vs).both points = ⟨es.map Dual.own, es.map Dual.swapped⟩ := by
  have hvalue : ∀ {points : Points K} {es : List (Dual K)},
      List.Forall₂ (fun W e => W.Measures points e) Vs es →
        (apply s .list n Vs).value points = es.map Dual.own := by
    intro points es hVs
    have hhas : ∀ V ∈ Vs, (V.both points).Has 1 := by
      intro V hV
      obtain ⟨e, -, he⟩ := forall₂_mem_left hVs hV
      exact he.has
    rw [value_list hhas]
    exact map_eq_of_forall₂ hVs fun V e he => by rw [he.value_eq]; rfl
  have hflip : List.Forall₂ (fun W e => W.Measures points.flip e) Vs (es.map Dual.flip) :=
    List.forall₂_map_right_iff.2 (hVs.imp fun _ _ he => he.flip)
  rw [View.both, hvalue hVs, hvalue hflip, List.map_map]
  rfl

/-- The tag of a packed vector tells the truth about each of its numbers. -/
theorem holds_list {n : Nat} (hVs : List.Forall₂ (fun W e => W.Measures points e) Vs es) :
    ∀ e ∈ es, (apply s .list n Vs).tag.HoldsBoth e := by
  intro e he
  obtain ⟨V, hV, hVe⟩ := forall₂_mem_left hVs.flip he
  have htag : V.tag ∈ (Vs.map View.toSignature).map Signature.tag :=
    List.mem_map.2 ⟨V.toSignature, List.mem_map_of_mem hV, rfl⟩
  exact ⟨Tag.holds_list htag hVe.sign.1, Tag.holds_list htag hVe.sign.2⟩

variable [IsStrictOrderedRing K]

/-- **One link** of a chain is one step of the interval. -/
theorem Measures.mul (hV : V.Measures points d) (hW : W.Measures points e) :
    (apply s (.arith .mul) 1 [V, W]).Measures points ⟨productBound d e,
      productBound d.flip e.flip⟩ := by
  have hown := hV.value_mul (s := s) hW
  have hswapped := hV.flip.value_mul (s := s) hW.flip
  refine ⟨by rw [View.both, hown, hswapped], productBound_holds hV.sign hW.sign, ?_⟩
  exact productBound_holds hV.sign.flip hW.sign.flip

/-- **A whole chain** is the fold of the interval from its first number. -/
theorem Measures.chain (hVs : List.Forall₂ (fun W e => W.Measures points e) Vs es) :
    ∀ {V : View K} {d : Dual K}, V.Measures points d →
      (chain s V Vs).Measures points (intervalFold d (es.map fun e => (e.own, e.swapped))) := by
  induction hVs with
  | nil => exact fun hV => hV
  | cons hW _ ih =>
    intro V d hV
    rw [List.map_cons, intervalFold_cons]
    exact ih (hV.mul hW)

/-- **The product of a vector** of truthful tag is the fold of the interval from one. -/
theorem value_prod (hvec : V.IsVector) (hdim : V.dimension = es.length)
    (hboth : V.both points = ⟨es.map Dual.own, es.map Dual.swapped⟩)
    (hsign : ∀ e ∈ es, V.tag.HoldsBoth e) : (apply s .prod 1 [V]).value points =
      [(intervalFold ⟨1, 1⟩ (es.map fun e => (e.own, e.swapped))).own] := by
  have hsizes : HaveSizes [V.both points] [V.toSignature] :=
    .cons (by rw [hboth, hdim]; exact ⟨List.length_map _, List.length_map _⟩) .nil
  have hsigns : HaveSigns [V.both points] [V.toSignature] := by
    refine .cons ⟨?_, ?_, fun m hm => ?_⟩ .nil
    · rw [hboth]
      exact List.forall_mem_map.2 fun e he => (hsign e he).1
    · rw [hboth]
      exact List.forall_mem_map.2 fun e he => (hsign e he).2
    · rw [hvec] at hm
      cases hm
  have hprod : (apply s .prod 1 [V]).value points =
      [intervalProduct (V.both points).own (V.both points).swapped] :=
    value_apply (Op.combine_eq_bound (s := s) (.prod hvec) hsizes hsigns)
  rw [hprod, hboth, intervalProduct_eq, List.zip_map']

/-- **The product of the packed vector and the chain have one value.** -/
theorem value_prod_list (hV : V.Measures points d)
    (hVs : List.Forall₂ (fun W e => W.Measures points e) Vs es) :
    (apply s .prod 1 [apply s .list (V :: Vs).length (V :: Vs)]).value points =
      (chain s V Vs).value points := by
  have hall : List.Forall₂ (fun W e => W.Measures points e) (V :: Vs) (d :: es) := .cons hV hVs
  have hvec : (apply s .list (V :: Vs).length (V :: Vs)).IsVector := rfl
  rw [value_prod hvec hall.length_eq (both_list hall) (holds_list hall),
    (Measures.chain hVs hV).value_eq, List.map_cons, intervalFold_one_cons]

end View

/-! ## Answers -/

/-- **The product of many numbers is the chain of their multiplications.** In every reachable
graph whose settings keep the tags truthful, any numbers can be packed into a vector and
multiplied, and multiplied one by one. The two products accept the same points as all the numbers.
Where these points have the signs that the variables declare, they are answered alike, in whatever
order they are; a quotient by zero, which is zero here, does no harm. The tag of the former is
unknown or that of the latter. -/
theorem prod_agrees_with_chain [IsStrictOrderedRing K] (commands : List (Command K NodeId))
    {g : Nat} {b : Builder K} (hb : (Session.runAll commands {}).builder? g = some b)
    (hsign : b.graph.settings.parameterSign = .reduced)
    (hdot : b.graph.settings.dotSign = .nonpositive) {first : NodeId} {rest : List NodeId}
    (hitems : ∀ id ∈ first :: rest, b.graph.HasVector id 1) :
    ∃ product chain b' P C,
      (do
        let packed ← Build.list (first :: rest)
        return (← Build.prod packed, ← rest.foldlM Build.mul first)) b = .ok (product, chain) b' ∧
      b'.graph.arena.node product = .ok P ∧ b'.graph.arena.node chain = .ok C ∧
      (P.tag = .unknown ∨ P.tag = C.tag) ∧
      ∀ x y, (∀ id ∈ [product, chain], b'.graph.Accepts id x y ↔
          ∀ a ∈ first :: rest, b.graph.Accepts a x y) ∧
        (b'.graph.Accepts product x y → b'.graph.RespectsSigns product x y →
          ∃ v, b'.graph.Answers product x y [v] ∧ b'.graph.Answers chain x y [v]) := by
  have hok := builderOK_runAll hb
  obtain ⟨Ws, hWs⟩ := Graph.exists_shows_numbers hitems
  obtain ⟨V, Vs, ⟨hV, hVvec, hVdim⟩, hVs, rfl⟩ := List.forall₂_cons_left_iff.1 hWs
  have hshows : List.Forall₂ b.graph.Shows (first :: rest) (V :: Vs) := hWs.imp fun _ _ h => h.1
  -- the vector, its product and the chain, each added to what was there
  obtain ⟨packed, b₁, hrun₁, h₁, hpacked⟩ := leads_list hok (List.cons_ne_nil first rest) hWs
  obtain ⟨product, b₂, hrun₂, h₂, hproduct⟩ := leads_prod h₁.ok hpacked rfl
  have h₁₂ := h₁.trans h₂
  obtain ⟨chain, b₃, hrun₃, h₃, hchain⟩ := leads_chain h₂.ok (h₁₂.keeps hV) hVvec hVdim
    (hVs.imp fun _ _ h => (⟨h₁₂.keeps h.1, h.2⟩ : _ ∧ _))
  have hproduct := h₃.keeps hproduct
  rw [h₁.settings] at hproduct
  rw [h₁₂.settings] at hchain
  obtain ⟨P, hP, hPsig⟩ := hproduct.node
  obtain ⟨C, hC, hCsig⟩ := hchain.node
  have hPtag : P.tag = _ := congrArg Signature.tag hPsig
  have hCtag : C.tag = _ := congrArg Signature.tag hCsig
  refine ⟨product, chain, b₃, P, C, ?_, hP, hC, ?_, fun x y => ⟨?_, fun haccepts hsigns => ?_⟩⟩
  · rw [Action.bind_of_ok hrun₁, Action.bind_of_ok hrun₂, Action.bind_of_ok hrun₃]
    rfl
  · rw [hPtag, hCtag]
    exact View.tag_prod_list V Vs
  · rw [Graph.Shows.forall_accepts_iff hshows hok (List.cons_ne_nil first rest)]
    simp [hproduct.accepts_iff h₃.ok, hchain.accepts_iff h₃.ok, View.fits_apply, View.fits_chain]
  · have hrespects := (hproduct.respects_iff h₃.ok).1 hsigns
    obtain ⟨hlen, hfits⟩ := (hproduct.accepts_iff h₃.ok).1 haccepts
    rw [View.fits_apply, List.forall_mem_singleton, View.fits_apply] at hfits
    rw [View.respects_apply, List.forall_mem_singleton, View.respects_apply] at hrespects
    obtain ⟨ds, hds⟩ := exists_measures_numbers hok hsign hdot hWs hfits hrespects
    obtain ⟨d, es, hfirst, hes, -⟩ := List.forall₂_cons_left_iff.1 hds
    have hcaccepts : b₃.graph.Accepts chain x y :=
      (hchain.accepts_iff h₃.ok).2 ⟨hlen, (View.fits_chain Vs V).2 hfits⟩
    have hpanswers := hproduct.answers h₃.ok haccepts
    have hcanswers := hchain.answers h₃.ok hcaccepts
    rw [View.value_prod_list hfirst hes] at hpanswers
    rw [(View.Measures.chain hes hfirst).value_eq] at hpanswers hcanswers
    exact ⟨_, hpanswers, hcanswers⟩

/-- A variable that is declared nonnegative, the sum of its components, and a negative number. -/
def mixedFactorCommands : List (Command ℚ NodeId) :=
  [.newGraph { dotSign := .nonpositive }, .graph 0 (.build (.taggedVariable 2 .nonneg)),
    .graph 0 (.build (.sum ⟨1⟩)), .graph 0 (.build (.scalar (-3)))]

/-- Three factors of mixed signs, packed and multiplied, and multiplied one by one. -/
def mixedFactorBuild : Build ℚ (NodeId × NodeId) := do
  let packed ← Build.list [⟨2⟩, ⟨3⟩, ⟨2⟩]
  return (← Build.prod packed, ← [⟨3⟩, ⟨2⟩].foldlM Build.mul ⟨2⟩)

/-- The two products agree where the points are out of order, and the tag of the former is **unknown
where that of the latter is known**. -/
theorem prod_agrees_with_chain_mixed : ∃ (b b' : Builder ℚ) (chain : NodeId) (P C : Node ℚ) (v : ℚ),
    (Session.runAll mixedFactorCommands {}).builder? 0 = some b ∧
    mixedFactorBuild b = .ok (⟨5⟩, chain) b' ∧
    b'.graph.arena.node ⟨5⟩ = .ok P ∧ b'.graph.arena.node chain = .ok C ∧ P.tag = .unknown ∧
    C.tag = .nonpos ∧ b'.graph.Answers ⟨5⟩ [5, 0] [2, 4] [v] ∧
    b'.graph.Answers chain [5, 0] [2, 4] [v] := by
  obtain ⟨b, hb, hsign, hdot, hitems, hanswer, hPtag, hCtag, hplace, hall, hsigns⟩ :
      ∃ b : Builder ℚ, (Session.runAll mixedFactorCommands {}).builder? 0 = some b ∧
        b.graph.settings.parameterSign = .reduced ∧ b.graph.settings.dotSign = .nonpositive ∧
        (∀ id ∈ [⟨2⟩, ⟨3⟩, ⟨2⟩], b.graph.HasVector id 1) ∧
        mixedFactorBuild.answer b = .ok (⟨5⟩, ⟨7⟩) ∧
        ((mixedFactorBuild.after b).graph.arena.node ⟨5⟩).map Node.tag = .ok .unknown ∧
        ((mixedFactorBuild.after b).graph.arena.node ⟨7⟩).map Node.tag = .ok .nonpos ∧
        (mixedFactorBuild.after b).graph.nodes[4]?.map Node.id = some ⟨5⟩ ∧
        (∀ n ∈ (mixedFactorBuild.after b).graph.nodes, n.isVariable = true → n.dimension = 2) ∧
        (∀ n ∈ (mixedFactorBuild.after b).graph.nodes, n.isVariable = true →
          (∀ a ∈ ([5, 0] : List ℚ), n.tag.Holds a) ∧ ∀ a ∈ ([2, 4] : List ℚ), n.tag.Holds a) :=
    ⟨((Session.runAll mixedFactorCommands {}).builder? 0).getD ⟨{}, 0, []⟩, by decide +kernel⟩
  obtain ⟨product, chain, b', P, C, hrun, hP, hC, -, hpoints⟩ :=
    prod_agrees_with_chain mixedFactorCommands hb hsign hdot hitems
  obtain ⟨b'', hrun'⟩ := Action.answer_eq_ok.1 hanswer
  obtain ⟨⟨rfl, rfl⟩, rfl⟩ : (⟨5⟩ = product ∧ ⟨7⟩ = chain) ∧ b'' = b' := by
    simpa using hrun'.symm.trans hrun
  rw [Action.after_eq_of_ok hrun'] at hPtag hCtag hplace hall hsigns
  rw [hP] at hPtag
  rw [hC] at hCtag
  obtain ⟨v, hv, hv'⟩ :=
    (hpoints [5, 0] [2, 4]).2 (Graph.accepts_of_all hplace rfl hall) ⟨4, hplace, .of_all hsigns⟩
  exact ⟨b, b'', ⟨7⟩, P, C, v, hb, hrun', hP, hC, Except.ok.inj hPtag, Except.ok.inj hCtag, hv, hv'⟩

end MixedMonotone
