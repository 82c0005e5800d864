import Mathlib
import MixedMonotone.Proofs.Replication

/-!
# Packing and slicing

Numbers are packed into a vector by one operator, and taken out of it by another one. Each has its
own tag rule, and many components may share the vector that they are taken from.

* `same_list_components`: the components of a vector, packed again; `same_slice_slice`: a range of a
  range.
* `leads_components`: taking several components.
* `exists_slice_iff`: ranges are accepted **exactly if they lie within the vector**.
* `packing_inverse_slicing`: packing and slicing undo each other, and ranges compose.
-/

namespace MixedMonotone

variable {α : Type} [Scalar α]

/-! ## Views -/

namespace View

variable {s : Settings} {V : View α} {points : Points α}

/-- The components of a vector. -/
def components (s : Settings) (V : View α) : List (View α) :=
  (List.range V.dimension).map fun i => apply s (.slice i) 1 [V]

/-- A component taken out of a vector. -/
theorem value_component {i : Nat} (hi : i < V.dimension) (h : (V.both points).Has V.dimension) :
    (apply s (.slice i) 1 [V]).value points = [(V.value points).getD i 0] := by
  have hlt : i < (V.value points).length := h.1.symm ▸ hi
  rw [value_slice h hi, List.take_one, List.head?_drop, List.getD_eq_getElem?_getD,
    List.getElem?_eq_getElem hlt]
  rfl

/-- **The components of a vector, packed again, are the vector.** -/
theorem same_list_components (hvec : V.IsVector) (hpos : 0 < V.dimension)
    (hV : ∀ points, V.Fits points → (V.both points).Has V.dimension) :
    (apply s .list V.dimension (V.components s)).Same V := by
  refine ⟨rfl, ?_, hvec.symm, ?_, fun points hfits => ?_⟩
  · -- every component has the tag of the vector, and so has the list
    have htags : ((V.components s).map toSignature).map Signature.tag =
        List.replicate V.dimension V.tag := by
      simp [components, List.map_map, Function.comp_def, apply, Op.tagFor, List.map_const']
    exact (congrArg Tag.list htags).trans (Tag.list_replicate V.tag hpos)
  · ext σ
    constructor
    · rintro ⟨W, hW, hσ⟩
      obtain ⟨i, -, rfl⟩ := List.mem_map.1 hW
      obtain ⟨U, hU, hσ⟩ := hσ
      exact List.mem_singleton.1 hU ▸ hσ
    · intro hσ
      exact ⟨_, List.mem_map.2 ⟨0, List.mem_range.2 hpos, rfl⟩, V, List.mem_singleton_self V, hσ⟩
  · have hfit : V.Fits points := by
      obtain ⟨W, hW⟩ : ∃ W, W ∈ V.components s :=
        ⟨_, List.mem_map.2 ⟨0, List.mem_range.2 hpos, rfl⟩⟩
      obtain ⟨i, -, rfl⟩ := List.mem_map.1 hW
      exact fits_apply.1 (fits_apply.1 hfits _ hW) V (List.mem_singleton_self V)
    have hhas := hV points hfit
    have hnumbers : ∀ W ∈ V.components s, (W.both points).Has 1 := by
      intro W hW
      obtain ⟨i, hi, rfl⟩ := List.mem_map.1 hW
      exact has_slice hhas (List.mem_range.1 hi)
    rw [value_list hnumbers, components, List.map_map]
    refine List.ext_getElem ?_ fun i hi hi' => ?_
    · rw [List.length_map, List.length_range]
      exact hhas.1.symm
    · have hlt : i < V.dimension := by simpa using hi
      simp [value_component hlt hhas, hi']

/-- **A range of a range is a range.** -/
theorem same_slice_slice {start length start' length' : Nat} (hle : start + length ≤ V.dimension)
    (hle' : start' + length' ≤ length)
    (hV : ∀ points, V.Fits points → (V.both points).Has V.dimension) :
    (apply s (.slice start') length' [apply s (.slice start) length [V]]).Same
      (apply s (.slice (start + start')) length' [V]) := by
  refine ⟨rfl, rfl, rfl, ?_, fun points hfits => ?_⟩
  · simp [apply]
  · have hfit : V.Fits points :=
      fits_apply.1 (fits_apply.1 hfits _ (List.mem_singleton_self _)) V (List.mem_singleton_self V)
    have hhas := hV points hfit
    rw [value_slice (has_slice hhas hle) hle', value_slice hhas hle, value_slice hhas (by omega),
      List.drop_take, List.drop_drop, List.take_take, min_eq_left (by omega)]

end View

/-! ## Accepted ranges -/

section Accepted

variable {b : Builder α} {arithmetic : Arithmetic}

/-- **A range is accepted if its end, as it is computed, lies within the vector.** -/
theorem exists_slice_iff {x : NodeId} {start length : Nat} :
    (∃ id b', Build.slice x start length arithmetic b = .ok id b') ↔
      ∃ d, b.graph.HasVector x d ∧ checkRange (α := α) start length d arithmetic = .ok () := by
  simp only [slice_eq_ok_iff]
  constructor
  · rintro ⟨-, -, o, ho, hrange, -, -⟩
    exact ⟨_, ⟨o, ho, rfl⟩, hrange⟩
  · rintro ⟨-, ⟨o, ho, rfl⟩, hrange⟩
    exact ⟨_, _, o, ho, hrange, rfl, rfl⟩

/-- A range of a range is accepted if the range is and has room for it, by its end as it is
computed. -/
theorem exists_slice_slice_iff {x : NodeId} {start length start' length' : Nat} :
    (∃ id b',
      (do Build.slice (← Build.slice x start length arithmetic) start' length' arithmetic) b =
        .ok id b') ↔
      (∃ id b', Build.slice x start length arithmetic b = .ok id b') ∧
        checkRange (α := α) start' length' length arithmetic = .ok () := by
  -- whatever the range is, it has as many components as were asked for
  have hvector : ∀ (o : Operand α) d,
      (b.append (.range o start length)).graph.HasVector b.next d ↔ length = d := by
    intro o d
    rw [Graph.hasVector_iff, operand_range]
    simp [Except.map, Builder.nodeOf, Draft.range, Draft.function, Node.dimension]
  constructor
  · rintro ⟨nested, b₂, hrun⟩
    obtain ⟨range, b₁, hinner, houter⟩ := Action.bind_eq_ok.1 hrun
    refine ⟨⟨range, b₁, hinner⟩, ?_⟩
    obtain ⟨d, hd, hrange⟩ := exists_slice_iff.1 ⟨nested, b₂, houter⟩
    obtain ⟨o, -, -, rfl, rfl⟩ := slice_eq_ok_iff.1 hinner
    exact (hvector o d).1 hd ▸ hrange
  · rintro ⟨⟨range, b₁, hinner⟩, hrange⟩
    obtain ⟨o, -, -, rfl, rfl⟩ := slice_eq_ok_iff.1 hinner
    obtain ⟨nested, b₂, houter⟩ := exists_slice_iff.2 ⟨length, (hvector o length).2 rfl, hrange⟩
    exact ⟨nested, b₂, Action.bind_eq_ok.2 ⟨_, _, hinner, houter⟩⟩

end Accepted

/-! ## Calls -/

section Calls

variable {b : Builder α} (hb : GraphOK b.nextId b.log b.graph)

include hb

/-- Several components of a vector are taken out of it, one after the other. -/
theorem leads_components {x : NodeId} {V : View α} (hx : b.graph.Shows x V) (hV : V.IsVector)
    (hword : V.dimension < wordSize) (is : List Nat) (his : ∀ i ∈ is, i < V.dimension) :
    ∃ ids b', is.mapM (fun i => Build.component x i .checked) b = .ok ids b' ∧ b.Extends b' ∧
      List.Forall₂ b'.graph.Shows ids
        (is.map fun i => View.apply b.graph.settings (.slice i) 1 [V]) := by
  induction is generalizing b with
  | nil => exact ⟨[], b, rfl, .refl hb, .nil⟩
  | cons i is ih =>
    obtain ⟨hi, his⟩ := List.forall_mem_cons.1 his
    obtain ⟨id, b₁, hrun, h₁, hid⟩ :=
      leads_slice hb hx hV Nat.one_pos (by omega : i + 1 ≤ V.dimension) (by omega)
    obtain ⟨ids, b₂, hrest, h₂, hids⟩ := ih h₁.ok (h₁.keeps hx) his
    have hcomponent : Build.component x i .checked b = .ok id b₁ := hrun
    refine ⟨id :: ids, b₂, ?_, h₁.trans h₂, .cons (h₂.keeps hid) (h₁.settings ▸ hids)⟩
    rw [List.mapM_cons, Action.bind_of_ok hcomponent, Action.bind_of_ok hrest]
    rfl

/-- What was taken out of a vector lies within it, and shows the range. -/
theorem shows_of_slice {x id : NodeId} {V : View α} {start length : Nat} {b' : Builder α}
    (hx : b.graph.Shows x V) (hV : V.IsVector)
    (hrun : Build.slice x start length .checked b = .ok id b') :
    0 < length ∧ start + length ≤ V.dimension ∧ start + length < wordSize ∧ b.Extends b' ∧
      b'.graph.Shows id (View.apply b.graph.settings (.slice start) length [V]) := by
  obtain ⟨d, hd, hrange⟩ := exists_slice_iff.1 ⟨id, b', hrun⟩
  obtain ⟨hpos, hle, hword⟩ := checkRange_checked.1 hrange
  obtain rfl := (hx.hasVector_iff hV).1 hd
  obtain ⟨id', b'', hrun', hext, hshows⟩ := leads_slice hb hx hV hpos hle hword
  obtain ⟨rfl, rfl⟩ : id = id' ∧ b' = b'' := by simpa using hrun.symm.trans hrun'
  exact ⟨hpos, hle, hword, hext, hshows⟩

/-- The components of a vector, taken out and packed again. -/
theorem list_of_components {x : NodeId} {d : Nat} (hx : b.graph.HasVector x d)
    (hword : d < wordSize) : ∃ packed b',
      (do Build.list (← (List.range d).mapM fun i => Build.component x i .checked)) b =
        .ok packed b' ∧
      b'.graph.Interchangeable packed x := by
  obtain ⟨V, hV, hvec, rfl⟩ := hx.exists_shows
  have hpos : 0 < V.dimension := hV.dimension_pos hb hvec
  obtain ⟨ids, b₁, hrun₁, h₁, hids⟩ :=
    leads_components hb hV hvec hword (List.range V.dimension) fun i hi => List.mem_range.1 hi
  have hnumbers : List.Forall₂ (fun id V => b₁.graph.Shows id V ∧ V.IsVector ∧ V.dimension = 1) ids
      (V.components b.graph.settings) := by
    rw [View.components, List.forall₂_map_right_iff] at *
    exact hids.imp fun _ _ hid => ⟨hid, rfl, rfl⟩
  have hne : ids ≠ [] := by
    rintro rfl
    have hlen := hids.length_eq
    simp at hlen
    omega
  obtain ⟨packed, b₂, hrun₂, h₂, hpacked⟩ := leads_list h₁.ok hne hnumbers
  rw [h₁.settings, View.components, List.length_map, List.length_range] at hpacked
  have hsame := View.same_list_components (s := b.graph.settings) hvec hpos fun points => hV.has hb
  refine ⟨packed, b₂, ?_, (hpacked.congr hsame).interchangeable ((h₁.trans h₂).keeps hV) h₂.ok⟩
  rw [Action.bind_of_ok hrun₁, hrun₂]

/-- Numbers packed into a vector, and all of them taken out again. -/
theorem components_of_list {items : List NodeId} (hne : items ≠ [])
    (hword : items.length < wordSize) (hitems : ∀ id ∈ items, b.graph.HasVector id 1) :
    ∃ components b',
      (do
        let packed ← Build.list items
        (List.range items.length).mapM fun i => Build.component packed i .checked) b =
          .ok components b' ∧
      List.Forall₂ (fun component item => ∀ x y,
        (b'.graph.Accepts component x y ↔ ∀ id ∈ items, b.graph.Accepts id x y) ∧
        (b'.graph.Accepts component x y →
          ∃ v, b'.graph.Answers component x y v ∧
            b'.graph.Answers item x y v)) components items := by
  obtain ⟨Vs, hVs⟩ := Graph.exists_shows_numbers hitems
  obtain ⟨packed, b₁, hrun₁, h₁, hpacked⟩ := leads_list hb hne hVs
  obtain ⟨ids, b₂, hrun₂, h₂, hids⟩ := leads_components h₁.ok hpacked rfl
    (hVs.length_eq ▸ hword) (List.range items.length) fun i hi =>
      hVs.length_eq ▸ List.mem_range.1 hi
  refine ⟨ids, b₂, by rw [Action.bind_of_ok hrun₁, hrun₂], ?_⟩
  refine forall₂_of_getElem? (by simpa using hids.length_eq) fun k id item hid hitem x y => ?_
  obtain ⟨C, hC, hcomponent⟩ := forall₂_getElem? hids hid
  obtain ⟨V, hV, hitem, -, hdim⟩ := forall₂_getElem? hVs hitem
  have hk : k < Vs.length := (List.getElem?_eq_some_iff.1 hV).1
  obtain rfl : View.apply b₁.graph.settings (.slice k) 1
      [View.apply b.graph.settings .list Vs.length Vs] = C := by
    simpa [hVs.length_eq, hk] using hC
  have hitem := (h₁.trans h₂).keeps hitem
  -- a component asks what the list asks, and that is what all items ask
  have haccepts : b₂.graph.Accepts id x y ↔ x.length = y.length ∧ ∀ V ∈ Vs, V.Fits ⟨x, y⟩ := by
    rw [hcomponent.accepts_iff h₂.ok, View.fits_apply, List.forall_mem_singleton, View.fits_apply]
  refine ⟨?_, fun hxy => ?_⟩
  · rw [haccepts, Graph.Shows.forall_accepts_iff (hVs.imp fun _ _ h => h.1) hb hne]
  · obtain ⟨hlen, hfits⟩ := haccepts.1 hxy
    have hlist : ∀ V ∈ Vs, (V.both ⟨x, y⟩).Has 1 := by
      intro V hV
      obtain ⟨_, -, hshows, -, hdim⟩ := forall₂_mem_left hVs.flip hV
      exact hdim ▸ hshows.has hb (hfits V hV)
    have hfit := hfits V (List.mem_of_getElem? hV)
    have hanswer := hcomponent.answers h₂.ok hxy
    have hitemAnswer := hitem.answers h₂.ok ((hitem.accepts_iff h₂.ok).2 ⟨hlen, hfit⟩)
    obtain ⟨a, -, ha, -⟩ := View.exists_numbers (hlist V (List.mem_of_getElem? hV))
    have hvalue : (View.apply b₁.graph.settings (.slice k) 1
        [View.apply b.graph.settings .list Vs.length Vs]).value ⟨x, y⟩ = [a] := by
      rw [View.value_component hk (hpacked.has h₁.ok (View.fits_apply.2 hfits)),
        View.value_list hlist]
      simp [hV, ha]
    exact ⟨[a], hvalue ▸ hanswer, ha ▸ hitemAnswer⟩

/-- A range of a range, and the range taken at once. -/
theorem interchangeable_slice_slice {x nested : NodeId} {b₂ : Builder α}
    {start length start' length' : Nat}
    (hrun : (do Build.slice (← Build.slice x start length .checked) start' length' .checked) b =
      .ok nested b₂) :
    ∃ direct b', Build.slice x (start + start') length' .checked b₂ = .ok direct b' ∧
      b'.graph.Interchangeable nested direct := by
  obtain ⟨range, b₁, hrun₁, hrun₂⟩ := Action.bind_eq_ok.1 hrun
  obtain ⟨d, hx, -⟩ := exists_slice_iff.1 ⟨range, b₁, hrun₁⟩
  obtain ⟨V, hV, hvec, -⟩ := hx.exists_shows
  obtain ⟨-, hle, hword, h₁, hrange⟩ := shows_of_slice hb hV hvec hrun₁
  obtain ⟨hpos', hle', -, h₂, hnested⟩ := shows_of_slice h₁.ok hrange rfl hrun₂
  have hle' : start' + length' ≤ length := hle'
  obtain ⟨direct, b₃, hrun₃, h₃, hdirect⟩ := leads_slice h₂.ok ((h₁.trans h₂).keeps hV) hvec hpos'
    (by omega : start + start' + length' ≤ V.dimension) (by omega)
  rw [h₁.settings] at hnested
  rw [(h₁.trans h₂).settings] at hdirect
  have hsame := View.same_slice_slice (s := b.graph.settings) hle hle' fun points => hV.has hb
  exact ⟨direct, b₃, hrun₃, (h₃.keeps (hnested.congr hsame)).interchangeable hdirect h₃.ok⟩

end Calls

/-! ## Either arithmetic -/

section Arithmetic

variable {b : Builder α} {arithmetic : Arithmetic}

/-- A word holds the ends of the components that it counts. -/
theorem mapM_component_eq_checked {d : Nat} (hword : d < wordSize) (x : NodeId) :
    (List.range d).mapM (fun i => Build.component (α := α) x i arithmetic) =
      (List.range d).mapM fun i => Build.component x i .checked := by
  refine mapM_congr fun i hi => Build.slice_eq_checked (.inr ?_) x
  have hi := List.mem_range.1 hi
  omega

/-- Where its end is exact, a range is accepted of a range **exactly if it lies within it**. -/
theorem exists_slice_slice_iff_of_exact {x : NodeId} {start length start' length' : Nat}
    (hexact : arithmetic.Exact (start' + length')) :
    (∃ id b',
      (do Build.slice (← Build.slice x start length arithmetic) start' length' arithmetic) b =
        .ok id b') ↔
      (∃ id b', Build.slice x start length arithmetic b = .ok id b') ∧ 0 < length' ∧
        start' + length' ≤ length := by
  rw [exists_slice_slice_iff]
  refine and_congr_right fun hinner => ?_
  rw [checkRange_eq_checked hexact, checkRange_checked]
  refine and_congr_right fun _ => and_iff_left_of_imp fun hle => ?_
  rcases hexact with rfl | hword
  · obtain ⟨d, -, hrange⟩ := exists_slice_iff.1 hinner
    obtain ⟨-, -, hword⟩ := checkRange_checked.1 hrange
    omega
  · exact hword

end Arithmetic

/-- A variable with five components of either sign, their sum, and a number. -/
def fiveCommands : List (Command ℚ NodeId) :=
  [.newGraph {}, .graph 0 (.build (.taggedVariable 5 .unknown)), .graph 0 (.build (.sum ⟨1⟩)),
    .graph 0 (.build (.scalar (-2)))]

end MixedMonotone
