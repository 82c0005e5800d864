import Mathlib
import MixedMonotone.Proofs.Compilation

/-!
# The last visit of an evaluation

An evaluation comes by a shared node many times, along different paths and in either order of the
two points. The last time is found from the top: **the last operand** that leads to the node, along
**the last route** planned for it, and on from there.

* `Route.compose`: one route after another.
* `lastVisit`: the order of the points in which a node is visited last, if it is visited at all.
* `lastVisit_isSome_iff`: the nodes visited are those reached.
* `FollowsLastVisit`: the recursion from the top; `lastVisit_follows`: `lastVisit` **follows it**.
-/

namespace MixedMonotone

variable {α β γ : Type}

/-! ## Routes -/

/-- The route that goes along one route and then along another. -/
def Route.compose : Route → Route → Route
  | .own, r => r
  | .swapped, .own => .swapped
  | .swapped, .swapped => .own

theorem Dual.along_along (d : Dual β) (r r' : Route) :
    (d.along r).along r' = d.along (r.compose r') := by
  cases r <;> cases r' <;> rfl

namespace Plan

/-- Every operand is evaluated. -/
theorem exists_getLast?_routes (p : Plan) (operand : Nat) :
    ∃ r, (p.routes operand).getLast? = some r := by
  cases p with
  | single route => exact ⟨route, rfl⟩
  | interval => exact ⟨.swapped, rfl⟩
  | binary s => cases operand <;> cases s <;> exact ⟨_, rfl⟩

/-- Of both routes the swapped one is the last. -/
theorem getLast?_routes_of_both {p : Plan} {operand : Nat} (hown : .own ∈ p.routes operand)
    (hswapped : .swapped ∈ p.routes operand) : (p.routes operand).getLast? = some .swapped := by
  -- there are lists of one route, and the list of both
  have key : (∃ route, p.routes operand = [route]) ∨ p.routes operand = Route.both := by
    cases p with
    | single route => exact .inl ⟨route, rfl⟩
    | interval => exact .inr rfl
    | binary s =>
      cases operand <;> cases s <;> first | exact .inr rfl | exact .inl ⟨_, rfl⟩
  rcases key with ⟨route, hroutes⟩ | hroutes
  · rw [hroutes] at hown hswapped
    cases List.mem_singleton.1 hown
    cases List.mem_singleton.1 hswapped
  · rw [hroutes]
    rfl

end Plan

/-! ## The last visit -/

/-- The passes of a node over its operands; leaves have none. -/
def Node.passes (n : Node α) : List Pass :=
  match n.kind with
  | .function f => f.passes
  | _ => []

/-- In which order a node is visited last below `n`, given this for the operands: in that of **the
last pass that comes by**. -/
def Node.lastVisit (target : NodeId) (n : Node α) (operands : List (Option Route)) : Option Route :=
  if n.id = target then some .own
  else n.passes.reverse.findSome? fun q => (operands[q.operand]?.join).map q.route.compose

/-- **The order of the points in which the node with a handle is visited last** when the node at
position `i` is evaluated; none if it is not visited. -/
def lastVisit (nodes : List (Node α)) (i : Nat) (target : NodeId) : Option Route :=
  byOperands (Node.lastVisit target) none nodes i

/-- The order in which some passes leave a node. -/
def visitOf (nodes : List (Node α)) (passes : List Pass) (target : NodeId) : Option Route :=
  passes.reverse.findSome? fun q => (lastVisit nodes q.position target).map q.route.compose

theorem Node.passes_function {n : Node α} {f : Application α} (hf : n.kind = .function f) :
    n.passes = f.passes := by
  rw [Node.passes, hf]

theorem Node.operand_of_mem_passes {n : Node α} {q : Pass} (hq : q ∈ n.passes) :
    n.operands[q.operand]? = some q.position := by
  unfold Node.passes at hq
  unfold Node.operands
  cases hkind : n.kind with
  | function f =>
    rw [hkind] at hq
    exact (mem_passes.1 hq).1
  | _ =>
    rw [hkind] at hq
    cases hq

/-- The passes lead to the operands, and to each of them. -/
theorem Node.exists_pass_iff {n : Node α} {P : Nat → Prop} :
    (∃ q ∈ n.passes, P q.position) ↔ ∃ k ∈ n.operands, P k := by
  constructor
  · rintro ⟨q, hq, hP⟩
    exact ⟨q.position, List.mem_of_getElem? (Node.operand_of_mem_passes hq), hP⟩
  · rintro ⟨k, hk, hP⟩
    unfold Node.operands at hk
    cases hkind : n.kind with
    | function f =>
      rw [hkind] at hk
      obtain ⟨l, hl⟩ := List.mem_iff_getElem?.1 hk
      obtain ⟨r, hr⟩ := f.plan.exists_getLast?_routes l
      refine ⟨⟨l, k, r⟩, ?_, hP⟩
      rw [Node.passes_function hkind]
      exact mem_passes.2 ⟨hl, List.mem_of_getLast? hr⟩
    | _ =>
      rw [hkind] at hk
      cases hk

section

variable {nodes : List (Node α)} {i : Nat} {n : Node α} {target : NodeId}

/-- **The recursion equation**, for a node whose operands stand before it. -/
theorem lastVisit_eq (hn : nodes[i]? = some n) (hlt : ∀ k ∈ n.operands, k < i) (target : NodeId) :
    lastVisit nodes i target = if n.id = target then some .own
      else visitOf nodes n.passes target := by
  rw [lastVisit, byOperands_eq _ _ hn hlt, Node.lastVisit, visitOf]
  have hpasses : ∀ q ∈ n.passes.reverse,
      ((n.operands.map (byOperands (Node.lastVisit target) none nodes))[q.operand]?.join).map
        q.route.compose = (lastVisit nodes q.position target).map q.route.compose := by
    intro q hq
    rw [List.getElem?_map, Node.operand_of_mem_passes (List.mem_reverse.1 hq)]
    rfl
  rw [findSome?_congr hpasses]

theorem lastVisit_self (hn : nodes[i]? = some n) (hlt : ∀ k ∈ n.operands, k < i) :
    lastVisit nodes i n.id = some .own := by
  rw [lastVisit_eq hn hlt, if_pos rfl]

/-- Caches do not matter. -/
theorem lastVisit_alike [Zero α] {nodes' : List (Node α)} (h : Alike nodes nodes') :
    lastVisit nodes = lastVisit nodes' := by
  have hvisit : ∀ (target : NodeId) (n : Node α) (vs : List (Option Route)),
      n.blank.lastVisit target vs = n.lastVisit target vs := by
    intro target n vs
    unfold Node.lastVisit Node.passes Node.blank
    cases n.kind <;> rfl
  funext i target
  have key : ∀ ns : List (Node α), lastVisit (ns.map Node.blank) i target = lastVisit ns i target :=
    fun ns => byOperands_map _ _ (hvisit target) Node.blank_operands ns i
  rw [← key nodes, h, key nodes']

theorem visitOf_singleton (q : Pass) :
    visitOf nodes [q] target = (lastVisit nodes q.position target).map q.route.compose := by
  simp [visitOf]

theorem visitOf_isSome_iff {passes : List Pass} :
    (visitOf nodes passes target).isSome ↔
      ∃ q ∈ passes, (lastVisit nodes q.position target).isSome := by
  simp [visitOf, List.findSome?_isSome_iff]

/-- A later pass that comes by takes precedence. -/
theorem visitOf_append (done passes : List Pass) :
    visitOf nodes (done ++ passes) target =
      (visitOf nodes passes target).or (visitOf nodes done target) := by
  rw [visitOf, List.reverse_append, List.findSome?_append]
  rfl

variable (hlt : ∀ i, ∀ k ∈ operandsAt nodes i, k < i) (hinc : Increasing nodes)

include hlt hinc

/-- **The nodes visited are those reached.** -/
theorem lastVisit_isSome_iff {j : Nat} {m : Node α} (hm : nodes[j]? = some m) (i : Nat) :
    ∀ n, nodes[i]? = some n → ((lastVisit nodes i m.id).isSome ↔ Reaches nodes i j) := by
  induction i using Nat.strong_induction_on with
  | _ i ih =>
    intro n hn
    have hoperands : operandsAt nodes i = n.operands := by rw [operandsAt, hn]; rfl
    have hops : ∀ k ∈ n.operands, k < i := hoperands ▸ hlt i
    by_cases hid : n.id = m.id
    · obtain rfl := hinc.position_unique hn hm hid
      rw [← hid, lastVisit_self hn hops]
      exact iff_of_true rfl (.refl i)
    -- the node itself is another one, so it is an operand that leads there
    · have hne : i ≠ j := by
        rintro rfl
        exact hid (congrArg Node.id (Option.some.inj (hn.symm.trans hm)))
      have hhead : Reaches nodes i j ↔ ∃ k ∈ n.operands, Reaches nodes k j := by
        rw [← hoperands]
        refine ⟨fun h => h.eq_or_operand.resolve_left hne, ?_⟩
        rintro ⟨k, hk, hkj⟩
        exact .head hk hkj
      rw [hhead, lastVisit_eq hn hops, if_neg hid, visitOf_isSome_iff,
        Node.exists_pass_iff (P := fun k => (lastVisit nodes k m.id).isSome)]
      refine exists_congr fun k => and_congr_right fun hk => ?_
      have hil : i < nodes.length := (List.getElem?_eq_some_iff.1 hn).1
      exact ih k (hops k hk) _ (List.getElem?_eq_getElem ((hops k hk).trans hil))

end

/-! ## The recursion from the top -/

/-- `o` gives the points **in the order in which a node is visited last** below another one: itself
at the points given; any other node by way of the last operand that leads to it, along the last
route planned for that operand. -/
structure FollowsLastVisit (nodes : List (Node α)) (o : Nat → NodeId → Points β → Points β) :
    Prop where
  self : ∀ i n, nodes[i]? = some n → ∀ points, o i n.id points = points
  operand : ∀ (i j : Nat) (n m : Node α) (f : Application α), nodes[i]? = some n →
    n.kind = .function f →
    nodes[j]? = some m → i ≠ j → ∀ (l k : Nat) (route : Route), f.operands[l]? = some k →
    Reaches nodes k j → (∀ l' k', l < l' → f.operands[l']? = some k' → ¬ Reaches nodes k' j) →
    (f.plan.routes l).getLast? = some route →
    ∀ points, o i m.id points = o k m.id (points.along route)
  /-- Of both routes the swapped one is the last. -/
  both : ∀ (i : Nat) (n : Node α) (f : Application α), nodes[i]? = some n → n.kind = .function f →
    ∀ l, .own ∈ f.plan.routes l → .swapped ∈ f.plan.routes l →
      (f.plan.routes l).getLast? = some .swapped

/-- The points in the order in which the node with a handle is visited last. -/
def lastOrder (nodes : List (Node α)) (i : Nat) (target : NodeId) (points : Points β) : Points β :=
  points.along ((lastVisit nodes i target).getD .own)

/-- The passes over one operand, given with its number. -/
def Plan.passesOver (p : Plan) (entry : Nat × Nat) : List Pass :=
  (p.routes entry.2).map fun route => ⟨entry.2, entry.1, route⟩

theorem Application.passes_eq (f : Application α) :
    f.passes = f.operands.zipIdx.flatMap f.plan.passesOver := rfl

/-- The passes of a function node **before and after the last one** for an operand. -/
theorem passes_split {f : Application α} {l k : Nat} {route : Route} (hk : f.operands[l]? = some k)
    (hroute : (f.plan.routes l).getLast? = some route) :
    ∃ before after, f.passes = before ++ ⟨l, k, route⟩ :: after ∧ ∀ q ∈ after, l < q.operand := by
  obtain ⟨hl, rfl⟩ := List.getElem?_eq_some_iff.1 hk
  obtain ⟨routes, hroutes⟩ := List.getLast?_eq_some_iff.1 hroute
  have hoperands : f.operands.zipIdx =
      (f.operands.take l).zipIdx ++ (f.operands[l], l) ::
      (f.operands.drop (l + 1)).zipIdx (l + 1) := by
    have hlen : (f.operands.take l).length = l := List.length_take_of_le hl.le
    conv_lhs => rw [← List.take_append_drop l f.operands, List.drop_eq_getElem_cons hl]
    rw [List.zipIdx_append, hlen, Nat.zero_add, List.zipIdx_cons]
  have hmiddle : f.plan.passesOver (f.operands[l], l) =
      (routes.map fun r => ⟨l, f.operands[l], r⟩) ++ [⟨l, f.operands[l], route⟩] := by
    simp [Plan.passesOver, hroutes]
  refine ⟨(f.operands.take l).zipIdx.flatMap f.plan.passesOver ++
    routes.map fun r => ⟨l, f.operands[l], r⟩,
    ((f.operands.drop (l + 1)).zipIdx (l + 1)).flatMap f.plan.passesOver, ?_, ?_⟩
  · rw [Application.passes_eq, hoperands, List.flatMap_append, List.flatMap_cons, hmiddle]
    simp
  · intro q hq
    obtain ⟨⟨k', l'⟩, hmem, hq⟩ := List.mem_flatMap.1 hq
    obtain ⟨route', -, rfl⟩ := List.mem_map.1 hq
    exact (List.mk_mem_zipIdx_iff_le_and_getElem?_sub.1 hmem).1

/-- **The last visit follows the recursion from the top.** -/
theorem lastVisit_follows {nodes : List (Node α)} (hlt : ∀ i, ∀ k ∈ operandsAt nodes i, k < i)
    (hinc : Increasing nodes) : FollowsLastVisit nodes (lastOrder (β := β) nodes) := by
  refine ⟨?_, ?_, fun _ _ _ _ _ l => Plan.getLast?_routes_of_both⟩
  · intro i n hn points
    have hops : ∀ k ∈ n.operands, k < i := by simpa [operandsAt, hn] using hlt i
    rw [lastOrder, lastVisit_self hn hops]
    rfl
  · intro i j n m f hn hf hm hne l k route hk hkj hlast hroute points
    have hops : ∀ k ∈ n.operands, k < i := by simpa [operandsAt, hn] using hlt i
    have hid : n.id ≠ m.id := fun hid => hne (hinc.position_unique hn hm hid)
    have hf' : n.operands = f.operands := by rw [Node.operands, hf]; rfl
    have hoperand : ∀ k' ∈ f.operands, ∃ n', nodes[k']? = some n' := by
      intro k' hk'
      have hki : k' < i := hops k' (hf' ▸ hk')
      have hil : i < nodes.length := (List.getElem?_eq_some_iff.1 hn).1
      exact ⟨_, List.getElem?_eq_getElem (hki.trans hil)⟩
    obtain ⟨before, after, hpasses, hafter⟩ := passes_split hk hroute
    -- no later pass comes by
    have hnone : visitOf nodes after m.id = none := by
      rw [← Option.not_isSome_iff_eq_none, visitOf_isSome_iff]
      rintro ⟨q, hq, hvisit⟩
      have hmem : q ∈ f.passes := by rw [hpasses]; simp [hq]
      obtain ⟨hpos, -⟩ := mem_passes.1 hmem
      obtain ⟨n', hn'⟩ := hoperand q.position (List.mem_of_getElem? hpos)
      have hreach := (lastVisit_isSome_iff hlt hinc hm q.position n' hn').1 hvisit
      exact hlast q.operand q.position (hafter q hq) hpos hreach
    obtain ⟨n', hn'⟩ := hoperand k (List.mem_of_getElem? hk)
    obtain ⟨r, hr⟩ := Option.isSome_iff_exists.1 ((lastVisit_isSome_iff hlt hinc hm k n' hn').2 hkj)
    have hvisit : lastVisit nodes i m.id = some (route.compose r) := by
      rw [lastVisit_eq hn hops, if_neg hid, Node.passes_function hf, hpasses, List.append_cons,
        visitOf_append, hnone, Option.none_or, visitOf_append, visitOf_singleton, hr]
      rfl
    rw [lastOrder, lastOrder, hvisit, hr, Option.getD_some, Option.getD_some, Dual.along_along]

end MixedMonotone
