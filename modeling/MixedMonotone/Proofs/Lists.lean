import Mathlib

/-!
# Lists read in step

Facts about two lists related entry by entry, and about sequences of calls that may fail.
-/

namespace MixedMonotone

variable {β γ δ ε : Type}

/-! ## Entry by entry -/

section Forall₂

variable {R : β → γ → Prop} {l : List β} {l' : List γ}

theorem forall₂_single {a : γ} (h : List.Forall₂ R l [a]) : ∃ v, R v a ∧ l = [v] := by
  obtain ⟨v, vs, hv, hvs, rfl⟩ := List.forall₂_cons_right_iff.1 h
  rw [List.forall₂_nil_right_iff] at hvs
  exact ⟨v, hv, by rw [hvs]⟩

theorem forall₂_pair {a b : γ} (h : List.Forall₂ R l [a, b]) :
    ∃ v w, R v a ∧ R w b ∧ l = [v, w] := by
  obtain ⟨v, vs, hv, hvs, rfl⟩ := List.forall₂_cons_right_iff.1 h
  obtain ⟨w, hw, rfl⟩ := forall₂_single hvs
  exact ⟨v, w, hv, hw, rfl⟩

theorem forall₂_getElem? (h : List.Forall₂ R l l') {j : Nat} {b : β} (hb : l[j]? = some b) :
    ∃ c, l'[j]? = some c ∧ R b c := by
  obtain ⟨hj, rfl⟩ := List.getElem?_eq_some_iff.1 hb
  have hj' : j < l'.length := h.length_eq ▸ hj
  exact ⟨l'[j], List.getElem?_eq_getElem hj', h.get hj hj'⟩

theorem forall₂_getElem?_right (h : List.Forall₂ R l l') {j : Nat} {c : γ} (hc : l'[j]? = some c) :
    ∃ b, l[j]? = some b ∧ R b c := forall₂_getElem? h.flip hc

/-- What stands at a position is missing on both sides, or related. -/
theorem forall₂_rel_getElem? (h : List.Forall₂ R l l') (j : Nat) : Option.Rel R l[j]? l'[j]? := by
  cases hb : l[j]? with
  | none =>
    rw [List.getElem?_eq_none_iff, h.length_eq] at hb
    rw [List.getElem?_eq_none hb]
    exact .none
  | some b =>
    obtain ⟨c, hc, hbc⟩ := forall₂_getElem? h hb
    rw [hc]
    exact .some hbc

theorem forall₂_mem_left (h : List.Forall₂ R l l') {b : β} (hb : b ∈ l) : ∃ c ∈ l', R b c := by
  obtain ⟨j, hj⟩ := List.mem_iff_getElem?.1 hb
  obtain ⟨c, hc, hbc⟩ := forall₂_getElem? h hj
  exact ⟨c, List.mem_of_getElem? hc, hbc⟩

/-- Of two lists that are translated alike, all of the first one's entries are found in the second
one's translation if they are in the second one. -/
theorem mem_of_forall₂ (hR : ∀ b c c', R b c → R b c' → c = c') {bs bs' : List β} {ks ks' : List γ}
    (h : List.Forall₂ R bs ks) (h' : List.Forall₂ R bs' ks') (hmem : ∀ b, b ∈ bs → b ∈ bs') {k : γ}
    (hk : k ∈ ks) : k ∈ ks' := by
  obtain ⟨b, hb, hbk⟩ := forall₂_mem_left h.flip hk
  obtain ⟨k', hk', hbk'⟩ := forall₂_mem_left h' (hmem b hb)
  rwa [hR b k k' hbk hbk']

/-- Different entries that are told apart by what they are related to are related to
different entries. -/
theorem nodup_of_forall₂ (hR : ∀ b b' c, R b c → R b' c → b = b') (h : List.Forall₂ R l l')
    (hl : l.Nodup) : l'.Nodup := by
  induction h with
  | nil => exact List.nodup_nil
  | cons hbc hrest ih =>
    obtain ⟨hnotin, hl⟩ := List.nodup_cons.1 hl
    refine List.nodup_cons.2 ⟨fun hc => ?_, ih hl⟩
    obtain ⟨b', hb', hbc'⟩ := forall₂_mem_left hrest.flip hc
    exact hnotin (hR _ _ _ hbc hbc' ▸ hb')

/-- A list is related to some list if each entry is to some entry. -/
theorem exists_forall₂ (h : ∀ b ∈ l, ∃ c, R b c) : ∃ l', List.Forall₂ R l l' := by
  induction l with
  | nil => exact ⟨[], .nil⟩
  | cons b l ih =>
    obtain ⟨hb, hl⟩ := List.forall_mem_cons.1 h
    obtain ⟨c, hc⟩ := hb
    obtain ⟨l', hl'⟩ := ih hl
    exact ⟨c :: l', .cons hc hl'⟩

/-- What is found for every entry of a list, each related to its entry. -/
theorem forall₂_filterMap {f : β → Option γ} (h : ∀ b ∈ l, ∃ c, f b = some c ∧ R b c) :
    List.Forall₂ R l (l.filterMap f) := by
  induction l with
  | nil => exact .nil
  | cons b l ih =>
    obtain ⟨hb, hl⟩ := List.forall_mem_cons.1 h
    obtain ⟨c, hc, hR⟩ := hb
    rw [List.filterMap_cons_some hc]
    exact .cons hR (ih hl)

/-- Lists of one length are related if the entries at every position are. -/
theorem forall₂_of_getElem? (hlen : l.length = l'.length)
    (h : ∀ (k : Nat) b c, l[k]? = some b → l'[k]? = some c → R b c) : List.Forall₂ R l l' :=
  List.forall₂_iff_get.2 ⟨hlen, fun k hk hk' =>
    h k _ _ (List.getElem?_eq_getElem hk) (List.getElem?_eq_getElem hk')⟩

theorem forall₂_set (h : List.Forall₂ R l l') {j : Nat} {b : β}
    (hb : ∀ c, l'[j]? = some c → R b c) : List.Forall₂ R (l.set j b) l' := by
  induction h generalizing j with
  | nil => exact .nil
  | cons hR hrest ih =>
    cases j with
    | zero => exact .cons (hb _ rfl) hrest
    | succ j => exact .cons hR (ih fun c hc => hb c hc)

/-- Replacing related entries on both sides. -/
theorem forall₂_set_set (h : List.Forall₂ R l l') (j : Nat) {b : β} {c : γ} (hbc : R b c) :
    List.Forall₂ R (l.set j b) (l'.set j c) := by
  induction h generalizing j with
  | nil => exact .nil
  | cons hR hrest ih =>
    cases j with
    | zero => exact .cons hbc hrest
    | succ j => exact .cons hR (ih j)

/-- The first entries that fit are missing on both sides, or related. -/
theorem rel_find? {p : β → Bool} {q : γ → Bool} (h : List.Forall₂ R l l')
    (hpq : ∀ b c, R b c → q c = p b) : Option.Rel R (l.find? p) (l'.find? q) := by
  induction h with
  | nil => exact .none
  | @cons b c _ _ hR _ ih =>
    rw [List.find?_cons, List.find?_cons, hpq b c hR]
    cases p b with
    | true => exact .some hR
    | false => exact ih

/-- What is computed alike from related entries is the same list. -/
theorem map_eq_of_forall₂ {f : β → δ} {g : γ → δ} (h : List.Forall₂ R l l')
    (hfg : ∀ b c, R b c → f b = g c) : l.map f = l'.map g := by
  induction h with
  | nil => rfl
  | cons hR _ ih => rw [List.map_cons, List.map_cons, hfg _ _ hR, ih]

theorem forall₂_headD (h : List.Forall₂ R l l') {b : β} {c : γ} (hbc : R b c) :
    R (l.headD b) (l'.headD c) := by
  cases h with
  | nil => exact hbc
  | cons hR _ => exact hR

theorem forall₂_zip {S : δ → ε → Prop} (h : List.Forall₂ R l l') {k : List δ} {k' : List ε}
    (hk : List.Forall₂ S k k') :
    List.Forall₂ (fun p q => R p.1 q.1 ∧ S p.2 q.2) (l.zip k) (l'.zip k') := by
  induction h generalizing k k' with
  | nil => exact .nil
  | cons hR _ ih =>
    cases hk with
    | nil => exact .nil
    | cons hS hk => exact .cons ⟨hR, hS⟩ (ih hk)

/-- **What relates the entries of two lists taken together** relates those of each, and
the other way round. -/
theorem forall₂_zipWith_iff {f : β → β → β} {S : β → γ → Prop} {p : β → Prop}
    (hf : ∀ a b c, p a → p b → (S (f a b) c ↔ S a c ∧ S b c)) {a b : List β} {c : List γ}
    (hlen : a.length = b.length) (ha : ∀ x ∈ a, p x) (hb : ∀ y ∈ b, p y) :
    List.Forall₂ S (List.zipWith f a b) c ↔ List.Forall₂ S a c ∧ List.Forall₂ S b c := by
  induction a generalizing b c with
  | nil =>
    obtain rfl := List.length_eq_zero_iff.1 hlen.symm
    exact and_self_iff.symm
  | cons x a ih =>
    obtain ⟨y, b, rfl⟩ := List.exists_cons_of_length_eq_add_one hlen.symm
    obtain ⟨hx, ha⟩ := List.forall_mem_cons.1 ha
    obtain ⟨hy, hb⟩ := List.forall_mem_cons.1 hb
    cases c with
    | nil => simp
    | cons z c =>
      rw [List.zipWith_cons_cons, List.forall₂_cons, List.forall₂_cons, List.forall₂_cons,
        hf x y z hx hy, ih (by simpa using hlen) ha hb]
      exact and_and_and_comm

theorem forall_mem_zipWith {f : β → β → β} {p : β → Prop} (hf : ∀ a b, p a → p b → p (f a b))
    {a b : List β} (ha : ∀ x ∈ a, p x) (hb : ∀ y ∈ b, p y) : ∀ z ∈ List.zipWith f a b, p z := by
  intro z hz
  rw [← List.map_uncurry_zip_eq_zipWith] at hz
  obtain ⟨⟨x, y⟩, hxy, rfl⟩ := List.mem_map.1 hz
  obtain ⟨hx, hy⟩ := List.of_mem_zip hxy
  exact hf x y (ha x hx) (hb y hy)

/-- Two lists of one length are related if what is computed from their entries is as it has to
be. -/
theorem forall_zipWith_iff {f : β → γ → δ} {S : β → γ → Prop} {p : δ → Prop}
    (hf : ∀ b c, p (f b c) ↔ S b c) (hlen : l.length = l'.length) :
    (∀ d ∈ List.zipWith f l l', p d) ↔ List.Forall₂ S l l' := by
  induction l generalizing l' with
  | nil =>
    obtain rfl := List.length_eq_zero_iff.1 hlen.symm
    simp
  | cons b l ih =>
    obtain ⟨c, l', rfl⟩ := List.exists_cons_of_length_eq_add_one hlen.symm
    rw [List.zipWith_cons_cons, List.forall_mem_cons, List.forall₂_cons,
      ih (by simpa using hlen), hf]

theorem forall₂_comp {S : γ → δ → Prop} {T : β → δ → Prop} {l'' : List δ} (hl : List.Forall₂ R l l')
    (hl' : List.Forall₂ S l' l'') (h : ∀ a b c, R a b → S b c → T a c) : List.Forall₂ T l l'' := by
  induction hl generalizing l'' with
  | nil =>
    cases hl'
    exact .nil
  | cons hR _ ih =>
    cases hl' with
    | cons hS hl' => exact .cons (h _ _ _ hR hS) (ih hl')

theorem forall₂_le_trans {α : Type} [Preorder α] {a b c : List α} (hab : List.Forall₂ (· ≤ ·) a b)
    (hbc : List.Forall₂ (· ≤ ·) b c) : List.Forall₂ (· ≤ ·) a c :=
  forall₂_comp hab hbc fun _ _ _ => le_trans

end Forall₂

/-! ## One list -/

/-- What stands in a list stands there still when more entries follow. -/
theorem getElem?_append_of_eq_some {l : List β} {j : Nat} {b : β} (h : l[j]? = some b)
    (more : List β) : (l ++ more)[j]? = some b :=
  (List.getElem?_append_left (List.getElem?_eq_some_iff.1 h).1).trans h

/-- What stands in a list with one more entry stood there before, or it is that entry. -/
theorem getElem?_concat_eq_some_iff {l : List β} {a b : β} {j : Nat} :
    (l ++ [a])[j]? = some b ↔ l[j]? = some b ∨ j = l.length ∧ a = b := by
  rcases lt_or_ge j l.length with hj | hj
  · simp [List.getElem?_append_left hj, hj.ne]
  · rw [List.getElem?_append_right hj, List.getElem?_eq_none hj, List.getElem?_singleton]
    simp only [reduceCtorEq, false_or, Option.ite_none_right_eq_some, Option.some.injEq]
    exact and_congr_left' (by omega)

/-- Replacing an entry by what stands there changes nothing. -/
theorem set_of_getElem? {l : List β} {j : Nat} {b : β} (h : l[j]? = some b) : l.set j b = l := by
  obtain ⟨hj, rfl⟩ := List.getElem?_eq_some_iff.1 h
  exact List.set_getElem_self hj

theorem map_fst_zip_sublist (l : List β) (l' : List γ) : ((l.zip l').map Prod.fst).Sublist l := by
  induction l generalizing l' with
  | nil => exact List.Sublist.slnil
  | cons b l ih =>
    cases l' with
    | nil => exact List.nil_sublist _
    | cons c l' => exact (ih l').cons_cons b

/-- Searches that find the same in every entry find the same. -/
theorem findSome?_congr {f g : β → Option γ} {l : List β} (h : ∀ b ∈ l, f b = g b) :
    l.findSome? f = l.findSome? g := by
  induction l with
  | nil => rfl
  | cons b l ih =>
    rw [List.findSome?_cons, List.findSome?_cons, h b List.mem_cons_self,
      ih fun c hc => h c (List.mem_cons_of_mem _ hc)]

/-! ## Calls that may fail -/

theorem mapM_eq_some {f : β → Option γ} {g : β → γ} {l : List β} (h : ∀ b ∈ l, f b = some (g b)) :
    l.mapM f = some (l.map g) := by
  induction l with
  | nil => rfl
  | cons b l ih =>
    rw [List.mapM_cons, h b List.mem_cons_self, ih fun c hc => h c (List.mem_cons_of_mem _ hc)]
    rfl

theorem mapM_congr {m : Type _ → Type _} [Monad m] [LawfulMonad m] {f g : β → m γ} {l : List β}
    (h : ∀ b ∈ l, f b = g b) : l.mapM f = l.mapM g := by
  induction l with
  | nil => rfl
  | cons b l ih =>
    rw [List.mapM_cons, List.mapM_cons, h b List.mem_cons_self,
      ih fun c hc => h c (List.mem_cons_of_mem _ hc)]

theorem bind_eq_ok {x : Except ε β} {f : β → Except ε γ} {c : γ} :
    (x >>= f) = .ok c ↔ ∃ b, x = .ok b ∧ f b = .ok c := by
  cases x with
  | error e => simp [bind, Except.bind]
  | ok b => simp [bind, Except.bind]

theorem map_eq_ok {x : Except ε β} {f : β → γ} {c : γ} :
    x.map f = .ok c ↔ ∃ b, x = .ok b ∧ f b = c := by
  cases x <;> simp [Except.map]

theorem bind_eq_error {x : Except ε β} {f : β → Except ε γ} {e : ε} :
    (x >>= f) = .error e ↔ x = .error e ∨ ∃ b, x = .ok b ∧ f b = .error e := by
  cases x with
  | error e' => simp [bind, Except.bind]
  | ok b => simp [bind, Except.bind]

theorem mapM_eq_ok {f : β → Except ε γ} {l : List β} {l' : List γ} (h : l.mapM f = .ok l') :
    List.Forall₂ (fun b c => f b = .ok c) l l' := by
  induction l generalizing l' with
  | nil => obtain rfl := Except.ok.inj h; exact .nil
  | cons b l ih =>
    rw [List.mapM_cons] at h
    obtain ⟨c, hc, h⟩ := bind_eq_ok.1 h
    obtain ⟨cs, hcs, h⟩ := bind_eq_ok.1 h
    obtain rfl := Except.ok.inj h
    exact .cons hc (ih hcs)

/-- Calls that all succeed, with results related to the entries of another list. -/
theorem exists_mapM_of_forall₂ {R : β → δ → Prop} {S : γ → δ → Prop} {f : β → Except ε γ}
    {l : List β} {l' : List δ} (h : List.Forall₂ R l l')
    (hf : ∀ b d, R b d → ∃ c, f b = .ok c ∧ S c d) :
    ∃ cs, l.mapM f = .ok cs ∧ List.Forall₂ S cs l' := by
  induction h with
  | nil => exact ⟨[], rfl, .nil⟩
  | cons hR _ ih =>
    obtain ⟨c, hc, hS⟩ := hf _ _ hR
    obtain ⟨cs, hcs, hrest⟩ := ih
    exact ⟨c :: cs, by rw [List.mapM_cons, hc, hcs]; rfl, .cons hS hrest⟩

theorem exists_mapM_iff {f : β → Except ε γ} {l : List β} :
    (∃ l', l.mapM f = .ok l') ↔ ∀ b ∈ l, ∃ c, f b = .ok c := by
  induction l with
  | nil => exact ⟨fun _ b hb => (List.not_mem_nil hb).elim, fun _ => ⟨[], rfl⟩⟩
  | cons b l ih =>
    rw [List.forall_mem_cons, ← ih]
    constructor
    · rintro ⟨l', h⟩
      rw [List.mapM_cons] at h
      obtain ⟨c, hc, h⟩ := bind_eq_ok.1 h
      obtain ⟨cs, hcs, -⟩ := bind_eq_ok.1 h
      exact ⟨⟨c, hc⟩, cs, hcs⟩
    · rintro ⟨⟨c, hc⟩, cs, hcs⟩
      exact ⟨c :: cs, by rw [List.mapM_cons, hc, hcs]; rfl⟩

/-- A sequence of calls is refused **by the first** of them that is. -/
theorem mapM_eq_error_iff {f : β → Except ε γ} {l : List β} {e : ε} :
    l.mapM f = .error e ↔
      ∃ before b after, l = before ++ b :: after ∧ (∀ a ∈ before, ∃ c, f a = .ok c) ∧
        f b = .error e := by
  induction l with
  | nil => simp [pure, Except.pure]
  | cons b l ih =>
    rw [List.mapM_cons, bind_eq_error]
    constructor
    · rintro (h | ⟨c, hc, h⟩)
      · exact ⟨[], b, l, rfl, by simp, h⟩
      · rcases bind_eq_error.1 h with h | ⟨cs, -, h⟩
        · obtain ⟨before, b', after, rfl, hbefore, h⟩ := ih.1 h
          exact ⟨b :: before, b', after, rfl, List.forall_mem_cons.2 ⟨⟨c, hc⟩, hbefore⟩, h⟩
        · cases h
    · rintro ⟨before, b', after, hl, hbefore, h⟩
      cases before with
      | nil =>
        obtain ⟨rfl, rfl⟩ := List.cons.inj hl
        exact .inl h
      | cons a before =>
        obtain ⟨rfl, rfl⟩ := List.cons.inj hl
        obtain ⟨⟨c, hc⟩, hbefore⟩ := List.forall_mem_cons.1 hbefore
        have hrest := ih.2 ⟨before, b', after, rfl, hbefore, h⟩
        exact .inr ⟨c, hc, bind_eq_error.2 (.inl hrest)⟩

/-- Sequences of calls that may fail fail together, or end with related results, if their parts
do. -/
theorem rel_bind {R : β → γ → Prop} {S : δ → ε → Prop} {x : Option β} {y : Option γ}
    {f : β → Option δ} {g : γ → Option ε} (h : Option.Rel R x y)
    (hfg : ∀ b c, R b c → Option.Rel S (f b) (g c)) : Option.Rel S (x >>= f) (y >>= g) := by
  cases h with
  | some hR => exact hfg _ _ hR
  | none => exact .none

/-- What is computed alike from related entries is the same, if there are any. -/
theorem map_eq_of_rel {R : β → γ → Prop} {x : Option β} {y : Option γ} {f : β → δ} {g : γ → δ}
    (h : Option.Rel R x y) (hfg : ∀ b c, R b c → f b = g c) : x.map f = y.map g := by
  cases h with
  | some hR => exact congrArg some (hfg _ _ hR)
  | none => rfl

/-- Calls that find related results, or fail, on the same entries. -/
theorem rel_mapM {R : γ → δ → Prop} {f : β → Option γ} {g : β → Option δ} (l : List β)
    (h : ∀ b, Option.Rel R (f b) (g b)) : Option.Rel (List.Forall₂ R) (l.mapM f) (l.mapM g) := by
  induction l with
  | nil => exact .some .nil
  | cons b l ih =>
    rw [List.mapM_cons, List.mapM_cons]
    exact rel_bind (h b) fun _ _ hcd => rel_bind ih fun _ _ hcds => .some (.cons hcd hcds)

theorem rel_foldlM {R : β → γ → Prop} {P : δ → ε → Prop} {f : β → δ → Option β}
    {g : γ → ε → Option γ} (hstep : ∀ b c d e, R b c → P d e → Option.Rel R (f b d) (g c e))
    {l : List δ} {l' : List ε} (h : List.Forall₂ P l l') :
    ∀ {b c}, R b c → Option.Rel R (l.foldlM f b) (l'.foldlM g c) := by
  induction h with
  | nil => intro b c hR; exact .some hR
  | cons hP _ ih =>
    intro b c hR
    rw [List.foldlM_cons, List.foldlM_cons]
    exact rel_bind (hstep _ _ _ _ hR hP) fun _ _ => ih

end MixedMonotone
