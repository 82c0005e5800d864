import Mathlib
import MixedMonotone.Proofs.Keeping

/-!
# Calls that agree

Two calls agree when, made on related states, both are refused with related errors or both are
answered with related answers, and the states they leave are related **in either case**.

* `Matched`: two results, both failed or both there, and related; `Both`: failed for the same
  reason.
* `Action.Agree`: calls that agree, and the ways in which calls are put together.
-/

namespace MixedMonotone

variable {α β β' γ γ' ε ε' σ σ' τ τ' ι ι' : Type}

/-- Both failed, with related errors, or both have results, which are related. -/
inductive Matched (E : ε → ε' → Prop) (A : β → β' → Prop) : Except ε β → Except ε' β' → Prop
  | ok {b : β} {b' : β'} (h : A b b') : Matched E A (.ok b) (.ok b')
  | error {e : ε} {e' : ε'} (h : E e e') : Matched E A (.error e) (.error e')

namespace Matched

variable {E : ε → ε' → Prop} {A : β → β' → Prop} {B : γ → γ' → Prop} {x : Except ε β}
    {x' : Except ε' β'}

theorem bind {f : β → Except ε γ} {f' : β' → Except ε' γ'} (h : Matched E A x x')
    (hf : ∀ b b', A b b' → Matched E B (f b) (f' b')) : Matched E B (x >>= f) (x' >>= f') := by
  cases h with
  | ok h => exact hf _ _ h
  | error h => exact .error h

/-- Matching calls, one after the other. -/
theorem mapM {f : ι → Except ε β} {f' : ι' → Except ε' β'} {l : List ι} {l' : List ι'}
    (h : List.Forall₂ (fun a a' => Matched E A (f a) (f' a')) l l') :
    Matched E (List.Forall₂ A) (l.mapM f) (l'.mapM f') := by
  induction h with
  | nil => exact .ok .nil
  | cons ha _ ih =>
    rw [List.mapM_cons, List.mapM_cons]
    exact ha.bind fun _ _ hb => ih.bind fun _ _ hbs => .ok (.cons hb hbs)

/-- Matching calls, each going on with what the one before has left. -/
theorem foldlM {P : ι → ι' → Prop} {f : β → ι → Except ε β} {f' : β' → ι' → Except ε' β'}
    (hstep : ∀ b b' a a', A b b' → P a a' → Matched E A (f b a) (f' b' a')) {l : List ι}
    {l' : List ι'} (h : List.Forall₂ P l l') :
    ∀ {b b'}, A b b' →
      Matched E A (l.foldlM f b) (l'.foldlM f' b') := by
  induction h with
  | nil => exact fun hb => .ok hb
  | cons ha _ ih =>
    intro b b' hb
    rw [List.foldlM_cons, List.foldlM_cons]
    exact (hstep _ _ _ _ hb ha).bind fun _ _ => ih

theorem eq {x x' : Except ε β} (h : Matched Eq Eq x x') : x = x' := by
  cases h with
  | ok h => rw [h]
  | error h => rw [h]

end Matched

/-- Both failed for the same reason, or both have results, which are related. -/
abbrev Both (A : β → β' → Prop) : Except ε β → Except ε β' → Prop := Matched Eq A

theorem Both.refl (x : Except ε β) : Both Eq x x := by
  cases x with
  | ok b => exact .ok rfl
  | error e => exact .error rfl

namespace Action

/-- The calls **agree** on related states. -/
def Agree (E : Error α → Error α → Prop) (R : σ → σ' → Prop) (A : β → β' → Prop)
    (act : Action α σ β) (act' : Action α σ' β') : Prop :=
  ∀ s s', R s s' → Matched E A (act.answer s) (act'.answer s') ∧ R (act.after s) (act'.after s')

namespace Agree

variable {E : Error α → Error α → Prop} {R : σ → σ' → Prop} {A : β → β' → Prop} {B : γ → γ' → Prop}

theorem pure {b : β} {b' : β'} (h : A b b') :
    Agree E R A (Pure.pure b : Action α σ β) (Pure.pure b' : Action α σ' β') :=
  fun _ _ hs => ⟨.ok h, hs⟩

theorem throw {e e' : Error α} (h : E e e') :
    Agree E R A (MonadExcept.throw e : Action α σ β) (MonadExcept.throw e' : Action α σ' β') :=
  fun _ _ hs => ⟨.error h, hs⟩

theorem get : Agree E R R (MonadState.get : Action α σ σ) (MonadState.get : Action α σ' σ') :=
  fun _ _ hs => ⟨.ok hs, hs⟩

theorem inquire {f : σ → Except (Error α) β} {f' : σ' → Except (Error α) β'}
    (h : ∀ s s', R s s' → Matched E A (f s) (f' s')) :
    Agree E R A (Action.inquire f) (Action.inquire f') := by
  intro s s' hs
  rw [answer_inquire, answer_inquire, after_inquire, after_inquire]
  exact ⟨h s s' hs, hs⟩

theorem bind {act : Action α σ β} {act' : Action α σ' β'} {next : β → Action α σ γ}
    {next' : β' → Action α σ' γ'} (hact : Agree E R A act act')
    (hnext : ∀ b b', A b b' → Agree E R B (next b) (next' b')) :
    Agree E R B (act >>= next) (act' >>= next') := by
  intro s s' hs
  obtain ⟨hanswer, hafter⟩ := hact s s' hs
  rw [answer_bind, answer_bind, after_bind, after_bind]
  generalize act.answer s = x, act'.answer s' = x' at hanswer
  cases hanswer with
  | ok h => exact hnext _ _ h _ _ hafter
  | error h => exact ⟨.error h, hafter⟩

/-- Calls on parts of related states that are themselves related, as are the states with
related parts put back. -/
theorem focus {S : τ → τ' → Prop} {get : σ → τ} {get' : σ' → τ'} {set : σ → τ → σ}
    {set' : σ' → τ' → σ'} {act : Action α τ β} {act' : Action α τ' β'}
    (hget : ∀ s s', R s s' → S (get s) (get' s'))
    (hset : ∀ s s' t t', R s s' → S t t' → R (set s t) (set' s' t')) (hact : Agree E S A act act') :
    Agree E R A (Action.focus get set act) (Action.focus get' set' act') := by
  intro s s' hs
  obtain ⟨hanswer, hafter⟩ := hact _ _ (hget s s' hs)
  rw [answer_focus, answer_focus, after_focus, after_focus]
  exact ⟨hanswer, hset s s' _ _ hs hafter⟩

end Agree

end Action

end MixedMonotone
