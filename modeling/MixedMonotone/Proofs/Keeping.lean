import Mathlib
import MixedMonotone.Action

/-!
# What calls keep

A call keeps a property of the state if the property holds after the call wherever it held before,
**whether the call is answered or refused**.

* `Action.Keeps`: such calls, and the ways in which calls are put together.
* `Action.answer_eq_ok`, `Action.bind_of_ok`: the call that was answered, with the state it left.
-/

namespace MixedMonotone.Action

variable {α σ τ β γ : Type}

theorem answer_eq_ok {act : Action α σ β} {s : σ} {b : β} :
    act.answer s = .ok b ↔ ∃ t, act s = .ok b t := by
  unfold answer
  cases act s <;> simp

theorem answer_eq_error {act : Action α σ β} {s : σ} {e : Error α} :
    act.answer s = .error e ↔ ∃ t, act s = .error e t := by
  unfold answer
  cases act s <;> simp

theorem after_eq_of_ok {act : Action α σ β} {s t : σ} {b : β} (h : act s = .ok b t) :
    act.after s = t := by
  rw [after, h]

/-- A sequence of two calls goes on where the first one was answered. -/
theorem bind_of_ok {act : Action α σ β} {next : β → Action α σ γ} {s t : σ} {b : β}
    (h : act s = .ok b t) : (act >>= next) s = next b t := by
  change EStateM.bind act next s = _
  rw [EStateM.bind, h]

/-- A sequence of two calls ends where the first one was refused. -/
theorem bind_of_error {act : Action α σ β} {next : β → Action α σ γ} {s t : σ} {e : Error α}
    (h : act s = .error e t) : (act >>= next) s = .error e t := by
  change EStateM.bind act next s = _
  rw [EStateM.bind, h]

/-- A sequence of two calls is answered if both are. -/
theorem bind_eq_ok {act : Action α σ β} {next : β → Action α σ γ} {s u : σ} {c : γ} :
    (act >>= next) s = .ok c u ↔ ∃ b t, act s = .ok b t ∧ next b t = .ok c u := by
  constructor
  · intro h
    cases hact : act s with
    | ok b t => exact ⟨b, t, rfl, by rwa [bind_of_ok hact] at h⟩
    | error e t =>
      rw [bind_of_error hact] at h
      cases h
  · rintro ⟨b, t, hact, hnext⟩
    rw [bind_of_ok hact, hnext]

/-- A check in front of a call. -/
theorem inquire_bind_eq (f : σ → Except (Error α) β) (next : β → Action α σ γ) (s : σ) :
    (inquire f >>= next) s =
      match f s with
      | .ok b => next b s
      | .error e => .error e s := by
  change EStateM.bind (inquire f) next s = _
  unfold EStateM.bind inquire
  cases f s <;> rfl

theorem get_bind (next : σ → Action α σ β) (s : σ) : (MonadState.get >>= next) s = next s s := rfl

theorem after_get_bind (next : σ → Action α σ β) (s : σ) :
    (MonadState.get >>= next).after s = (next s).after s := rfl

/-- An answer put into another form. -/
theorem answer_return (act : Action α σ β) (f : β → γ) (s : σ) :
    (do return f (← act) : Action α σ γ).answer s = (act.answer s).map f := by
  rw [answer_bind]
  cases act.answer s <;> rfl

theorem after_return (act : Action α σ β) (f : β → γ) (s : σ) :
    (do return f (← act) : Action α σ γ).after s = act.after s := by
  rw [after_bind]
  cases act.answer s <;> rfl

/-- The call keeps `P`. -/
def Keeps (P : σ → Prop) (act : Action α σ β) : Prop := ∀ s, P s → P (act.after s)

namespace Keeps

variable {P : σ → Prop}

theorem pure (b : β) : Keeps P (Pure.pure b : Action α σ β) := fun _ hs => hs

theorem throw (e : Error α) : Keeps P (MonadExcept.throw e : Action α σ β) := fun _ hs => hs

theorem get : Keeps P (MonadState.get : Action α σ σ) := fun _ hs => hs

theorem inquire (f : σ → Except (Error α) β) : Keeps P (Action.inquire f) := by
  intro s hs
  rw [after_inquire]
  exact hs

/-- The second call is made on what the first one left. -/
theorem bind_at {act : Action α σ β} {next : β → Action α σ γ} {s : σ} (hact : P (act.after s))
    (hnext : ∀ b, Keeps P (next b)) : P ((act >>= next).after s) := by
  rw [after_bind]
  cases act.answer s with
  | ok b => exact hnext b _ hact
  | error e => exact hact

theorem bind {act : Action α σ β} {next : β → Action α σ γ} (hact : Keeps P act)
    (hnext : ∀ b, Keeps P (next b)) : Keeps P (act >>= next) :=
  fun s hs => bind_at (hact s hs) hnext

/-- A call that goes on only with what the state answers. -/
theorem inquire_bind {f : σ → Except (Error α) β} {next : β → Action α σ γ}
    (h : ∀ s b, P s → f s = .ok b → P ((next b).after s)) :
    Keeps P (Action.inquire f >>= next) := by
  intro s hs
  rw [after_bind, answer_inquire, after_inquire]
  cases hf : f s with
  | ok b => exact h s b hs hf
  | error e => exact hs

/-- A call on a part keeps what putting back the part keeps. -/
theorem focus {get : σ → τ} {set : σ → τ → σ} {act : Action α τ β}
    (h : ∀ s, P s → P (set s (act.after (get s)))) : Keeps P (Action.focus get set act) := by
  intro s hs
  rw [after_focus]
  exact h s hs

end Keeps

end MixedMonotone.Action
