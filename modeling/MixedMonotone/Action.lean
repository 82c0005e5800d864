import MixedMonotone.Error

/-!
# Actions

A call on a graph, a program or a session answers or is refused, and **leaves a state in both
cases**.

* `Action`: such calls.
* `Action.inquire`: an answer computed from the state, which stays as it is.
* `Action.focus`: a call on one part of a larger state.
-/

namespace MixedMonotone

/-- Calls on a state `σ`; the state they leave is kept also when they are refused. -/
abbrev Action (α σ : Type) := EStateM (Error α) σ

namespace Action

variable {α σ τ β : Type}

/-- An answer computed from the state. -/
def inquire (f : σ → Except (Error α) β) : Action α σ β := fun s =>
  match f s with
  | .ok b => .ok b s
  | .error e => .error e s

/-- A call on one part of the state. -/
def focus (get : σ → τ) (set : σ → τ → σ) (act : Action α τ β) : Action α σ β := fun s =>
  match act (get s) with
  | .ok b t => .ok b (set s t)
  | .error e t => .error e (set s t)

/-- The state that a call leaves. -/
def after (act : Action α σ β) (s : σ) : σ :=
  match act s with
  | .ok _ t => t
  | .error _ t => t

/-- What a call answers. -/
def answer (act : Action α σ β) (s : σ) : Except (Error α) β :=
  match act s with
  | .ok b _ => .ok b
  | .error e _ => .error e

@[simp] theorem after_inquire (f : σ → Except (Error α) β) (s : σ) : (inquire f).after s = s := by
  unfold after inquire; cases f s <;> rfl

@[simp] theorem answer_inquire (f : σ → Except (Error α) β) (s : σ) :
    (inquire f).answer s = f s := by
  unfold answer inquire; cases f s <;> rfl

@[simp] theorem after_focus (get : σ → τ) (set : σ → τ → σ) (act : Action α τ β) (s : σ) :
    (focus get set act).after s = set s (act.after (get s)) := by
  unfold after focus; cases act (get s) <;> rfl

@[simp] theorem answer_focus (get : σ → τ) (set : σ → τ → σ) (act : Action α τ β) (s : σ) :
    (focus get set act).answer s = act.answer (get s) := by
  unfold answer focus; cases act (get s) <;> rfl

/-- A sequence of two calls ends with the first one if that is refused. -/
theorem after_bind {γ : Type} (act : Action α σ β) (next : β → Action α σ γ) (s : σ) :
    (act >>= next).after s =
      match act.answer s with
      | .ok b => (next b).after (act.after s)
      | .error _ => act.after s := by
  change after (EStateM.bind act next) s = _
  unfold after answer EStateM.bind
  cases act s <;> rfl

theorem answer_bind {γ : Type} (act : Action α σ β) (next : β → Action α σ γ) (s : σ) :
    (act >>= next).answer s =
      match act.answer s with
      | .ok b => (next b).answer (act.after s)
      | .error e => .error e := by
  change answer (EStateM.bind act next) s = _
  unfold after answer EStateM.bind
  cases act s <;> rfl

end Action

end MixedMonotone
