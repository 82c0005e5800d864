import MixedMonotone.Session

/-!
# Scripts

A script is a sequence of commands that name nodes by the **number of the step** that answered them,
so it means the same whatever handles are issued.

* `Script.Outcome`: what became of a step.
* `Script.run`: the session and the outcomes after a script.
-/

namespace MixedMonotone.Script

variable {α : Type}

/-- What became of a step. -/
inductive Outcome (α : Type) where
  /-- It was answered. -/
  | answered (r : Reply α)
  /-- It was refused. -/
  | refused (e : Error α)
  /-- It names a step that answered no node. -/
  | unresolved
  deriving DecidableEq

/-- The handle that a step answered. -/
def Outcome.id? : Outcome α → Option NodeId
  | answered r => r.id?
  | _ => none

/-- The handle that the step with a number answered. -/
def lookup (outcomes : List (Outcome α)) (step : Nat) : Option NodeId := do
  (← outcomes[step]?).id?

variable [Scalar α] [DecidableEq α]

/-- One more step, after steps with the given outcomes. -/
def step (c : Command α Nat) (outcomes : List (Outcome α)) (s : Session α) :
    Outcome α × Session α :=
  match c.resolve (lookup outcomes) with
  | none => (.unresolved, s)
  | some c =>
    match Session.run c s with
    | .ok r s => (.answered r, s)
    | .error e s => (.refused e, s)

/-- **The outcomes of all steps**, after those given, and the session they leave. -/
def run : List (Command α Nat) → List (Outcome α) → Session α → List (Outcome α) × Session α
  | [], outcomes, s => (outcomes, s)
  | c :: rest, outcomes, s =>
    let (outcome, s) := step c outcomes s
    run rest (outcomes ++ [outcome]) s

end MixedMonotone.Script
