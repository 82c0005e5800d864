import MixedMonotone.Tag

/-!
# Routes

An expression is evaluated at two points `x` and `y`: `x` is used along nondecreasing directions and
`y` along nonincreasing ones. An operand is evaluated either at the points as given or with the two
exchanged.

* `Route`: the two ways, and the one a sign asks for.
* `Dual`: one thing per route.
-/

namespace MixedMonotone

/-- The order of the two points in which an operand is evaluated. -/
inductive Route where
  /-- At `(x, y)`. -/
  | own
  /-- At `(y, x)`. -/
  | swapped
  deriving DecidableEq, Repr

/-- The route along which a parent that is nondecreasing in a node of this tag reads it. -/
def Tag.route : Tag → Route
  | .nonpos => .swapped
  | _ => .own

namespace Route

/-- The route along which a parent increases whose derivative has the sign of `v`. -/
def forValue {α : Type} [Scalar α] (v : α) : Route := if Scalar.le 0 v then own else swapped

/-- The number of the route: own is 0, swapped is 1. -/
def slot : Route → Nat
  | own => 0
  | swapped => 1

/-- Both routes, in the order in which they are evaluated. -/
def both : List Route := [own, swapped]

end Route

/-- One thing for each route. -/
structure Dual (β : Type) where
  own : β
  swapped : β
  deriving DecidableEq, Repr

namespace Dual

variable {β γ : Type}

/-- The thing for one route. -/
def get (d : Dual β) : Route → β
  | .own => d.own
  | .swapped => d.swapped

/-- The pair with the thing for one route replaced. -/
def set (d : Dual β) (r : Route) (b : β) : Dual β :=
  match r with
  | .own => { d with own := b }
  | .swapped => { d with swapped := b }

/-- The pair with its two sides exchanged. -/
def flip (d : Dual β) : Dual β := ⟨d.swapped, d.own⟩

@[simp] theorem get_set_self (d : Dual β) (r : Route) (b : β) : (d.set r b).get r = b := by
  cases r <;> rfl

theorem get_set_of_ne (d : Dual β) {r s : Route} (b : β) (h : r ≠ s) :
    (d.set r b).get s = d.get s := by
  cases r <;> cases s <;> simp_all [set, get]

@[simp] theorem flip_flip (d : Dual β) : d.flip.flip = d := rfl

end Dual

end MixedMonotone
