import MixedMonotone.Graph.Builder

/-!
# Leaves

* `VariableSpec`: a variable as declared step by step, with a dimension, a tag and perhaps a box.
* `Build.taggedVariable`, `Build.boundedVariable`, `Build.declare`: adding variables.
* `Build.parameter`, `Build.scalar`, `Build.ones`, `Build.matrixParameter`: adding constants. Equal
  constant vectors share a node where the settings say so; equality is that of the **data**, which
  tells the two signed zeros apart.
-/

namespace MixedMonotone

variable {α : Type} [Scalar α]

/-- A variable being declared. -/
structure VariableSpec (α : Type) where
  dimension : Nat := 1
  tag : Tag := .nonneg
  bounds : Option (Box α) := none
  /-- A box decides the dimension. -/
  dimension_eq : ∀ box, bounds = some box → dimension = box.lower.length := by simp
  deriving DecidableEq

namespace VariableSpec

/-- A variable of the given dimension, nonnegative until declared otherwise. -/
def vector (dimension : Nat) : VariableSpec α := { dimension }

/-- A variable with one component. -/
def scalar : VariableSpec α := vector 1

/-- Declare the tag. -/
def withTag (v : VariableSpec α) (tag : Tag) : VariableSpec α := { v with tag }

/-- Confine the variable to a box, which also decides its dimension and its tag. -/
def withBounds (_ : VariableSpec α) (lower upper : List α) : VariableSpec α :=
  { dimension := lower.length, tag := Tag.ofBounds lower upper, bounds := some ⟨lower, upper⟩ }

/-- The first component at which the lower bound is not at most the upper one. -/
def reversed? (box : Box α) : Option ((α × α) × Nat) :=
  (box.lower.zip box.upper).zipIdx.find? fun c => !Scalar.le c.1.1 c.1.2

/-- The declaration is sound: some component, and a box with corners of one length that are in
order. -/
def check (v : VariableSpec α) : Except (Error α) Unit :=
  if v.dimension = 0 then .error .emptyVariable
  else
    match v.bounds with
    | none => .ok ()
    | some box =>
      if box.lower.length ≠ box.upper.length then
        .error (.dimensionMismatch .variableBounds (.size box.lower.length)
          (.size box.upper.length))
      else
        match reversed? box with
        | some ((lower, upper), component) => .error (.reversedBounds lower upper component)
        | none => .ok ()

/-- The variable that a sound declaration describes. -/
def draft (v : VariableSpec α) : Except (Error α) (Draft α) := do
  v.check
  return { kind := .variable v.bounds, tag := v.tag, value := List.replicate v.dimension 0 }

end VariableSpec

namespace Graph

/-- The tag of a constant, with a notice if the two tagging rules disagree on it. -/
def constantTag (g : Graph α) (values : List α) : Tag × List Event :=
  let reduced := Tag.ofValues values .reduced
  let last := Tag.ofValues values .lastComponent
  let rule := g.settings.parameterSign
  (Tag.ofValues values rule,
    if reduced = last then [] else [.signRulesDisagree reduced last rule])

/-- A constant vector. -/
def draftParameter (g : Graph α) (values : List α) : Draft α :=
  let (tag, notices) := g.constantTag values
  { kind := .parameter, tag, value := values, notices }

/-- A constant matrix, tagged by all its entries in row-major order. -/
def draftMatrix (g : Graph α) (m : Matrix α) : Draft α :=
  let (tag, notices) := g.constantTag m.values
  { kind := .matrixParameter m, tag, value := [], notices }

/-- The node that an equal constant vector has already. -/
def interned? [DecidableEq α] (g : Graph α) (values : List α) : Option NodeId :=
  if g.settings.internParameters then (g.interned.find? fun e => e.1 = values).map Prod.snd
  else none

end Graph

namespace Build

/-- Add a declared variable. -/
def declare (v : VariableSpec α) : Build α NodeId := place fun _ => v.draft

/-- Add a variable with a tag. -/
def taggedVariable (dimension : Nat) (tag : Tag) : Build α NodeId :=
  declare ((VariableSpec.vector dimension).withTag tag)

/-- Add a variable confined to a box. -/
def boundedVariable (lower upper : List α) : Build α NodeId :=
  declare ((VariableSpec.vector 0).withBounds lower upper)

/-- Add a constant matrix. -/
def matrixParameter (m : Matrix α) : Build α NodeId := place fun g => .ok (g.draftMatrix m)

variable [DecidableEq α]

/-- The node of a constant vector: the one it has already, or else a new one, recorded where
constants are shared. -/
def constant (values : List α) : Build α NodeId := fun b =>
  match b.graph.interned? values with
  | some id => .ok id b
  | none =>
    let added := b.append (b.graph.draftParameter values)
    .ok b.next (if b.graph.settings.internParameters then added.record values b.next else added)

/-- The node of a constant vector with at least one component. -/
def parameter (values : List α) : Build α NodeId :=
  if values.isEmpty then throw .emptyParameter else constant values

/-- The node of a single number. -/
def scalar (v : α) : Build α NodeId := constant [v]

/-- The node of a constant vector of ones. -/
def ones (dimension : Nat) : Build α NodeId := parameter (List.replicate dimension 1)

end Build

end MixedMonotone
