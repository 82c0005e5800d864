import MixedMonotone.NodeId
import MixedMonotone.Tag

/-!
# Events

What building and compiling a graph reports.

* `Event`: the reports, with `Event.level`, `Event.message` and `Event.fields` as they are written.
-/

namespace MixedMonotone

/-- A report. -/
inductive Event where
  /-- A node was added to a graph. -/
  | nodeCreated (id : NodeId) (name : String) (dimension : Nat) (tag : Tag)
  /-- The two tagging rules give a constant different tags. -/
  | signRulesDisagree (reduced lastComponent : Tag) (rule : ParameterSign)
  /-- An inner product of operands of opposite sign was tagged nonnegative. -/
  | mixedDotTagged (left right : Tag)
  /-- A program was compiled. -/
  | programCompiled (nodes arena constraints : Nat) (inputDimension : Option Nat)
  deriving DecidableEq, Repr

namespace Event

/-- How urgent a report is. -/
inductive Level where
  | trace
  | debug
  | warn
  deriving DecidableEq, Repr

/-- The written form of a level. -/
def Level.text : Level → String
  | trace => "TRACE"
  | debug => "DEBUG"
  | warn => "WARN"

/-- How urgent the report is. -/
def level : Event → Level
  | nodeCreated .. => .trace
  | signRulesDisagree .. | mixedDotTagged .. => .warn
  | programCompiled .. => .debug

/-- The text of the report. -/
def message : Event → String
  | nodeCreated .. => "node created"
  | signRulesDisagree .. => "parameter sign rules disagree"
  | mixedDotTagged .. => "dot product of mixed signs tagged NN"
  | programCompiled .. => "program compiled"

/-- The value of a field of a report. -/
inductive Field where
  | number (n : Nat)
  | text (s : String)
  deriving DecidableEq, Repr

/-- The name of a tagging rule in reports. -/
def ruleName : ParameterSign → String
  | .reduced => "Reduced"
  | .lastComponent => "LastComponent"

/-- An input dimension in reports. -/
def inputText : Option Nat → String
  | none => "None"
  | some d => s!"Some({d})"

/-- The named fields of the report. -/
def fields : Event → List (String × Field)
  | nodeCreated id name dimension tag =>
    [("id", .number id.number), ("name", .text name), ("dim", .number dimension),
      ("tag", .text tag.abbreviation)]
  | signRulesDisagree reduced lastComponent rule =>
    [("reduced", .text reduced.abbreviation), ("last_component", .text lastComponent.abbreviation),
      ("rule", .text (ruleName rule))]
  | mixedDotTagged left right =>
    [("left", .text left.abbreviation), ("right", .text right.abbreviation)]
  | programCompiled nodes arena constraints inputDimension =>
    [("nodes", .number nodes), ("arena", .number arena), ("constraints", .number constraints),
      ("input_dim", .text (inputText inputDimension))]

end Event

end MixedMonotone
