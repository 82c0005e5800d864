/-!
# Settings

The choices an expression graph leaves open.

* `ParameterSign`: how a constant vector is tagged.
* `ZeroRule`: what the zero relation of a constraint checks.
* `DotSign`: how an inner product of operands of opposite sign is tagged.
* `Settings`: the three choices, and whether equal constants share one node.

Each choice has one `spelling` in configuration text, and `ofSpelling?` reads it back.
-/

namespace MixedMonotone

/-- How the tag of a constant vector follows from its values. -/
inductive ParameterSign where
  /-- All components decide. -/
  | reduced
  /-- The last component decides. -/
  | lastComponent
  deriving DecidableEq, Repr

/-- What the zero relation checks. -/
inductive ZeroRule where
  /-- No component is zero. -/
  | rejectZero
  /-- Every component is zero. -/
  | requireZero
  deriving DecidableEq, Repr

/-- How an inner product of a nonnegative and a nonpositive operand is tagged. -/
inductive DotSign where
  /-- As nonnegative, against the sign of its values. -/
  | nonnegative
  /-- As nonpositive. -/
  | nonpositive
  deriving DecidableEq, Repr

namespace ParameterSign

/-- The word for the choice in configuration text. -/
def spelling : ParameterSign → String
  | reduced => "reduced"
  | lastComponent => "last_component"

/-- The choice a word stands for. -/
def ofSpelling? (s : String) : Option ParameterSign :=
  [reduced, lastComponent].find? (·.spelling == s)

theorem ofSpelling?_spelling (c : ParameterSign) : ofSpelling? c.spelling = some c := by
  cases c <;> decide

end ParameterSign

namespace ZeroRule

/-- The word for the choice in configuration text. -/
def spelling : ZeroRule → String
  | rejectZero => "reject_zero"
  | requireZero => "require_zero"

/-- The choice a word stands for. -/
def ofSpelling? (s : String) : Option ZeroRule :=
  [rejectZero, requireZero].find? (·.spelling == s)

theorem ofSpelling?_spelling (c : ZeroRule) : ofSpelling? c.spelling = some c := by
  cases c <;> decide

end ZeroRule

namespace DotSign

/-- The word for the choice in configuration text. -/
def spelling : DotSign → String
  | nonnegative => "legacy_nn"
  | nonpositive => "nonpositive"

/-- The choice a word stands for. -/
def ofSpelling? (s : String) : Option DotSign :=
  [nonnegative, nonpositive].find? (·.spelling == s)

theorem ofSpelling?_spelling (c : DotSign) : ofSpelling? c.spelling = some c := by
  cases c <;> decide

end DotSign

/-- The choices of one graph. -/
structure Settings where
  /-- The tagging rule for constants. -/
  parameterSign : ParameterSign := .reduced
  /-- The check of the zero relation. -/
  zeroRule : ZeroRule := .rejectZero
  /-- The tag of an inner product of mixed signs. -/
  dotSign : DotSign := .nonnegative
  /-- Whether a constant vector requested again is the node created first. -/
  internParameters : Bool := true
  deriving DecidableEq, Repr

end MixedMonotone
