import MixedMonotone.Error
import MixedMonotone.Toml.Document

/-!
# Settings as TOML text

* `Settings.ofToml`: the settings a text describes. Missing keys take their default and
  **unknown keys are ignored**.
* `Settings.ofBytes`, `Settings.load`: the settings in a file.
* `Settings.toToml`: the text that describes the settings.
-/

namespace MixedMonotone

open Toml (Item Entries)

/-- Whether an item holds nothing. -/
def isEmptyItem : Item → Bool
  | .array items => items.isEmpty
  | .table _ entries => entries.isEmpty
  | .tables ts => ts.isEmpty
  | _ => false

/-- A choice is written as its word, or as a table whose only key is the word, with an empty
item. -/
def choice {β : Type} (ofSpelling? : String → Option β) : Item → Option β
  | .string s => ofSpelling? s
  | .table _ [(key, item)] => if isEmptyItem item then ofSpelling? key else none
  | _ => none

/-- A yes or no. -/
def truth : Item → Option Bool
  | .boolean b => some b
  | _ => none

/-- What a key stands for, or the default if it is missing. -/
def setting {β : Type} (entries : Entries) (key : String) (read : Item → Option β) (default : β) :
    Option β :=
  match entries.lookup key with
  | none => some default
  | some item => read item

namespace Settings

/-- The settings in a table. -/
def ofEntries (entries : Entries) : Option Settings := do
  let defaults : Settings := {}
  let parameterSign ← setting entries "parameter_sign" (choice ParameterSign.ofSpelling?)
    defaults.parameterSign
  let zeroRule ← setting entries "zero_relation" (choice ZeroRule.ofSpelling?) defaults.zeroRule
  let dotSign ← setting entries "dot_mixed_sign" (choice DotSign.ofSpelling?) defaults.dotSign
  let internParameters ← setting entries "intern_parameters" truth defaults.internParameters
  return { parameterSign, zeroRule, dotSign, internParameters }

variable {α : Type}

/-- The settings that a text describes. -/
def ofToml (text : String) : Except (Error α) Settings :=
  match (Toml.parse? text).bind ofEntries with
  | some s => .ok s
  | none => .error .malformedSettings

/-- The settings in a file with the given contents. -/
def ofBytes (contents : ByteArray) : Except (Error α) Settings :=
  match String.fromUTF8? contents with
  | some text => ofToml text
  | none => .error (.unreadable .notUnicode)

/-- The settings in a file, or why the file has no contents. -/
def load (file : Except FileFault ByteArray) : Except (Error α) Settings :=
  match file with
  | .ok contents => ofBytes contents
  | .error fault => .error (.unreadable fault)

/-- The text that describes the settings, one line per key. -/
def toToml (s : Settings) : String :=
  "parameter_sign = \"" ++ s.parameterSign.spelling ++ "\"\n" ++
  "zero_relation = \"" ++ s.zeroRule.spelling ++ "\"\n" ++
  "dot_mixed_sign = \"" ++ s.dotSign.spelling ++ "\"\n" ++
  "intern_parameters = " ++ (if s.internParameters then "true" else "false") ++ "\n"

end Settings

end MixedMonotone
