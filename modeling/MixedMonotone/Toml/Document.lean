import MixedMonotone.Toml.Line

/-!
# Documents

A document is the table that its lines build up. A header opens a table; the pairs that follow are
added to it. **Nothing is defined twice.**

* `State`: the table so far, and the path of the open one.
* `State.step`: the effect of one line.
* `parse?`: the table of a text.
-/

namespace MixedMonotone.Toml

/-- The table so far and the path of the open table. -/
structure State where
  entries : Entries := []
  path : List String := []

/-- Open the table of a header: a new one, or one that so far only the headers below it implied. -/
def openTable (key : String) (_ : Origin) (entries : Entries) : Option Entries :=
  match entries.lookup key with
  | none => some (entries.put key (.table .declared []))
  | some (.table .implied inner) => some (entries.put key (.table .declared inner))
  | some _ => none

/-- Open a new table at the end of an array of tables. -/
def openArrayTable (key : String) (_ : Origin) (entries : Entries) : Option Entries :=
  match entries.lookup key with
  | none => some (entries.put key (.tables [[]]))
  | some (.tables ts) => some (entries.put key (.tables (ts ++ [[]])))
  | some _ => none

/-- The effect of a line. -/
def State.step (s : State) : Line → Option State
  | .blank => some s
  | .pair key item => do
    let entries ← descend .implied (insertDotted key.path key.last item) s.path .declared s.entries
    return { s with entries }
  | .header key => do
    let entries ← descend .implied (openTable key.last) key.path .declared s.entries
    return { entries, path := key.path ++ [key.last] }
  | .arrayHeader key => do
    let entries ← descend .implied (openArrayTable key.last) key.path .declared s.entries
    return { entries, path := key.path ++ [key.last] }

/-- The text without a byte order mark at its start. -/
def dropMark : List Char → List Char
  | '\ufeff' :: rest => rest
  | cs => cs

/-- The table that a text describes. -/
def parse? (text : String) : Option Entries := do
  let s ← (← lines (dropMark text.toList)).foldlM State.step {}
  return s.entries

end MixedMonotone.Toml
