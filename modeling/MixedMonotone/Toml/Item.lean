/-!
# TOML data

* `Item`: a value or a table, with the origin of the table.
* `lookup`, `put`: the entries of a table, in the order of their first appearance.
* `descend`: following a path of keys, creating what is missing.
-/

namespace MixedMonotone.Toml

/-- What brought a table about; it decides what may be added to it later. -/
inductive Origin where
  /-- A header of its own. -/
  | declared
  /-- The header of a table below it. -/
  | implied
  /-- A dotted key. -/
  | dotted
  /-- Braces. -/
  | inline
  deriving DecidableEq, Repr

/-- A value, a table, or an array of tables. The values of numbers and of moments in time are not
kept, since no setting reads them. -/
inductive Item where
  | string (s : String)
  | boolean (b : Bool)
  | number
  | moment
  | array (items : List Item)
  | table (origin : Origin) (entries : List (String × Item))
  /-- The tables under repeated headers in double brackets. -/
  | tables (tables : List (List (String × Item)))

/-- The entries of a table. -/
abbrev Entries := List (String × Item)

namespace Entries

/-- The entries with the item of a key replaced, or added at the end. -/
def put (key : String) (item : Item) : Entries → Entries
  | [] => [(key, item)]
  | e :: rest => if e.1 = key then (key, item) :: rest else e :: put key item rest

/-- The entries with one more key; none if it is there already. -/
def insertNew (key : String) (item : Item) (entries : Entries) : Option Entries :=
  if (entries.lookup key).isSome then none else some (entries.put key item)

end Entries

/-- Change the table at the end of a path of keys. Missing tables are created with the origin
`fresh`; a path through an array of tables leads into its last one. Nothing can be added to a table
in braces, and **a dotted key cannot lead into a table with a header of its own**. -/
def descend (fresh : Origin) (change : Origin → Entries → Option Entries) :
    List String → Origin → Entries → Option Entries
  | [], origin, entries => change origin entries
  | key :: path, _, entries =>
    match entries.lookup key with
    | none => do return entries.put key (.table fresh (← descend fresh change path fresh []))
    | some (.tables ts) => do
      let last ← ts.getLast?
      let last ← descend fresh change path .declared last
      return entries.put key (.tables (ts.dropLast ++ [last]))
    | some (.table origin inner) =>
      if origin = .inline ∨ (origin = .declared ∧ fresh = .dotted) then none
      else do return entries.put key (.table origin (← descend fresh change path origin inner))
    | some _ => none

/-- Add the value of a dotted key, whose tables must all come from dotted keys. -/
def insertDotted (path : List String) (key : String) (item : Item) (origin : Origin)
    (entries : Entries) : Option Entries :=
  descend .dotted
    (fun target entries =>
      if path.isEmpty ∨ target = .dotted then entries.insertNew key item else none)
    path origin entries

end MixedMonotone.Toml
