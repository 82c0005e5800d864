import MixedMonotone.Toml.Number
import MixedMonotone.Toml.Quoted

/-!
# Lines

* `keyPath`: the keys of a dotted key.
* `value`: a value; arrays and tables in braces are read to a limited depth.
* `Line`: what a line of a document says.
* `lines`: the lines of a text.
-/

namespace MixedMonotone.Toml

/-- How deep arrays and tables in braces may be nested, and how many keys a dotted key may have. -/
def maxDepth : Nat := 79

/-- A character of a key without quotes. -/
def isBareChar (c : Char) : Bool :=
  isDigit c || ('a' ≤ c && c ≤ 'z') || ('A' ≤ c && c ≤ 'Z') || c == '-' || c == '_'

/-- One key, bare or in quotes. -/
def simpleKey (cs : List Char) : Option (String × List Char) :=
  match cs.takeWhile isBareChar with
  | [] => quotedOnLine cs
  | key => some (String.ofList key, cs.dropWhile isBareChar)

/-- Keys with points between them, each perhaps between spaces; at most as many as `fuel`. -/
def keysBelow : Nat → Reader (List String)
  | 0, _ => none
  | fuel + 1, cs => do
    let (key, rest) ← simpleKey (skipSpaces cs)
    match skipSpaces rest with
    | '.' :: rest =>
      let (keys, rest) ← keysBelow fuel rest
      return (key :: keys, rest)
    | rest => return ([key], rest)

/-- A dotted key: the keys before the last, and the last. -/
structure KeyPath where
  path : List String
  last : String
  deriving DecidableEq, Repr

/-- A dotted key. -/
def keyPath : Reader KeyPath := fun cs => do
  let (keys, rest) ← keysBelow maxDepth cs
  return (⟨keys.dropLast, ← keys.getLast?⟩, rest)

/-- The items of an array up to its closing bracket, given how an item is read. A comma may
follow the last item. -/
def arrayItems (item : Reader Item) : Nat → Reader (List Item)
  | 0, _ => none
  | fuel + 1, cs =>
    match skipBlank cs with
    | ']' :: rest => some ([], rest)
    | cs => do
      let (first, rest) ← item cs
      match skipBlank rest with
      | ',' :: rest =>
        let (items, rest) ← arrayItems item fuel rest
        return (first :: items, rest)
      | ']' :: rest => return ([first], rest)
      | _ => none

/-- A key and its value, given how a value is read. -/
def pairOf (item : Reader Item) : Reader (KeyPath × Item) := fun cs => do
  let (key, rest) ← keyPath cs
  let (value, rest) ← item (skipSpaces (← after '=' rest))
  return ((key, value), rest)

/-- The pairs of a table in braces up to its closing brace. No comma follows the last pair. -/
def inlinePairs (item : Reader Item) : Nat → Reader (List (KeyPath × Item))
  | 0, _ => none
  | fuel + 1, cs => do
    let (first, rest) ← pairOf item cs
    match skipSpaces rest with
    | ',' :: rest =>
      let (pairs, rest) ← inlinePairs item fuel rest
      return (first :: pairs, rest)
    | '}' :: rest => return ([first], rest)
    | _ => none

/-- The table in braces that the pairs form. -/
def inlineTable (pairs : List (KeyPath × Item)) : Option Item := do
  let entries ← pairs.foldlM
    (fun entries (key, item) => insertDotted key.path key.last item .inline entries) []
  return .table .inline entries

/-- A value. Arrays and tables in braces may be nested `depth` deep. -/
def value : Nat → Reader Item
  | _, 't' :: 'r' :: 'u' :: 'e' :: rest => some (.boolean true, rest)
  | _, 'f' :: 'a' :: 'l' :: 's' :: 'e' :: rest => some (.boolean false, rest)
  | _, '"' :: rest => (quoted ('"' :: rest)).map fun (s, rest) => (.string s, rest)
  | _, '\'' :: rest => (quoted ('\'' :: rest)).map fun (s, rest) => (.string s, rest)
  | 0, '[' :: _ => none
  | depth + 1, '[' :: rest => do
    let (items, rest) ← arrayItems (value depth) (rest.length + 1) rest
    return (.array items, rest)
  | 0, '\x7b' :: _ => none
  | depth + 1, '\x7b' :: rest =>
    match skipSpaces rest with
    | '\x7d' :: rest => some (.table .inline [], rest)
    | _ => do
      let (pairs, rest) ← inlinePairs (value depth) (rest.length + 1) rest
      return (← inlineTable pairs, rest)
  | _, cs => numeric cs

/-- What a line of a document says. -/
inductive Line where
  /-- Nothing. -/
  | blank
  /-- A key has a value. -/
  | pair (key : KeyPath) (item : Item)
  /-- The pairs that follow belong to this table. -/
  | header (key : KeyPath)
  /-- The pairs that follow belong to a new table at the end of this array. -/
  | arrayHeader (key : KeyPath)

/-- One line with its line break. -/
def line : Reader Line := fun cs =>
  match skipSpaces cs with
  | '[' :: '[' :: rest => do
    let (key, rest) ← keyPath rest
    let rest ← after ']' rest
    return (.arrayHeader key, ← lineEnd (← after ']' rest))
  | '[' :: rest => do
    let (key, rest) ← keyPath rest
    return (.header key, ← lineEnd (← after ']' rest))
  | rest =>
    match lineEnd rest with
    | some rest => some (.blank, rest)
    | none => do
      let ((key, item), rest) ← pairOf (value maxDepth) rest
      return (.pair key item, ← lineEnd rest)

/-- The lines up to the end of the text, at most as many as `fuel`. -/
def linesBelow : Nat → List Char → Option (List Line)
  | _, [] => some []
  | 0, _ => none
  | fuel + 1, cs => do
    let (first, rest) ← line cs
    return first :: (← linesBelow fuel rest)

/-- The lines of a text; each is at least one character long. -/
def lines (cs : List Char) : Option (List Line) := linesBelow cs.length cs

end MixedMonotone.Toml
