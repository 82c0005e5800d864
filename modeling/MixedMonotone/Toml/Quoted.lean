import MixedMonotone.Toml.Blank

/-!
# Quoted text

* `basicBody`: text in double quotes on one line, with escapes.
* `literalBody`: text in single quotes on one line, without escapes.
* `longBasicBody`, `longLiteralBody`: the same over several lines, in three quotes; up to two more
  quotes may stand **before the closing ones**.
* `quoted`: any of the four.
-/

namespace MixedMonotone.Toml

/-- The value of a hexadecimal digit. -/
def hexDigit? (c : Char) : Option Nat :=
  if '0' ≤ c ∧ c ≤ '9' then some (c.toNat - '0'.toNat)
  else if 'a' ≤ c ∧ c ≤ 'f' then some (c.toNat - 'a'.toNat + 10)
  else if 'A' ≤ c ∧ c ≤ 'F' then some (c.toNat - 'A'.toNat + 10)
  else none

/-- The character whose code point the hexadecimal digits give; surrogates and numbers beyond the
last code point give none. -/
def codePoint? (digits : List Char) : Option Char := do
  let digits ← digits.mapM hexDigit?
  let n := digits.foldl (fun n d => 16 * n + d) 0
  if n.isValidChar then some (Char.ofNat n) else none

/-- The character that a one-letter escape stands for. -/
def simpleEscape? : Char → Option Char
  | 'b' => some '\x08'
  | 't' => some '\t'
  | 'n' => some '\n'
  | 'f' => some '\x0c'
  | 'r' => some '\r'
  | '"' => some '"'
  | '\\' => some '\\'
  | _ => none

/-- A character that stands for itself in double quotes. -/
def isBasicChar (c : Char) : Bool := isCommentChar c && c != '"' && c != '\\'

/-- A character that stands for itself in single quotes. -/
def isLiteralChar (c : Char) : Bool := isCommentChar c && c != '\''

/-- A character in front of what is read after it. -/
def consTo (c : Char) (r : Option (List Char × List Char)) : Option (List Char × List Char) :=
  r.map fun (text, rest) => (c :: text, rest)

/-- The text up to the closing double quote. -/
def basicBody : Reader (List Char)
  | '"' :: rest => some ([], rest)
  | '\\' :: 'u' :: a :: b :: c :: d :: rest =>
    do consTo (← codePoint? [a, b, c, d]) (basicBody rest)
  | '\\' :: 'U' :: a :: b :: c :: d :: e :: f :: g :: h :: rest => do
    consTo (← codePoint? [a, b, c, d, e, f, g, h]) (basicBody rest)
  | '\\' :: c :: rest => do consTo (← simpleEscape? c) (basicBody rest)
  | c :: rest => if isBasicChar c then consTo c (basicBody rest) else none
  | [] => none

/-- The text up to the closing single quote. -/
def literalBody : Reader (List Char)
  | '\'' :: rest => some ([], rest)
  | c :: rest => if isLiteralChar c then consTo c (literalBody rest) else none
  | [] => none

/-- Where the reading of a long text in double quotes stands. -/
inductive LongMode where
  /-- In the text. -/
  | text
  /-- After a backslash, with nothing but spaces before the line break. -/
  | escaped
  /-- After an escaped line break, where blanks are dropped. -/
  | trimming
  deriving DecidableEq, Repr

/-- The text up to the closing three double quotes. A line break is read as a single newline; after
a backslash it is dropped with all blanks that follow. -/
def longBasicBody (mode : LongMode) (cs : List Char) : Option (List Char × List Char) :=
  match mode, cs with
  | .escaped, '\n' :: rest | .escaped, '\r' :: '\n' :: rest
  | .trimming, '\n' :: rest | .trimming, '\r' :: '\n' :: rest => longBasicBody .trimming rest
  | .escaped, c :: rest => if isSpace c then longBasicBody .escaped rest else none
  | .escaped, [] => none
  | .trimming, c :: rest =>
    if isSpace c then longBasicBody .trimming rest else longBasicBody .text (c :: rest)
  | .trimming, [] => none
  | .text, '"' :: '"' :: '"' :: '"' :: '"' :: rest => some (['"', '"'], rest)
  | .text, '"' :: '"' :: '"' :: '"' :: rest => some (['"'], rest)
  | .text, '"' :: '"' :: '"' :: rest => some ([], rest)
  | .text, '"' :: rest => consTo '"' (longBasicBody .text rest)
  | .text, '\n' :: rest | .text, '\r' :: '\n' :: rest => consTo '\n' (longBasicBody .text rest)
  | .text, '\\' :: 'u' :: a :: b :: c :: d :: rest => do
    consTo (← codePoint? [a, b, c, d]) (longBasicBody .text rest)
  | .text, '\\' :: 'U' :: a :: b :: c :: d :: e :: f :: g :: h :: rest => do
    consTo (← codePoint? [a, b, c, d, e, f, g, h]) (longBasicBody .text rest)
  | .text, '\\' :: c :: rest =>
    if isSpace c ∨ c = '\n' ∨ c = '\r' then longBasicBody .escaped (c :: rest)
    else do consTo (← simpleEscape? c) (longBasicBody .text rest)
  | .text, c :: rest => if isBasicChar c then consTo c (longBasicBody .text rest) else none
  | .text, [] => none
termination_by (cs.length, if mode = .trimming then 1 else 0)

/-- The text up to the closing three single quotes. A line break is read as a single newline. -/
def longLiteralBody : Reader (List Char)
  | '\'' :: '\'' :: '\'' :: '\'' :: '\'' :: rest => some (['\'', '\''], rest)
  | '\'' :: '\'' :: '\'' :: '\'' :: rest => some (['\''], rest)
  | '\'' :: '\'' :: '\'' :: rest => some ([], rest)
  | '\'' :: rest => consTo '\'' (longLiteralBody rest)
  | '\n' :: rest | '\r' :: '\n' :: rest => consTo '\n' (longLiteralBody rest)
  | c :: rest => if isLiteralChar c then consTo c (longLiteralBody rest) else none
  | [] => none

/-- The text after a line break that follows the opening quotes. -/
def dropFirstNewline : List Char → List Char
  | '\n' :: rest => rest
  | '\r' :: '\n' :: rest => rest
  | cs => cs

/-- Text in quotes on one line. -/
def quotedOnLine : Reader String
  | '"' :: rest => (basicBody rest).map fun (text, rest) => (String.ofList text, rest)
  | '\'' :: rest => (literalBody rest).map fun (text, rest) => (String.ofList text, rest)
  | _ => none

/-- Text in quotes. -/
def quoted : Reader String
  | '"' :: '"' :: '"' :: rest =>
    (longBasicBody .text (dropFirstNewline rest)).map fun (text, rest) => (String.ofList text, rest)
  | '\'' :: '\'' :: '\'' :: rest =>
    (longLiteralBody (dropFirstNewline rest)).map fun (text, rest) => (String.ofList text, rest)
  | cs => quotedOnLine cs

end MixedMonotone.Toml
