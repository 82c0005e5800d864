/-!
# Blanks, line ends and comments

* `skipSpaces`: spaces and tabs.
* `lineEnd`: the end of a line, with a comment before it.
* `skipBlank`: everything without meaning between the items of an array.
-/

namespace MixedMonotone.Toml

/-- A reader: what it reads, and the rest of the text. -/
abbrev Reader (β : Type) := List Char → Option (β × List Char)

/-- A space or a tab. -/
def isSpace (c : Char) : Bool := c == ' ' || c == '\t'

/-- A character beyond ASCII. -/
def isNonAscii (c : Char) : Bool := 0x80 ≤ c.toNat

/-- A character that may stand in a comment: no control character but the tab. -/
def isCommentChar (c : Char) : Bool :=
  c == '\t' || (0x20 ≤ c.toNat && c.toNat ≤ 0x7E) || isNonAscii c

/-- The text after spaces and tabs. -/
def skipSpaces (cs : List Char) : List Char := cs.dropWhile isSpace

/-- The text after a line break, or at its end. -/
def newlineOrEnd : List Char → Option (List Char)
  | [] => some []
  | '\n' :: rest => some rest
  | '\r' :: '\n' :: rest => some rest
  | _ => none

/-- The text after the rest of a line, which holds at most a comment. -/
def lineEnd (cs : List Char) : Option (List Char) :=
  match skipSpaces cs with
  | '#' :: rest => newlineOrEnd (rest.dropWhile isCommentChar)
  | rest => newlineOrEnd rest

/-- The text after spaces, line breaks and comments. A comment goes up to the end of its line. -/
def skipBlankFrom (inComment : Bool) : List Char → List Char
  | [] => []
  | '\n' :: rest => skipBlankFrom false rest
  | '\r' :: '\n' :: rest => skipBlankFrom false rest
  | c :: rest =>
    if inComment then if isCommentChar c then skipBlankFrom true rest else c :: rest
    else if isSpace c then skipBlankFrom false rest
    else if c == '#' then skipBlankFrom true rest
    else c :: rest

/-- The text after spaces, line breaks and comments. -/
def skipBlank (cs : List Char) : List Char := skipBlankFrom false cs

end MixedMonotone.Toml
