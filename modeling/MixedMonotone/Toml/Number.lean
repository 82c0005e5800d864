import MixedMonotone.Power
import MixedMonotone.Toml.Blank
import MixedMonotone.Toml.Item

/-!
# Numbers and moments in time

Their values are not kept; what is decided is whether a text is one.

* `moment`: a date, a time of day, or both with an offset; the calendar is checked.
* `floating`: a number with a fraction or an exponent, or a special one; it must not exceed every
  double.
* `integer`: a whole number of sixty-four bits, in four bases.
-/

namespace MixedMonotone.Toml

/-- A decimal digit. -/
def isDigit (c : Char) : Bool := '0' ≤ c && c ≤ '9'

/-- The number that the digits form in a base. -/
def numberOf (base : Nat) (digits : List Nat) : Nat := digits.foldl (fun n d => base * n + d) 0

/-- The value of a digit in a base. -/
def digit? (base : Nat) (c : Char) : Option Nat :=
  let value :=
    if isDigit c then c.toNat - '0'.toNat
    else if 'a' ≤ c ∧ c ≤ 'f' then c.toNat - 'a'.toNat + 10
    else if 'A' ≤ c ∧ c ≤ 'F' then c.toNat - 'A'.toNat + 10
    else base
  if value < base then some value else none

/-- More digits, each perhaps after **one** underscore. -/
def moreDigits (base : Nat) : List Char → List Nat × List Char
  | '_' :: c :: rest =>
    match digit? base c with
    | some d => let (ds, rest) := moreDigits base rest; (d :: ds, rest)
    | none => ([], '_' :: c :: rest)
  | c :: rest =>
    match digit? base c with
    | some d => let (ds, rest) := moreDigits base rest; (d :: ds, rest)
    | none => ([], c :: rest)
  | [] => ([], [])

/-- At least one digit. -/
def digits (base : Nat) : Reader (List Nat)
  | c :: rest => do
    let d ← digit? base c
    let (ds, rest) := moreDigits base rest
    return (d :: ds, rest)
  | [] => none

/-- A sign; whether it is a minus. -/
def sign : List Char → Bool × List Char
  | '-' :: rest => (true, rest)
  | '+' :: rest => (false, rest)
  | cs => (false, cs)

/-- Decimal digits without a leading zero, or a single zero. -/
def wholePart : Reader (List Nat)
  | '0' :: rest => some ([0], rest)
  | cs => digits 10 cs

/-- The digits after a point. -/
def fraction : Reader (List Nat)
  | '.' :: rest => digits 10 rest
  | _ => none

/-- The exponent of ten. -/
def exponent : Reader Int
  | c :: rest =>
    if c = 'e' ∨ c = 'E' then do
      let (negative, rest) := sign rest
      let (ds, rest) ← digits 10 rest
      return (if negative then -(numberOf 10 ds : Int) else numberOf 10 ds, rest)
    else none
  | [] => none

/-- Whether `mantissa · 10 ^ exponent` rounds to no double below infinity: it is at least half way
between the largest double and the next power of two. The number of digits settles all exponents far
away. -/
def exceedsDoubles (mantissa : Nat) (exponent : Int) : Bool :=
  let length : Int := (Nat.toDigits 10 mantissa).length
  if mantissa = 0 ∨ length + exponent < 300 then false
  else if 320 < length + exponent then true
  else
    let limit := (pow2 54 - 1) * pow2 970
    if 0 ≤ exponent then limit ≤ mantissa * pow10 exponent.toNat
    else limit * pow10 (-exponent).toNat ≤ mantissa

/-- A decimal number with a fraction, an exponent or both. Only **plus** infinity is refused. -/
def decimal : Reader Item := fun cs => do
  let (negative, rest) := sign cs
  let (whole, rest) ← wholePart rest
  let (frac, afterFraction) := (fraction rest).getD ([], rest)
  let (exp, afterExponent) := (exponent afterFraction).getD (0, afterFraction)
  if afterExponent.length = rest.length then none
  else if !negative && exceedsDoubles (numberOf 10 (whole ++ frac)) (exp - frac.length) then none
  else some (.number, afterExponent)

/-- Infinity or "not a number". -/
def special : Reader Item := fun cs =>
  match (sign cs).2 with
  | 'i' :: 'n' :: 'f' :: rest | 'n' :: 'a' :: 'n' :: rest => some (.number, rest)
  | _ => none

/-- A number that is not a whole one. -/
def floating : Reader Item := fun cs => (decimal cs).or (special cs)

/-- A whole number of sixty-four bits. -/
def integer : Reader Item
  | '0' :: 'x' :: rest => based 16 rest
  | '0' :: 'o' :: rest => based 8 rest
  | '0' :: 'b' :: rest => based 2 rest
  | cs => do
    let (negative, rest) := sign cs
    let (ds, rest) ← wholePart rest
    if numberOf 10 ds < pow2 63 + (if negative then 1 else 0) then some (.number, rest) else none
where
  /-- Digits of a base, without a sign. -/
  based (base : Nat) (cs : List Char) : Option (Item × List Char) := do
    let (ds, rest) ← digits base cs
    if numberOf base ds < pow2 63 then some (.number, rest) else none

/-- Exactly `n` decimal digits, whose number lies between two bounds. -/
def field (n low high : Nat) : Reader Nat := fun cs => do
  let ds ← (cs.take n).mapM (digit? 10)
  let value := numberOf 10 ds
  if ds.length = n ∧ low ≤ value ∧ value ≤ high then some (value, cs.drop n) else none

/-- The text after a given character. -/
def after (c : Char) : List Char → Option (List Char)
  | d :: rest => if c = d then some rest else none
  | [] => none

/-- The number of days of a month. -/
def daysIn (year month : Nat) : Nat :=
  if month = 2 then
    if year % 4 = 0 ∧ (year % 100 ≠ 0 ∨ year % 400 = 0) then 29 else 28
  else if month ∈ [4, 6, 9, 11] then 30
  else 31

/-- A day of the calendar. -/
def date (cs : List Char) : Option (List Char) := do
  let (year, rest) ← field 4 0 9999 cs
  let (month, rest) ← field 2 1 12 (← after '-' rest)
  let (_, rest) ← field 2 1 (daysIn year month) (← after '-' rest)
  return rest

/-- A time of day with seconds, among them the leap second, and perhaps a fraction. -/
def time (cs : List Char) : Option (List Char) := do
  let (_, rest) ← field 2 0 23 cs
  let (_, rest) ← field 2 0 59 (← after ':' rest)
  let (_, rest) ← field 2 0 60 (← after ':' rest)
  match rest with
  | '.' :: c :: more => return if isDigit c then more.dropWhile isDigit else rest
  | _ => return rest

/-- The offset from universal time. -/
def offset : List Char → Option (List Char)
  | 'Z' :: rest | 'z' :: rest => some rest
  | c :: rest =>
    if c = '+' ∨ c = '-' then do
      let (_, rest) ← field 2 0 23 rest
      let (_, rest) ← field 2 0 59 (← after ':' rest)
      return rest
    else none
  | [] => none

/-- A time of day with the character that sets it off from the date. -/
def timeOfDate : List Char → Option (List Char)
  | c :: rest => if c = 'T' ∨ c = 't' ∨ c = ' ' then time rest else none
  | [] => none

/-- A date, a time of day, or both with or without an offset. -/
def moment : Reader Item := fun cs =>
  match date cs with
  | some rest =>
    match timeOfDate rest with
    | some rest => some (.moment, (offset rest).getD rest)
    | none => some (.moment, rest)
  | none => (time cs).map fun rest => (.moment, rest)

/-- A number or a moment in time. -/
def numeric : Reader Item := fun cs => ((moment cs).or (floating cs)).or (integer cs)

end MixedMonotone.Toml
