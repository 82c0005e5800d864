/-!
# Sizes in machine words

Sizes and positions are kept in machine words of 64 bits. A sum or a product of sizes may be too
large for a word. Arithmetic that is **checked** stops there; otherwise it **wraps around**.

* `wordSize`: the first size that is too large; `wrapped`: what a word is left with.
* `Arithmetic`: checked or not; `Arithmetic.word`: a computed size.
-/

namespace MixedMonotone

/-- The first size that no machine word holds. -/
def wordSize : Nat := 0x10000000000000000

/-- What a machine word is left with of a size. -/
def wrapped (n : Nat) : Nat := n % wordSize

/-- How sizes are computed. -/
inductive Arithmetic where
  /-- A size that no word holds stops the call. -/
  | checked
  /-- A size that no word holds wraps around. -/
  | wrapping
  deriving DecidableEq, Repr

/-- A computed size as a word holds it; none where the call stops. -/
def Arithmetic.word (arithmetic : Arithmetic) (n : Nat) : Option Nat :=
  if n < wordSize then some n
  else
    match arithmetic with
    | .checked => none
    | .wrapping => some (wrapped n)

/-- A size that a word holds is computed as it is, checked or not. -/
theorem Arithmetic.word_of_lt {n : Nat} (h : n < wordSize) (arithmetic : Arithmetic) :
    arithmetic.word n = some n := if_pos h

end MixedMonotone
