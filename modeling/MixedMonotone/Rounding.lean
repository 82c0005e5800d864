/-!
# Rounding a quotient

* `roundHalfEven`: the whole number nearest to a quotient, a tie going to the even neighbour.
* `two_mul_roundHalfEven_le`, `le_two_mul_roundHalfEven`: it is **within half a unit**.
-/

namespace MixedMonotone

/-- The whole number nearest to `num / den`; a tie goes to the **even** neighbour. -/
def roundHalfEven (num den : Nat) : Nat :=
  let floor := num / den
  let twice := 2 * (num % den)
  if twice < den then floor
  else if den < twice then floor + 1
  else floor + floor % 2

/-- The rounded quotient is at most half a unit too large. -/
theorem two_mul_roundHalfEven_le {num den : Nat} (hden : 0 < den) :
    2 * den * roundHalfEven num den ≤ 2 * num + den := by
  have hdiv := Nat.div_add_mod num den
  have hmod := Nat.mod_lt num hden
  have hpar : num / den % 2 ≤ 1 := by omega
  simp only [roundHalfEven]
  split
  · rw [Nat.mul_assoc]; omega
  · split
    · rw [Nat.mul_assoc, Nat.mul_add]; omega
    · rw [Nat.mul_assoc, Nat.mul_add]
      have := Nat.mul_le_mul_left den hpar
      omega

/-- The rounded quotient is at most half a unit too small. -/
theorem le_two_mul_roundHalfEven {num den : Nat} (hden : 0 < den) :
    2 * num ≤ 2 * den * roundHalfEven num den + den := by
  have hdiv := Nat.div_add_mod num den
  have hmod := Nat.mod_lt num hden
  simp only [roundHalfEven]
  split
  · rw [Nat.mul_assoc]; omega
  · split
    · rw [Nat.mul_assoc, Nat.mul_add]; omega
    · rw [Nat.mul_assoc, Nat.mul_add]; omega

end MixedMonotone
