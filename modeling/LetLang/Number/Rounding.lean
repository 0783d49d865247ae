/-!
# Rounding a quotient to the nearest natural number

* `le_roundDiv`, `roundDiv_le`: the result is one of the two neighbours of the quotient.
-/

namespace LetLang

/-- The natural number nearest to `num / den`, for a positive `den`. A quotient half-way between two
numbers goes to the even one. -/
def roundDiv (num den : Nat) : Nat :=
  if 2 * (num % den) < den then num / den
  else if den < 2 * (num % den) then num / den + 1
  else if num / den % 2 = 0 then num / den
  else num / den + 1

/-! ## Small laws -/

theorem le_roundDiv (num den : Nat) : num / den ≤ roundDiv num den := by
  unfold roundDiv
  split
  · exact Nat.le_refl _
  · split
    · exact Nat.le_succ _
    · split
      · exact Nat.le_refl _
      · exact Nat.le_succ _

theorem roundDiv_le (num den : Nat) : roundDiv num den ≤ num / den + 1 := by
  unfold roundDiv
  split
  · exact Nat.le_succ _
  · split
    · exact Nat.le_refl _
    · split
      · exact Nat.le_succ _
      · exact Nat.le_refl _

/-- A quotient without remainder is kept. -/
theorem roundDiv_mul_left {den : Nat} (n : Nat) (h : 0 < den) : roundDiv (den * n) den = n := by
  simp [roundDiv, h]

@[simp] theorem roundDiv_one (n : Nat) : roundDiv n 1 = n := by
  simp [roundDiv, Nat.mod_one]

end LetLang
