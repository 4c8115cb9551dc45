/-!
# Rounded quotients

A quotient rounded to the nearest whole number; a half goes to the even neighbour.

* `roundDiv_le`, `le_roundDiv`: the rounded quotient is off by a half at most.
* `roundDiv_half`: a half goes to the even neighbour.
-/

namespace CloudDrive

/-- A quotient rounded to the nearest whole number, a half to the even neighbour. -/
def roundDiv (num den : Nat) : Nat :=
  let quotient := num / den
  let twice := 2 * (num % den)
  if den < twice ∨ (twice = den ∧ quotient % 2 = 1) then quotient + 1 else quotient

/-- The rounded quotient exceeds the exact one by a half at most. -/
theorem roundDiv_le (num den : Nat) : 2 * (roundDiv num den * den) ≤ 2 * num + den := by
  have h := Nat.div_add_mod num den
  rw [Nat.mul_comm] at h
  unfold roundDiv
  simp only
  split
  · rw [Nat.add_mul]
    omega
  · omega

/-- The rounded quotient falls short of the exact one by a half at most. -/
theorem le_roundDiv (num : Nat) {den : Nat} (hden : 0 < den) :
    2 * num ≤ 2 * (roundDiv num den * den) + den := by
  have h := Nat.div_add_mod num den
  have hm := Nat.mod_lt num hden
  rw [Nat.mul_comm] at h
  unfold roundDiv
  simp only
  split
  · rw [Nat.add_mul]
    omega
  · omega

/-- A quotient that lies half way between two numbers is rounded to the even one. -/
theorem roundDiv_half {num den : Nat} (h : 2 * (num % den) = den) : roundDiv num den % 2 = 0 := by
  unfold roundDiv
  simp only
  split <;> omega

end CloudDrive
