import CloudDrive.Config
import Mathlib.Algebra.Group.Nat.Defs
import Mathlib.Tactic.Common

/-!
# Waits between attempts

The wait after an attempt is worked out on words of 32 and 64 bits, with operations that stop at the
border. None of this can be seen: the limit of the policy is a word itself, so it hides whatever the
product loses at the border.

* `toNat_delayAfter`: the wait as a number.
* `delayAfter_mono`, `delayAfter_le_double`: from one attempt to the next.
* `delayAfter_exact`: all together.
-/

namespace CloudDrive.RetryPolicy

/-! ## Words as numbers -/

theorem toNat_saturatingPred (n : UInt32) : (saturatingPred n).toNat = n.toNat - 1 := by
  by_cases h : n = 0
  · subst h
    rfl
  · have hpos : 0 < n.toNat := Nat.pos_of_ne_zero fun h0 => h (UInt32.toNat_inj.1 h0)
    have hle : 1 ≤ n := UInt32.le_iff_toNat_le.2 hpos
    rw [saturatingPred, if_neg h, UInt32.toNat_sub_of_le _ _ hle, UInt32.toNat_one]

theorem toNat_saturatingMul (a b : UInt64) :
    (saturatingMul a b).toNat = min (a.toNat * b.toNat) (UInt64.size - 1) := by
  unfold saturatingMul
  split
  · next h =>
    rw [UInt64.toNat_mul, Nat.mod_eq_of_lt h]
    omega
  · next h =>
    rw [Nat.min_eq_right (by omega)]
    rfl

theorem toNat_one_shiftLeft {k : UInt64} (h : k.toNat < 64) : (1 <<< k).toNat = 2 ^ k.toNat := by
  rw [UInt64.toNat_shiftLeft, Nat.mod_eq_of_lt h, UInt64.toNat_one, Nat.one_shiftLeft,
    Nat.mod_eq_of_lt (Nat.pow_lt_pow_right (by omega) h)]

/-! ## The wait -/

variable (p : RetryPolicy)

/-- **The wait as a number.** -/
theorem toNat_delayAfter (n : UInt32) :
    (p.delayAfter n).toNat =
      min (p.initialBackoff.toNat * 2 ^ min (n.toNat - 1) 16) p.maxBackoff.toNat := by
  have hdoublings : (min (saturatingPred n) 16).toUInt64.toNat = min (n.toNat - 1) 16 := by
    rw [UInt32.toNat_toUInt64, UInt32.toNat_min, toNat_saturatingPred]
    rfl
  have hword : p.maxBackoff.toNat < UInt64.size := p.maxBackoff.toNat_lt_size
  rw [delayAfter, UInt64.toNat_min, toNat_saturatingMul, toNat_one_shiftLeft (by omega), hdoublings,
    Nat.min_assoc, Nat.min_eq_right (by omega : p.maxBackoff.toNat ≤ UInt64.size - 1)]

theorem delayAfter_le_max (n : UInt32) : p.delayAfter n ≤ p.maxBackoff := by
  rw [UInt64.le_iff_toNat_le, toNat_delayAfter]
  exact Nat.min_le_right _ _

variable {m n : UInt32}

theorem delayAfter_mono (h : m ≤ n) : p.delayAfter m ≤ p.delayAfter n := by
  rw [UInt32.le_iff_toNat_le] at h
  rw [UInt64.le_iff_toNat_le, toNat_delayAfter, toNat_delayAfter]
  have hpow : 2 ^ min (m.toNat - 1) 16 ≤ 2 ^ min (n.toNat - 1) 16 :=
    Nat.pow_le_pow_right (by omega) (by omega)
  have hgrown := Nat.mul_le_mul_left p.initialBackoff.toNat hpow
  omega

/-- The attempt after this one is followed by a wait that is at most twice as long. -/
theorem delayAfter_le_double (h : n.toNat ≤ m.toNat + 1) :
    (p.delayAfter n).toNat ≤ 2 * (p.delayAfter m).toNat := by
  rw [toNat_delayAfter, toNat_delayAfter]
  have hpow : 2 ^ min (n.toNat - 1) 16 ≤ 2 ^ min (m.toNat - 1) 16 * 2 := by
    rw [← Nat.pow_succ]
    exact Nat.pow_le_pow_right (by omega) (by omega)
  have hgrown := Nat.mul_le_mul_left p.initialBackoff.toNat hpow
  rw [← Nat.mul_assoc] at hgrown
  omega

/-- **The wait is exact.** After the attempt of any number it is the first wait, doubled for each
attempt after the first but no more than sixteen times, or the longest wait if that is less: no
operation on the words shows. So it never exceeds the longest wait, never gets shorter, and from one
attempt to the next at most doubles. -/
theorem delayAfter_exact (p : RetryPolicy) :
    (∀ n : UInt32, (p.delayAfter n).toNat =
        min p.maxBackoff.toNat (p.initialBackoff.toNat * 2 ^ min (max n.toNat 1 - 1) 16)) ∧
      (∀ n, p.delayAfter n ≤ p.maxBackoff) ∧
      (∀ m n, m ≤ n → p.delayAfter m ≤ p.delayAfter n) ∧
      ∀ m n : UInt32, n.toNat = m.toNat + 1 →
        (p.delayAfter n).toNat ≤ 2 * (p.delayAfter m).toNat := by
  refine ⟨fun n => ?_, p.delayAfter_le_max, fun _ _ => p.delayAfter_mono,
    fun _ _ h => p.delayAfter_le_double (Nat.le_of_eq h)⟩
  have hfirst : max n.toNat 1 - 1 = n.toNat - 1 := by omega
  rw [toNat_delayAfter, hfirst, Nat.min_comm]

/-- A wait whose double does not fit into a word stops at the largest word. -/
theorem delayAfter_exact_largestWord :
    let p : RetryPolicy := ⟨3, 0x8000000000000001, 0xFFFFFFFFFFFFFFFF⟩
    (p.delayAfter 2).toNat = 2 ^ 64 - 1 ∧ p.delayAfter 0 ≤ p.delayAfter 0xFFFFFFFF ∧
      (p.delayAfter 1).toNat ≤ 2 * (p.delayAfter 0).toNat := by
  intro p
  obtain ⟨hexact, -, hmono, hdouble⟩ := delayAfter_exact p
  exact ⟨(hexact 2).trans (by decide), hmono _ _ (by decide), hdouble _ _ (by decide)⟩

example : (⟨5, 100, 300⟩ : RetryPolicy).delayAfter 2 = 200 ∧
    (⟨5, 100, 300⟩ : RetryPolicy).delayAfter 3 = 300 := by decide

end CloudDrive.RetryPolicy
