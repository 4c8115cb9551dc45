import CloudDrive.Rounding

/-!
# Sizes for people

A size is told in the largest unit of which it holds one, with two places behind the point unless it
is whole. Units are powers of 1024.

* `unitBytes_le`, `lt_unitBytes`: the unit is the largest that fits.
-/

namespace CloudDrive.CommandLine

/-- The names of the units; each unit is 1024 times the one before. -/
def unitNames : List String := ["B", "KiB", "MiB", "GiB", "TiB", "PiB", "EiB"]

/-- The number of significant bits that sizes are told by. -/
def significantBits : Nat := 53

/-- A size rounded to its significant bits. -/
def roundedSize (bytes : Nat) : Nat :=
  let step := 1 <<< (bytes.log2 + 1 - significantBits)
  roundDiv bytes step * step

/-- Which unit a size is told in. -/
def unitIndex (bytes : Nat) : Nat := bytes.log2 / 10

/-- The bytes of a unit. -/
def unitBytes (index : Nat) : Nat := 1 <<< (10 * index)

/-- A number of hundredths as a decimal with two places. -/
def hundredthsText (hundredths : Nat) : String :=
  let places := hundredths % 100
  Nat.repr (hundredths / 100) ++ "." ++ (if places < 10 then "0" else "") ++ Nat.repr places

/-- A number of bytes in a unit. What is left of a whole number counts for nothing up to a part in
`2 ^ 52`. -/
def amountText (bytes unit : Nat) : String :=
  if (bytes % unit) <<< 52 ≤ unit then Nat.repr (bytes / unit)
  else hundredthsText (roundDiv (bytes * 100) unit)

/-- A size in words. -/
def sizeText (bytes : UInt64) : String :=
  let size := roundedSize bytes.toNat
  let index := unitIndex size
  amountText size (unitBytes index) ++ " " ++ unitNames.getD index ""

/-! ## Lemmas -/

/-- A unit is 1024 times the one before. -/
theorem unitBytes_succ (index : Nat) : unitBytes (index + 1) = 1024 * unitBytes index := by
  unfold unitBytes
  rw [Nat.mul_add, Nat.shiftLeft_add, Nat.shiftLeft_eq (1 <<< (10 * index)), Nat.mul_comm]

/-- A size holds one of its unit, unless it is zero. -/
theorem unitBytes_le {bytes : Nat} (h : bytes ≠ 0) : unitBytes (unitIndex bytes) ≤ bytes := by
  rw [unitBytes, Nat.one_shiftLeft]
  exact Nat.le_trans (Nat.pow_le_pow_right (by decide) (Nat.mul_div_le _ _)) (Nat.log2_self_le h)

/-- A size holds none of the next unit. -/
theorem lt_unitBytes (bytes : Nat) : bytes < unitBytes (unitIndex bytes + 1) := by
  rw [unitBytes, Nat.one_shiftLeft]
  refine Nat.lt_of_lt_of_le Nat.lt_log2_self (Nat.pow_le_pow_right (by decide) ?_)
  unfold unitIndex
  omega

end CloudDrive.CommandLine
