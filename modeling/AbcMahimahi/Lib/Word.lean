/-
Arithmetic of 32-bit words read off as natural numbers: each law says when an operation does not
wrap, or what it is in any case.
-/
import Mathlib.Tactic

namespace Word

theorem toNat_add_of_lt {x y : UInt32} (h : x.toNat + y.toNat < 2 ^ 32) : (x + y).toNat = x.toNat + y.toNat := by
  rw [UInt32.toNat_add, Nat.mod_eq_of_lt h]

theorem toNat_add_one {x : UInt32} (h : x.toNat + 1 < 2 ^ 32) : (x + 1).toNat = x.toNat + 1 :=
  toNat_add_of_lt h

theorem toNat_sub_of_le {x y : UInt32} (h : y.toNat ≤ x.toNat) : (x - y).toNat = x.toNat - y.toNat :=
  UInt32.toNat_sub_of_le _ _ (UInt32.le_iff_toNat_le.2 h)

theorem toNat_mul_of_lt {x y : UInt32} (h : x.toNat * y.toNat < 2 ^ 32) : (x * y).toNat = x.toNat * y.toNat := by
  rw [UInt32.toNat_mul, Nat.mod_eq_of_lt h]

theorem toNat_min (x y : UInt32) : (min x y).toNat = min x.toNat y.toNat := by
  show (if x ≤ y then x else y).toNat = _
  split
  · rename_i h
    rw [Nat.min_eq_left (UInt32.le_iff_toNat_le.1 h)]
  · rename_i h
    rw [UInt32.le_iff_toNat_le] at h
    rw [Nat.min_eq_right (by omega)]

theorem toNat_max (x y : UInt32) : (max x y).toNat = max x.toNat y.toNat := by
  show (if x ≤ y then y else x).toNat = _
  split
  · rename_i h
    rw [Nat.max_eq_right (UInt32.le_iff_toNat_le.1 h)]
  · rename_i h
    rw [UInt32.le_iff_toNat_le] at h
    rw [Nat.max_eq_left (by omega)]

theorem ne_zero_of_pos {x : UInt32} (h : 0 < x.toNat) : x ≠ 0 := by
  rintro rfl
  exact absurd h (by decide)

/-- A word below `2 ^ 31` is its own value as a signed one, in 64 bits too. -/
theorem toNat_toInt64_of_lt {x : UInt32} (h : x.toNat < 2 ^ 31) : x.toInt32.toInt64.toUInt64.toNat = x.toNat := by
  have hmsb : x.toBitVec.msb = false := by
    rw [BitVec.msb_eq_false_iff_two_mul_lt]
    show 2 * x.toNat < _
    omega
  show (x.toBitVec.signExtend 64).toNat = x.toNat
  rw [BitVec.signExtend_eq_setWidth_of_msb_false hmsb, BitVec.toNat_setWidth]
  show x.toNat % _ = _
  omega

end Word
