/-
Sums of words whose carries are brought round to the other end, as in a one's complement sum. Such
a sum is one modulo `m - 1` for words below `m`, except that zero and all ones stay apart. A word
that complements a sum brings it to all ones.
-/
import Mathlib.Data.Nat.ModEq
import Mathlib.Tactic

namespace OnesComplement

/-- `t` stands for the sum `s`, with carries brought round. -/
structure Stands (m s t : Nat) : Prop where
  modEq : t ≡ s [MOD m - 1]
  pos : 0 < t ↔ 0 < s

variable {m s t u : Nat}

theorem Stands.refl (m s : Nat) : Stands m s s := ⟨rfl, Iff.rfl⟩

theorem Stands.trans (h : Stands m s t) (h' : Stands m t u) : Stands m s u :=
  ⟨h'.modEq.trans h.modEq, h'.pos.trans h.pos⟩

/-- Bring the carries round once. -/
theorem stands_carry (hm : 0 < m) (s : Nat) : Stands m s (s % m + s / m) := by
  have hsplit : s % m + m * (s / m) = s := Nat.mod_add_div s m
  constructor
  · have hone : m ≡ 1 [MOD m - 1] := by
      apply Nat.ModEq.symm
      rw [Nat.modEq_iff_dvd' hm]
    calc s % m + s / m = s % m + 1 * (s / m) := by rw [one_mul]
      _ ≡ s % m + m * (s / m) [MOD m - 1] := (hone.symm.mul_right _).add_left _
      _ = s := hsplit
  · constructor
    · intro h
      by_contra hs
      obtain rfl : s = 0 := by omega
      simp at h
    · intro h
      by_contra hzero
      obtain ⟨hmod, hdiv⟩ := Nat.add_eq_zero_iff.1 (Nat.eq_zero_of_not_pos hzero)
      rw [hmod, hdiv, mul_zero] at hsplit
      omega

/-- A word that stands for a positive multiple of all ones is all ones. -/
theorem Stands.allOnes (h : Stands m s t) (ht : t < m) (hpos : 0 < s) (hs : s ≡ 0 [MOD m - 1]) : t = m - 1 := by
  have hzero : m - 1 ∣ t := (Nat.modEq_zero_iff_dvd).1 (h.modEq.trans hs)
  have hle : m - 1 ≤ t := Nat.le_of_dvd (h.pos.2 hpos) hzero
  omega

/-- A sum with the complement of the word that stands for it comes to all ones. -/
theorem Stands.complement (hm : 1 < m) (h : Stands m s t) (ht : t < m) (hu : Stands m (s + (m - 1 - t)) u)
    (hlt : u < m) : u = m - 1 := by
  apply hu.allOnes hlt
  · have hpos := h.pos
    omega
  · calc s + (m - 1 - t) ≡ t + (m - 1 - t) [MOD m - 1] := h.modEq.symm.add_right _
      _ = m - 1 := by omega
      _ ≡ 0 [MOD m - 1] := by rw [Nat.modEq_zero_iff_dvd]

end OnesComplement
