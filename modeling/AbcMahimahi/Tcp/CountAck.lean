/-
What one counted ACK does to the window of `abc_in_ack`, in both modules: the additive increase
first, then the brake or the acceleration by the full segments acknowledged.
-/
import AbcMahimahi.Lib.Word
import AbcMahimahi.Tcp.Sock

namespace AbcMahimahi.Tcp

open Word

namespace Abc

/-! ## The two halves of an ACK -/

/-- The additive increase of a counted ACK. -/
def increased (ca : Abc) : Abc :=
  if ca.aiCwnd + 1 > ca.lossCwnd then
    { ca with aiCwnd := ca.aiCwnd + 1 - ca.lossCwnd, lossCwnd := ca.lossCwnd + 1 }
  else { ca with aiCwnd := ca.aiCwnd + 1 }

/-- The brake or the acceleration by `segs` full segments. -/
def settled (ca : Abc) (segs : UInt32) (ece : Bool) : Abc :=
  if ece then
    if ca.lossCwnd > 5 + segs then { ca with lossCwnd := ca.lossCwnd - segs } else ca
  else { ca with lossCwnd := ca.lossCwnd + segs }

theorem countAck_eq (ca : Abc) (ackedBytes : UInt32) (ece : Bool) :
    ca.countAck ackedBytes ece = ca.increased.settled (ackedBytes / 1448) ece := rfl

theorem settled_aiCwnd (ca : Abc) (segs : UInt32) (ece : Bool) : (ca.settled segs ece).aiCwnd = ca.aiCwnd := by
  unfold settled
  split
  · split <;> rfl
  · rfl

theorem toNat_segs (bytes : UInt32) : (bytes / 1448).toNat = bytes.toNat / 1448 := by
  rw [UInt32.toNat_div]
  rfl

/-- The guard of the brake, over the naturals. -/
theorem gt_five_add_iff (w bytes : UInt32) : w > 5 + bytes / 1448 ↔ 5 + bytes.toNat / 1448 < w.toNat := by
  have hbytes := bytes.toNat_lt
  have hfive : (5 + bytes / 1448).toNat = 5 + bytes.toNat / 1448 := by
    rw [toNat_add_of_lt (by rw [toNat_segs]; simp only [UInt32.reduceToNat]; omega), toNat_segs]
    rfl
  rw [gt_iff_lt, UInt32.lt_iff_toNat_lt, hfive]

/-! ## Over the naturals -/

/-- The additive increase, away from the top of the integers: the counter passes the window, which
grows by one for it, or it does not. -/
theorem increased_cases {ca : Abc} (hai : ca.aiCwnd.toNat + 1 < 2 ^ 32) (hloss : ca.lossCwnd.toNat + 1 < 2 ^ 32) :
    ¬ ca.aiCwnd + 1 > ca.lossCwnd ∧ ca.aiCwnd.toNat + 1 ≤ ca.lossCwnd.toNat ∧
        ca.increased.lossCwnd.toNat = ca.lossCwnd.toNat ∧ ca.increased.aiCwnd.toNat = ca.aiCwnd.toNat + 1 ∨
      ca.aiCwnd + 1 > ca.lossCwnd ∧ ca.lossCwnd.toNat < ca.aiCwnd.toNat + 1 ∧
        ca.increased.lossCwnd.toNat = ca.lossCwnd.toNat + 1 ∧
        ca.increased.aiCwnd.toNat = ca.aiCwnd.toNat + 1 - ca.lossCwnd.toNat := by
  have hai1 : (ca.aiCwnd + 1).toNat = ca.aiCwnd.toNat + 1 := toNat_add_one hai
  have hcarry : ca.aiCwnd + 1 > ca.lossCwnd ↔ ca.lossCwnd.toNat < ca.aiCwnd.toNat + 1 := by
    rw [gt_iff_lt, UInt32.lt_iff_toNat_lt, hai1]
  unfold increased
  by_cases h : ca.aiCwnd + 1 > ca.lossCwnd
  · have hlt := hcarry.1 h
    rw [if_pos h]
    exact Or.inr ⟨h, hlt, toNat_add_one hloss, by rw [toNat_sub_of_le (by rw [hai1]; omega), hai1]⟩
  · have hle : ¬ ca.lossCwnd.toNat < ca.aiCwnd.toNat + 1 := fun hlt => h (hcarry.2 hlt)
    rw [if_neg h]
    exact Or.inl ⟨h, by omega, rfl, hai1⟩

/-- The window after the second half of an ACK. -/
def settledWindow (w segs : Nat) (ece : Bool) : Nat := if ece then (if 5 + segs < w then w - segs else w) else w + segs

/-- The brake takes all the segments of its ACK off the window, or none, whatever the window. -/
theorem settled_brake (ca : Abc) (bytes : UInt32) :
    (ca.settled (bytes / 1448) true).lossCwnd.toNat = settledWindow ca.lossCwnd.toNat (bytes.toNat / 1448) true := by
  unfold settled settledWindow
  simp only [if_true, gt_five_add_iff]
  split
  · rw [toNat_sub_of_le (by rw [toNat_segs]; omega), toNat_segs]
  · rfl

theorem settled_lossCwnd {ca : Abc} {bytes : UInt32} (hfit : ca.lossCwnd.toNat + bytes.toNat / 1448 < 2 ^ 32) (ece : Bool) :
    (ca.settled (bytes / 1448) ece).lossCwnd.toNat = settledWindow ca.lossCwnd.toNat (bytes.toNat / 1448) ece := by
  cases ece with
  | true => exact settled_brake ca bytes
  | false =>
    unfold settled settledWindow
    simp only [Bool.false_eq_true, if_false]
    rw [toNat_add_of_lt (by rw [toNat_segs]; exact hfit), toNat_segs]

/-- The brake leaves six packets, and an ACK adds its segments at most. -/
theorem settledWindow_bounds (w segs : Nat) (ece : Bool) :
    min w 6 ≤ settledWindow w segs ece ∧ settledWindow w segs ece ≤ w + segs := by
  unfold settledWindow
  split
  · split <;> omega
  · omega

/-- The additive increase is one packet at most, whatever the counter. -/
theorem increased_window {ca : Abc} (hloss : ca.lossCwnd.toNat + 1 < 2 ^ 32) :
    ca.lossCwnd.toNat ≤ ca.increased.lossCwnd.toNat ∧ ca.increased.lossCwnd.toNat ≤ ca.lossCwnd.toNat + 1 := by
  unfold increased
  split
  · dsimp only
    rw [toNat_add_one hloss]
    omega
  · exact ⟨le_rfl, Nat.le_succ _⟩

/-- A counted ACK grows the window by its segments and one at most, and brakes it not below six. -/
theorem countAck_window {ca : Abc} {bytes : UInt32} (ece : Bool)
    (hfit : ca.lossCwnd.toNat + (bytes.toNat / 1448 + 1) < 2 ^ 32) :
    min ca.lossCwnd.toNat 6 ≤ (ca.countAck bytes ece).lossCwnd.toNat ∧
      (ca.countAck bytes ece).lossCwnd.toNat ≤ ca.lossCwnd.toNat + (bytes.toNat / 1448 + 1) := by
  obtain ⟨hlow, hhigh⟩ := @increased_window ca (by omega)
  have hbounds := settledWindow_bounds ca.increased.lossCwnd.toNat (bytes.toNat / 1448) ece
  rw [countAck_eq, settled_lossCwnd (by omega)]
  omega

end Abc

end AbcMahimahi.Tcp
