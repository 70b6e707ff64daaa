/-
A timeline: instants in order that go on forever, past any bound. How many of them have passed by some
time, and how long that stays so.
-/
import Mathlib.Tactic

/-- Instants in order, without a last one. -/
structure Timeline where
  instant : Nat → Nat
  monotone : Monotone instant
  unbounded : ∀ t, ∃ n, t < instant n

namespace Timeline

/-- From one instant on, each so much after the one before. -/
def ofGaps (start : Nat) (gap : Nat → Nat) : Nat → Nat
  | 0 => start
  | n + 1 => ofGaps start gap n + gap n

theorem ofGaps_monotone (start : Nat) (gap : Nat → Nat) : Monotone (ofGaps start gap) :=
  monotone_nat_of_le_succ fun n => Nat.le_add_right _ (gap n)

theorem ofGaps_eq (start : Nat) (gap : Nat → Nat) : ∀ n, ofGaps start gap n = start + ofGaps 0 gap n
  | 0 => rfl
  | n + 1 => by
    unfold ofGaps
    rw [ofGaps_eq start gap n, Nat.add_assoc]

variable (l : Timeline) {t t' n : Nat}

/-- How many instants have passed by the time given. -/
def passed (t : Nat) : Nat := Nat.find (l.unbounded t)

theorem lt_instant_passed (t : Nat) : t < l.instant (l.passed t) := Nat.find_spec (l.unbounded t)

variable {l}

theorem instant_le (h : n < l.passed t) : l.instant n ≤ t := Nat.le_of_not_lt (Nat.find_min (l.unbounded t) h)

theorem passed_le (h : t < l.instant n) : l.passed t ≤ n := Nat.find_min' _ h

theorem passed_mono (h : t ≤ t') : l.passed t ≤ l.passed t' := passed_le (h.trans_lt (l.lt_instant_passed t'))

theorem passed_eq (hbefore : ∀ m < n, l.instant m ≤ t) (hafter : t < l.instant n) : l.passed t = n := by
  refine le_antisymm (passed_le hafter) (Nat.le_of_not_lt fun h => ?_)
  have hpast := hbefore _ h
  have hlater := l.lt_instant_passed t
  omega

/-- Nothing passes before the next instant. -/
theorem passed_stays (hle : t ≤ t') (hlt : t' < l.instant (l.passed t)) : l.passed t' = l.passed t :=
  le_antisymm (passed_le hlt) (passed_mono hle)

end Timeline
