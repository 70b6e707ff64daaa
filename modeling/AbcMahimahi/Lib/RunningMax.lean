/-
The best of a list by a loop that keeps the best score so far and what had it first. What is found is
the maximum over the list and does not depend on its order.
-/
import Mathlib.Tactic

namespace RunningMax

variable {α β : Type} [LinearOrder β] (score : α → β)

/-- Keep the better one, the older one of two that are equal. -/
def better (best : β × α) (a : α) : β × α := if score a > best.1 then (score a, a) else best

def best (start : β × α) (l : List α) : β × α := l.foldl (better score) start

theorem le_best : ∀ (l : List α) (start : β × α), start.1 ≤ (best score start l).1 ∧ ∀ a ∈ l, score a ≤ (best score start l).1
  | [], start => ⟨le_rfl, fun a ha => absurd ha List.not_mem_nil⟩
  | b :: l, start => by
    obtain ⟨hstart, hmem⟩ := le_best l (better score start b)
    have hboth : start.1 ≤ (better score start b).1 ∧ score b ≤ (better score start b).1 := by
      unfold better
      split
      · rename_i hgt
        exact ⟨le_of_lt hgt, le_rfl⟩
      · rename_i hle
        exact ⟨le_rfl, not_lt.1 hle⟩
    refine ⟨le_trans hboth.1 hstart, fun a ha => ?_⟩
    rcases List.mem_cons.1 ha with rfl | ha
    · exact le_trans hboth.2 hstart
    · exact hmem a ha

/-- The best is the start or a member with its own score. -/
theorem best_mem : ∀ (l : List α) (start : β × α),
    best score start l = start ∨ (best score start l).2 ∈ l ∧ (best score start l).1 = score (best score start l).2
  | [], start => Or.inl rfl
  | b :: l, start => by
    rcases best_mem l (better score start b) with h | ⟨hmem, hscore⟩
    · have hbest : best score start (b :: l) = better score start b := h
      rw [hbest]
      unfold better
      split
      · exact Or.inr ⟨List.mem_cons_self .., rfl⟩
      · exact Or.inl rfl
    · exact Or.inr ⟨List.mem_cons_of_mem _ hmem, hscore⟩

/-- The best score is at most any other bound on the list. -/
theorem best_le {l : List α} {start : β × α} {bound : β} (hstart : start.1 ≤ bound) (h : ∀ a ∈ l, score a ≤ bound) :
    (best score start l).1 ≤ bound := by
  rcases best_mem score l start with heq | ⟨hmem, hscore⟩
  · rw [heq]
    exact hstart
  · rw [hscore]
    exact h _ hmem

theorem best_perm {l l' : List α} (h : l.Perm l') (start : β × α) : (best score start l).1 = (best score start l').1 := by
  obtain ⟨hstart, hmem⟩ := le_best score l start
  obtain ⟨hstart', hmem'⟩ := le_best score l' start
  exact le_antisymm (best_le score hstart' fun a ha => hmem' a (h.mem_iff.1 ha))
    (best_le score hstart fun a ha => hmem a (h.mem_iff.2 ha))

end RunningMax
