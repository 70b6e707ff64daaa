/-
Unbroken runs of good entries at the end of a log, and a deadline set an interval after the first
of them. An entry that meets the deadline, good itself, ends a run that has stood for the interval.
-/
import Mathlib.Tactic

namespace Streak

variable {α : Type} {good : α → Prop} {time : α → Nat} {interval deadline : Nat} {log : List α} {d : α}

/-- The log ends in a run of good entries, and the deadline is an interval after the first of them. -/
def Armed (good : α → Prop) (time : α → Nat) (interval : Nat) (log : List α) (deadline : Nat) : Prop :=
  ∃ early first between, log = early ++ first :: between ∧ deadline = time first + interval ∧
    ∀ e ∈ first :: between, good e

/-- Since an entry at least an interval before `d`, all entries have been good, up to `d`. -/
def Stood (good : α → Prop) (time : α → Nat) (interval : Nat) (log : List α) (d : α) : Prop :=
  ∃ early first between, log = early ++ first :: between ∧ time first + interval ≤ time d ∧
    ∀ e ∈ first :: between ++ [d], good e

/-- Every entry that fires ends a run that has stood. -/
def Sound (good : α → Prop) (time : α → Nat) (interval : Nat) (fires : α → Prop) (log : List α) : Prop :=
  ∀ before d after, log = before ++ d :: after → fires d → Stood good time interval before d

theorem Armed.start (log : List α) (hd : good d) : Armed good time interval (log ++ [d]) (time d + interval) :=
  ⟨log, d, [], rfl, rfl, fun e he => by
    rw [List.mem_singleton] at he
    rw [he]
    exact hd⟩

theorem Armed.extend (h : Armed good time interval log deadline) (hd : good d) :
    Armed good time interval (log ++ [d]) deadline := by
  obtain ⟨early, first, between, rfl, hdeadline, hgood⟩ := h
  refine ⟨early, first, between ++ [d], by simp, hdeadline, fun e he => ?_⟩
  rw [← List.cons_append, List.mem_append, List.mem_singleton] at he
  rcases he with he | rfl
  · exact hgood e he
  · exact hd

theorem Armed.stood (h : Armed good time interval log deadline) (hd : good d) (hdue : deadline ≤ time d) :
    Stood good time interval log d := by
  obtain ⟨early, first, between, rfl, rfl, hgood⟩ := h
  refine ⟨early, first, between, rfl, hdue, fun e he => ?_⟩
  rw [List.mem_append, List.mem_singleton] at he
  rcases he with he | rfl
  · exact hgood e he
  · exact hd

theorem Sound.nil {fires : α → Prop} : Sound good time interval fires [] := by
  intro before d after h
  cases before <;> cases h

theorem Sound.snoc {fires : α → Prop} (h : Sound good time interval fires log)
    (hd : fires d → Stood good time interval log d) : Sound good time interval fires (log ++ [d]) := by
  intro before e after heq hfires
  rcases List.eq_nil_or_concat after with rfl | ⟨after', x, rfl⟩
  · obtain ⟨rfl, hlast⟩ := List.append_inj' heq rfl
    rw [List.cons.injEq] at hlast
    rw [← hlast.1] at hfires ⊢
    exact hd hfires
  · rw [List.concat_eq_append, ← List.cons_append, ← List.append_assoc] at heq
    obtain ⟨rfl, -⟩ := List.append_inj' heq rfl
    exact h before e after' rfl hfires

end Streak
