/-
A loop around a fallible turn that either goes on with a new state or returns. The loop runs on
fuel; when every turn that goes on lowers a measure, the measure of the first state is fuel
enough, and the loop obeys its own equation.
-/
import Mathlib.Tactic

namespace Loop

variable {ε σ ρ : Type}

/-- Turn after turn until one returns, `endless` when the fuel runs out. -/
def run (endless : ε) (turn : σ → Except ε (σ ⊕ ρ)) : Nat → σ → Except ε ρ
  | 0, _ => .error endless
  | fuel + 1, s =>
    match turn s with
    | .ok (.inl s') => run endless turn fuel s'
    | .ok (.inr r) => .ok r
    | .error e => .error e

/-- Every turn that goes on lowers the measure. -/
def Lowers (turn : σ → Except ε (σ ⊕ ρ)) (size : σ → Nat) : Prop :=
  ∀ s s', turn s = .ok (.inl s') → size s' < size s

/-- The loop with fuel for its measure. -/
def whole (endless : ε) (turn : σ → Except ε (σ ⊕ ρ)) (size : σ → Nat) (s : σ) : Except ε ρ :=
  run endless turn (size s + 1) s

variable {endless : ε} {turn : σ → Except ε (σ ⊕ ρ)} {size : σ → Nat}

/-- Fuel beyond the measure changes nothing. -/
theorem run_fuel (h : Lowers turn size) : ∀ {n m : Nat} {s : σ}, size s < n → size s < m →
    run endless turn n s = run endless turn m s
  | 0, _, s, hn, _ => absurd hn (Nat.not_lt_zero _)
  | _ + 1, 0, s, _, hm => absurd hm (Nat.not_lt_zero _)
  | n + 1, m + 1, s, hn, hm => by
    unfold run
    split
    · rename_i s' hs
      have := h s s' hs
      exact run_fuel h (by omega) (by omega)
    · rfl
    · rfl

theorem whole_inl (h : Lowers turn size) {s s' : σ} (hs : turn s = .ok (.inl s')) :
    whole endless turn size s = whole endless turn size s' := by
  have hlt := h s s' hs
  unfold whole
  rw [run, hs]
  exact run_fuel h hlt (Nat.lt_succ_self _)

theorem whole_inr {s : σ} {r : ρ} (hs : turn s = .ok (.inr r)) : whole endless turn size s = .ok r := by
  unfold whole
  rw [run, hs]

theorem whole_error {s : σ} {e : ε} (hs : turn s = .error e) : whole endless turn size s = .error e := by
  unfold whole
  rw [run, hs]

/-- The invariant rule: turns that go on keep the invariant, and from the invariant a turn returns or
fails as the postcondition says. -/
theorem whole_inv (h : Lowers turn size) {I : σ → Prop} {Q : Except ε ρ → Prop}
    (hgo : ∀ s s', I s → turn s = .ok (.inl s') → I s') (hstop : ∀ s r, I s → turn s = .ok (.inr r) → Q (.ok r))
    (hfail : ∀ s e, I s → turn s = .error e → Q (.error e)) {s : σ} (hs : I s) : Q (whole endless turn size s) := by
  induction hn : size s using Nat.strong_induction_on generalizing s with
  | _ n ih =>
    subst hn
    cases hturn : turn s with
    | error e =>
      rw [whole_error hturn]
      exact hfail s e hs hturn
    | ok x =>
      cases x with
      | inl s' =>
        rw [whole_inl h hturn]
        exact ih _ (h s s' hturn) (hgo s s' hs hturn) rfl
      | inr r =>
        rw [whole_inr hturn]
        exact hstop s r hs hturn

end Loop
