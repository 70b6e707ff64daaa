/-
A token bucket that earns fractional credit and spends whole tokens. Idling adds credit past the
cap; any other earning step cuts the bucket down to the cap. Over every run the tokens stay
non-negative, the tokens spent are bounded by the length of the run however full the bucket was
before it, and from a bucket within the cap the tokens spent follow the credit earned.
-/
import Mathlib.Tactic

namespace TokenBucket

/-- What a step did. -/
inductive Event where
  | idle
  | pass
  | earn
  | refuse
  | spend
  deriving DecidableEq, Repr

/-- The tokens spent in a list of events with their credits. -/
def spent {K : Type} (es : List (Event × K)) : Nat := es.countP (·.1 = .spend)

@[simp] theorem spent_nil {K : Type} : spent ([] : List (Event × K)) = 0 := rfl

@[simp] theorem spent_cons {K : Type} (e : Event × K) (es : List (Event × K)) :
    spent (e :: es) = (if e.1 = .spend then 1 else 0) + spent es := by
  simp only [spent, List.countP_cons, decide_eq_true_eq]; omega

/-- The credit earned in a list of events. -/
def earned {K : Type} [AddCommMonoid K] (es : List (Event × K)) : K := (es.map (·.2)).sum

@[simp] theorem earned_nil {K : Type} [AddCommMonoid K] : earned ([] : List (Event × K)) = 0 := rfl

@[simp] theorem earned_cons {K : Type} [AddCommMonoid K] (e : Event × K) (es : List (Event × K)) :
    earned (e :: es) = e.2 + earned es := by
  simp [earned]

section

variable {K : Type} [Field K] [LinearOrder K] [IsStrictOrderedRing K] (cap fill : K)

/-- One step: the tokens before, the event, the credit earned, the tokens after. -/
inductive Step : K → Event → K → K → Prop where
  | idle (t : K) : Step t .idle 0 (t + fill)
  | pass (t : K) : Step t .pass 0 t
  | earn (t c : K) (nonneg : 0 ≤ c) (le : c ≤ fill) : Step t .earn c (min cap (t + c))
  | refuse (t c : K) (nonneg : 0 ≤ c) (le : c ≤ fill) (few : t + c ≤ 1) : Step t .refuse c (min cap (t + c))
  | spend (t c : K) (nonneg : 0 ≤ c) (le : c ≤ fill) (token : 1 < t + c) : Step t .spend c (min cap (t + c - 1))

/-- A run of steps with its events. -/
inductive Run : K → List (Event × K) → K → Prop where
  | nil (t : K) : Run t [] t
  | cons {t t₁ t₂ : K} {e : Event} {c : K} {es : List (Event × K)} (h : Step cap fill t e c t₁)
      (hs : Run t₁ es t₂) : Run t ((e, c) :: es) t₂

variable {cap fill} {t t' : K} {e : Event} {c : K} {es : List (Event × K)}

/-! ## One step -/

theorem Step.nonneg (hcap : 0 ≤ cap) (hfill : 0 ≤ fill) (ht : 0 ≤ t) (h : Step cap fill t e c t') : 0 ≤ t' := by
  cases h with
  | idle => linarith
  | pass => exact ht
  | earn => exact le_min hcap (by linarith)
  | refuse => exact le_min hcap (by linarith)
  | spend => exact le_min hcap (by linarith)

omit [IsStrictOrderedRing K] in
theorem Step.credit (hfill : 0 ≤ fill) (h : Step cap fill t e c t') : 0 ≤ c ∧ c ≤ fill := by
  cases h with
  | idle => exact ⟨le_refl _, hfill⟩
  | pass => exact ⟨le_refl _, hfill⟩
  | earn _ nonneg le => exact ⟨nonneg, le⟩
  | refuse _ nonneg le => exact ⟨nonneg, le⟩
  | spend _ nonneg le => exact ⟨nonneg, le⟩

/-- A step that spends nothing adds at most one credit. -/
theorem Step.le_add (hfill : 0 ≤ fill) (h : Step cap fill t e c t') (he : e ≠ .spend) : t' ≤ t + fill := by
  cases h with
  | idle => exact le_refl _
  | pass => linarith
  | earn _ nonneg le => exact le_trans (min_le_right _ _) (by linarith)
  | refuse _ nonneg le => exact le_trans (min_le_right _ _) (by linarith)
  | spend => exact absurd rfl he

/-- A step that spends leaves the bucket within the cap, a token down but for one credit. -/
theorem Step.spend_le (h : Step cap fill t .spend c t') : t' ≤ cap ∧ t' + 1 ≤ t + fill := by
  cases h with
  | spend _ nonneg le =>
    have := min_le_right cap (t + c - 1)
    exact ⟨min_le_left _ _, by linarith⟩

omit [IsStrictOrderedRing K] in
theorem Step.le_cap (h : Step cap fill t e c t') (he : e = .spend ∨ e = .refuse) : t' ≤ cap := by
  cases h with
  | idle => simp at he
  | pass => simp at he
  | earn => simp at he
  | refuse => exact min_le_left _ _
  | spend => exact min_le_left _ _

/-! ## Runs -/

theorem Run.nonneg (hcap : 0 ≤ cap) (hfill : 0 ≤ fill) (h : Run cap fill t es t') (ht : 0 ≤ t) : 0 ≤ t' := by
  induction h with
  | nil => exact ht
  | cons hs _ ih => exact ih (hs.nonneg hcap hfill ht)

omit [IsStrictOrderedRing K] in
theorem Run.credit (hfill : 0 ≤ fill) (h : Run cap fill t es t') : ∀ e ∈ es, 0 ≤ e.2 ∧ e.2 ≤ fill := by
  induction h with
  | nil => simp
  | cons hs _ ih =>
    intro e he
    rcases List.mem_cons.1 he with rfl | he
    · exact hs.credit hfill
    · exact ih e he

/-- From the first token spent on, the tokens spent and those left are within the cap, one token
and the credit of `n` steps. -/
theorem Run.spent_add (hfill : 0 ≤ fill) (h : Run cap fill t es t') :
    ∀ {n u : Nat}, u = 0 ∨ u + t ≤ cap + 1 + fill * n →
      u + spent es = 0 ∨ (u + spent es : Nat) + t' ≤ cap + 1 + fill * (n + es.length : Nat) := by
  induction h with
  | nil => intro n u hu; simpa using hu
  | @cons t t₁ t₂ e c es hs _ ih =>
    intro n u hu
    have hn : (0 : K) ≤ fill * n := mul_nonneg hfill (Nat.cast_nonneg n)
    have hrest := ih (n := n + 1) (u := u + if e = .spend then 1 else 0) ?_
    · rw [spent_cons, List.length_cons, ← Nat.add_assoc, show n + (es.length + 1) = n + 1 + es.length by omega]
      exact hrest
    · by_cases he : e = .spend
      · subst he
        obtain ⟨hcap, hless⟩ := hs.spend_le
        right
        simp only [if_true]; push_cast
        -- the first token spent cuts the bucket down to the cap
        rcases hu with rfl | hu
        · push_cast; linarith
        · linarith
      · have hmore := hs.le_add hfill he
        simp only [he, if_false, Nat.add_zero]
        refine hu.imp id fun hu => ?_
        push_cast; linarith

/-- However full the bucket is at first, `n` steps spend at most the cap, one token and the
credit of `n` steps. -/
theorem Run.spent_le (hcap : 0 ≤ cap) (hfill : 0 ≤ fill) (h : Run cap fill t es t') (ht : 0 ≤ t) :
    (spent es : K) ≤ cap + 1 + fill * es.length := by
  have ht' := h.nonneg hcap hfill ht
  have hn : (0 : K) ≤ fill * es.length := mul_nonneg hfill (Nat.cast_nonneg _)
  rcases h.spent_add hfill (n := 0) (u := 0) (Or.inl rfl) with h0 | h0
  · rw [show spent es = 0 by omega]; push_cast; linarith
  · simp only [Nat.zero_add] at h0; linarith

/-- From a bucket within the cap, while every step spends or is refused, nothing is cut off: the
tokens left are those there were plus the credit minus the tokens spent. -/
theorem Run.balance (hcap : 1 ≤ cap) (hfill : fill ≤ 1) (h : Run cap fill t es t') (ht : t ≤ cap)
    (hes : ∀ e ∈ es, e.1 = .spend ∨ e.1 = .refuse) : t' + spent es = t + earned es ∧ t' ≤ cap := by
  induction h with
  | nil => simpa using ht
  | @cons t t₁ t₂ e c es hs _ ih =>
    have hstep : t₁ = t + c - (if e = .spend then 1 else 0) ∧ t₁ ≤ cap := by
      have he := hes (e, c) (List.mem_cons_self ..)
      cases hs with
      | idle => simp at he
      | pass => simp at he
      | earn => simp at he
      | refuse _ _ _ few => rw [min_eq_right (by linarith)]; exact ⟨by simp, by linarith⟩
      | spend _ _ le _ => rw [min_eq_right (by linarith)]; exact ⟨by simp, by linarith⟩
    obtain ⟨hrest, hle⟩ := ih hstep.2 (fun e he => hes e (List.mem_cons_of_mem _ he))
    refine ⟨?_, hle⟩
    rw [spent_cons, earned_cons]
    push_cast
    linarith [hstep.1]

/-- Within a bucket's cap the tokens spent differ from the credit earned by at most the cap. -/
theorem Run.abs_spent_sub_earned (hcap : 1 ≤ cap) (h0 : 0 ≤ fill) (hfill : fill ≤ 1) (h : Run cap fill t es t')
    (ht0 : 0 ≤ t) (ht : t ≤ cap) (hes : ∀ e ∈ es, e.1 = .spend ∨ e.1 = .refuse) :
    |spent es - earned es| ≤ cap := by
  have ht' := h.nonneg (by linarith) h0 ht0
  obtain ⟨hbal, hle⟩ := h.balance hcap hfill ht hes
  rw [abs_le]
  constructor <;> linarith

end

end TokenBucket
