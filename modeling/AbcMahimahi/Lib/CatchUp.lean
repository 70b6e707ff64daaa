/-
A system that catches up with a clock: its next event is due at some time, and while that is not
after `now` it takes a turn. A turn does not look at `now`, so catching up in two stages is catching
up in one. Two systems that take related turns as long as the events they meet are right for it catch up
in lockstep.

Where the events have a clock of their own that every turn moves on in the same way, a system that
catches up never sees the same clock twice, so it takes no more turns than there are clocks.
-/
import Mathlib.Tactic

namespace CatchUp

section

variable {ε σ ο : Type} (due : σ → Except ε Nat) (turn : σ → Except ε (ο × σ))

/-- Turns taken at events that were due by `now`, and what they put out. -/
inductive Turns (now : Nat) : σ → List ο → σ → Prop
  | nil (s : σ) : Turns now s [] s
  | cons {s s' s'' : σ} {t : Nat} {o : ο} {os : List ο} (hdue : due s = .ok t) (hle : t ≤ now)
      (hturn : turn s = .ok (o, s')) (hrest : Turns now s' os s'') : Turns now s (o :: os) s''

/-- The turns up to the first event that is due after `now`. -/
structure Done (now : Nat) (s : σ) (os : List ο) (s' : σ) : Prop where
  turns : Turns due turn now s os s'
  later : ∃ t, due s' = .ok t ∧ now < t

variable {due turn} {now t₁ t₂ : Nat} {s s' s'' : σ} {os ps : List ο}

theorem Turns.mono (h : Turns due turn t₁ s os s') (hle : t₁ ≤ t₂) : Turns due turn t₂ s os s' := by
  induction h with
  | nil s => exact .nil s
  | cons hdue ht hturn _ ih => exact .cons hdue (ht.trans hle) hturn ih

theorem Turns.append (h : Turns due turn now s os s') (h' : Turns due turn now s' ps s'') :
    Turns due turn now s (os ++ ps) s'' := by
  induction h with
  | nil s => exact h'
  | cons hdue ht hturn _ ih => exact .cons hdue ht hturn (ih h')

/-- Caught up with `t₂` is caught up with any earlier `t₁` first. -/
theorem Done.split (h : Done due turn t₂ s os s'') (hle : t₁ ≤ t₂) :
    ∃ os₁ s' os₂, Done due turn t₁ s os₁ s' ∧ Done due turn t₂ s' os₂ s'' ∧ os = os₁ ++ os₂ := by
  obtain ⟨hturns, hlater⟩ := h
  induction hturns with
  | nil s =>
    obtain ⟨t, hdue, hlt⟩ := hlater
    exact ⟨[], s, [], ⟨.nil s, t, hdue, hle.trans_lt hlt⟩, ⟨.nil s, t, hdue, hlt⟩, rfl⟩
  | @cons s s₁ s₂ t o os hdue ht hturn hrest ih =>
    rcases Nat.lt_or_ge t₁ t with hlt | hge
    · -- the stage ends before this event
      exact ⟨[], s, o :: os, ⟨.nil s, t, hdue, hlt⟩, ⟨.cons hdue ht hturn hrest, hlater⟩, rfl⟩
    · obtain ⟨os₁, s', os₂, h₁, h₂, rfl⟩ := ih hlater
      exact ⟨o :: os₁, s', os₂, ⟨.cons hdue hge hturn h₁.turns, h₁.later⟩, h₂, rfl⟩

theorem Done.join (h : Done due turn t₁ s os s') (h' : Done due turn t₂ s' ps s'') (hle : t₁ ≤ t₂) :
    Done due turn t₂ s (os ++ ps) s'' :=
  ⟨(h.turns.mono hle).append h'.turns, h'.later⟩

/-- Where a system is when it has caught up is determined. -/
theorem Done.unique {os' : List ο} {r r' : σ} (h : Done due turn now s os r) (h' : Done due turn now s os' r') : r = r' := by
  obtain ⟨hturns, hlater⟩ := h
  induction hturns generalizing os' with
  | nil s =>
    obtain ⟨t, hdue, hlt⟩ := hlater
    cases h'.turns with
    | nil => rfl
    | cons hdue' hle _ _ => rw [hdue] at hdue'; cases hdue'; omega
  | @cons s s₁ s₂ t o os hdue hle hturn _ ih =>
    obtain ⟨hturns', hlater'⟩ := h'
    cases hturns' with
    | nil =>
      obtain ⟨t', hdue', hlt⟩ := hlater'
      rw [hdue] at hdue'; cases hdue'; omega
    | cons hdue' hle' hturn' hrest =>
      rw [hturn] at hturn'
      cases hturn'
      exact ih ⟨hrest, hlater'⟩ hlater

/-- Turns up to a later time are turns up to an earlier one, or go on from where the system has caught up with that. -/
theorem Turns.split (t₁ : Nat) (h : Turns due turn t₂ s os s'') :
    Turns due turn t₁ s os s'' ∨ ∃ os₁ s' os₂, Done due turn t₁ s os₁ s' ∧ Turns due turn t₂ s' os₂ s'' := by
  induction h with
  | nil s => exact Or.inl (.nil s)
  | @cons s s₁ s₂ t o os hdue ht hturn hrest ih =>
    rcases Nat.lt_or_ge t₁ t with hlt | hge
    · exact Or.inr ⟨[], s, o :: os, ⟨.nil s, t, hdue, hlt⟩, .cons hdue ht hturn hrest⟩
    · rcases ih with h | ⟨os₁, s', os₂, h₁, h₂⟩
      · exact Or.inl (.cons hdue hge hturn h)
      · exact Or.inr ⟨o :: os₁, s', os₂, ⟨.cons hdue hge hturn h₁.turns, h₁.later⟩, h₂⟩

/-! ## A condition on the events met -/

/-- Every event that the system comes to by `now` meets the condition. -/
def Always (due : σ → Except ε Nat) (turn : σ → Except ε (ο × σ)) (P : σ → Nat → Prop) (now : Nat) (s : σ) : Prop :=
  ∀ os r t, Turns due turn now s os r → due r = .ok t → t ≤ now → P r t

variable {P : σ → Nat → Prop}

theorem Always.next {o : ο} {t : Nat} (h : Always due turn P now s) (hdue : due s = .ok t) (hle : t ≤ now)
    (hturn : turn s = .ok (o, s')) : Always due turn P now s' :=
  fun _ r _ hr => h _ r _ (.cons hdue hle hturn hr)

theorem Always.join (h : Always due turn P t₁ s) (hrest : ∀ os s', Done due turn t₁ s os s' → Always due turn P t₂ s') :
    Always due turn P t₂ s := by
  intro os r t hturns hdue ht
  rcases Nat.lt_or_ge t₁ t with hlt | hge
  · rcases hturns.split t₁ with hturns | ⟨os₁, s', os₂, hdone, hturns⟩
    · exact hrest os r ⟨hturns, t, hdue, hlt⟩ [] r t (.nil r) hdue ht
    · exact hrest os₁ s' hdone os₂ r t hturns hdue ht
  · rcases hturns.split t₁ with hturns | ⟨os₁, s', os₂, hdone, hturns⟩
    · exact h os r t hturns hdue hge
    · exact hrest os₁ s' hdone os₂ r t hturns hdue ht

/-- A computation of it, for that many turns at most. -/
def alwaysCheck (due : σ → Except ε Nat) (turn : σ → Except ε (ο × σ)) (P : σ → Nat → Prop)
    [∀ s t, Decidable (P s t)] (now : Nat) : Nat → σ → Bool
  | 0, _ => false
  | turns + 1, s =>
    match due s with
    | .error _ => true
    | .ok t =>
      if now < t then true
      else decide (P s t) &&
        match turn s with
        | .error _ => true
        | .ok (_, s') => alwaysCheck due turn P now turns s'

theorem always_of_check [∀ s t, Decidable (P s t)] : ∀ {turns : Nat} {s : σ}, alwaysCheck due turn P now turns s = true →
    Always due turn P now s
  | 0, _, h => by cases h
  | turns + 1, s, h => by
    intro os r t hturns hdue hle
    cases hturns with
    | nil =>
      rw [alwaysCheck, hdue] at h
      dsimp only at h
      rw [if_neg (Nat.not_lt_of_le hle), Bool.and_eq_true] at h
      exact of_decide_eq_true h.1
    | cons hdue' hle' hturn hrest =>
      rw [alwaysCheck, hdue'] at h
      dsimp only at h
      rw [if_neg (Nat.not_lt_of_le hle'), hturn, Bool.and_eq_true] at h
      exact always_of_check h.2 _ r t hrest hdue hle

/-! ## Lockstep -/

/-- In related states the same is due, and where both meet the condition a turn of the one is a turn of the other. -/
structure Lockstep (due : σ → Except ε Nat) (turn : σ → Except ε (ο × σ)) (P : σ → Nat → Prop) (R : σ → σ → Prop)
    (O : ο → ο → Prop) : Prop where
  ready : ∀ {s r}, R s r → due r = due s
  step : ∀ {s r t o s'}, R s r → due s = .ok t → P s t → P r t → turn s = .ok (o, s') →
    ∃ o' r', turn r = .ok (o', r') ∧ O o o' ∧ R s' r'

theorem Lockstep.done {R : σ → σ → Prop} {O : ο → ο → Prop} (hlock : Lockstep due turn P R O) {r : σ}
    (h : Done due turn now s os s') (hR : R s r) (hs : Always due turn P now s) (hr : Always due turn P now r) :
    ∃ os' r', Done due turn now r os' r' ∧ List.Forall₂ O os os' ∧ R s' r' := by
  obtain ⟨hturns, hlater⟩ := h
  induction hturns generalizing r with
  | nil s =>
    obtain ⟨t, hdue, hlt⟩ := hlater
    exact ⟨[], r, ⟨.nil r, t, (hlock.ready hR).trans hdue, hlt⟩, .nil, hR⟩
  | @cons s s₁ s₂ t o os hdue hle hturn _ ih =>
    have hdue' := (hlock.ready hR).trans hdue
    obtain ⟨o', r₁, hturn', hO, hR₁⟩ := hlock.step hR hdue (hs [] s t (.nil s) hdue hle) (hr [] r t (.nil r) hdue' hle) hturn
    obtain ⟨os', r', hdone, hOs, hR'⟩ := ih hR₁ (hs.next hdue hle hturn) (hr.next hdue' hle hturn') hlater
    exact ⟨o' :: os', r', ⟨.cons hdue' hle hturn' hdone.turns, hdone.later⟩, .cons hO hOs, hR'⟩

/-! ## Systems with a clock of their own -/

/-- The due times are read off a clock that every turn moves on in the same way. -/
structure Ticks {κ : Type} (due : σ → Except ε Nat) (turn : σ → Except ε (ο × σ)) (clock : σ → κ) (time : κ → Nat)
    (tick : κ → κ) : Prop where
  due : ∀ s t, due s = .ok t → time (clock s) = t
  turn : ∀ s o s', turn s = .ok (o, s') → clock s' = tick (clock s)

theorem Turns.orbit {κ : Type} {clock : σ → κ} {time : κ → Nat} {tick : κ → κ} (hticks : Ticks due turn clock time tick)
    (h : Turns due turn now s os s') :
    clock s' = tick^[os.length] (clock s) ∧ ∀ i < os.length, time (tick^[i] (clock s)) ≤ now := by
  induction h with
  | nil s => exact ⟨rfl, by simp⟩
  | @cons s s₁ s₂ t o os hdue hle hturn _ ih =>
    have hclock := hticks.turn s o s₁ hturn
    rw [hclock] at ih
    refine ⟨ih.1, fun i hi => ?_⟩
    cases i with
    | zero =>
      have htime := hticks.due s t hdue
      exact htime.trans_le hle
    | succ i =>
      simp only [List.length_cons] at hi
      exact ih.2 i (by omega)

end

section

variable {κ τ : Type} {time : κ → Nat} {tick : κ → κ} {now n : Nat} {k : κ}

/-- A clock that gets past `now` after `n` ticks has not come back to one of them on the way. -/
theorem orbit_injective (hbusy : ∀ i < n, time (tick^[i] k) ≤ now) (hidle : now < time (tick^[n] k)) {i j : Nat}
    (hij : i < j) (hj : j < n) : tick^[i] k ≠ tick^[j] k := by
  intro heq
  -- from the second visit on it would go the way it went from the first
  have hback : tick^[n] k = tick^[n - j + i] k := by
    rw [Function.iterate_add_apply, heq, ← Function.iterate_add_apply, Nat.sub_add_cancel hj.le]
  have hearly := hbusy (n - j + i) (by omega)
  rw [← hback] at hearly
  omega

/-- As many ticks at most as there are clocks, told apart by a key. -/
theorem orbit_le_card (key : κ → τ) (S : Finset τ) (hbusy : ∀ i < n, time (tick^[i] k) ≤ now)
    (hidle : now < time (tick^[n] k)) (hkey : ∀ i < n, key (tick^[i] k) ∈ S)
    (hinj : ∀ i j, i < n → j < n → key (tick^[i] k) = key (tick^[j] k) → tick^[i] k = tick^[j] k) : n ≤ S.card := by
  have hcard := Finset.card_le_card_of_injOn (s := Finset.range n) (t := S) (fun i => key (tick^[i] k))
    (fun i hi => hkey i (Finset.mem_range.1 hi)) (fun i hi j hj h => ?_)
  · rwa [Finset.card_range] at hcard
  · have hi := Finset.mem_range.1 hi
    have hj := Finset.mem_range.1 hj
    have heq := hinj i j hi hj h
    rcases Nat.lt_trichotomy i j with hlt | hsame | hlt
    · exact absurd heq (orbit_injective hbusy hidle hlt hj)
    · exact hsame
    · exact absurd heq.symm (orbit_injective hbusy hidle hlt hi)

end

end CatchUp
