/-
Runs of a fallible step function: feeding a list of inputs, the outputs in order and the last
state or the first fault. The rules of a run: how runs compose, an invariant kept by every step,
totality from an invariant, and a relation between the machine and a fold over its outputs (a
second machine fed by the first, a counter, a history). `Along` is a condition on the inputs
that may depend on the state each one meets.
-/
import Mathlib.Tactic

namespace Run

/-! ## Peeling fallible computations -/

theorem bind_ok {ε α β : Type} {x : Except ε α} {f : α → Except ε β} {b : β}
    (h : x >>= f = .ok b) : ∃ a, x = .ok a ∧ f a = .ok b := by
  cases x with
  | error e => cases h
  | ok a => exact ⟨a, rfl, h⟩

theorem bind_eq_ok {ε α β : Type} {x : Except ε α} {f : α → Except ε β} {a : α} {b : β} (h : x = .ok a)
    (hf : f a = .ok b) : x >>= f = .ok b := by
  rw [h]
  exact hf

theorem bind_error {ε α β : Type} {x : Except ε α} {f : α → Except ε β} {e : ε}
    (h : x >>= f = .error e) : x = .error e ∨ ∃ a, x = .ok a ∧ f a = .error e := by
  cases x with
  | error e' => cases h; exact Or.inl rfl
  | ok a => exact Or.inr ⟨a, rfl, h⟩

theorem bind_congr {ε α β : Type} {x : Except ε α} {f g : α → Except ε β} (h : ∀ a, x = .ok a → f a = g a) :
    x >>= f = x >>= g := by
  cases x with
  | error e => rfl
  | ok a => exact h a rfl

theorem map_eq_ok {ε α β : Type} {x : Except ε α} {f : α → β} {b : β}
    (h : f <$> x = .ok b) : ∃ a, x = .ok a ∧ f a = b := by
  cases x with
  | error e => cases h
  | ok a => cases h; exact ⟨a, rfl, rfl⟩

/-- What is computed from the value of a computation. -/
theorem value_of_map {ε α β : Type} {x : Except ε α} {a : α} (f : α → β) {b : β} (h : x = .ok a) (hf : x.map f = .ok b) :
    f a = b := by
  rw [h] at hf
  exact Except.ok.inj hf

theorem ok_of_isOk {ε α : Type} {x : Except ε α} (h : x.isOk = true) : ∃ a, x = .ok a := by
  cases x with
  | error e => cases h
  | ok a => exact ⟨a, rfl⟩

@[simp] theorem ok_bind {ε α β : Type} (a : α) (f : α → Except ε β) :
    ((Except.ok a : Except ε α) >>= f) = f a := rfl

@[simp] theorem error_bind {ε α β : Type} (e : ε) (f : α → Except ε β) :
    ((Except.error e : Except ε α) >>= f) = .error e := rfl

@[simp] theorem pure_ok {ε α : Type} (a : α) : (pure a : Except ε α) = .ok a := rfl

@[simp] theorem throw_error {ε α : Type} (e : ε) : (throw e : Except ε α) = .error e := rfl

@[simp] theorem map_ok {ε α β : Type} (a : α) (f : α → β) :
    (f <$> (Except.ok a : Except ε α)) = .ok (f a) := rfl

/-! ## What a computation throws -/

/-- Whatever the computation throws is in `B`. -/
def Throws {ε α : Type} (B : ε → Prop) (x : Except ε α) : Prop := ∀ e, x = .error e → B e

section

variable {ε α β : Type} {B C : ε → Prop} {x : Except ε α}

theorem throws_ok (a : α) : Throws B (Except.ok a) := fun _ he => (by cases he)

theorem throws_error {e : ε} (h : B e) : Throws B (Except.error e : Except ε α) := by
  intro e' he
  cases he
  exact h

theorem Throws.bind {f : α → Except ε β} (h : Throws B x) (hf : ∀ a, x = .ok a → Throws B (f a)) : Throws B (x >>= f) := by
  intro e he
  rcases bind_error he with hx | ⟨a, ha, hfa⟩
  · exact h e hx
  · exact hf a ha e hfa

theorem Throws.map (h : Throws B x) (f : α → β) : Throws B (f <$> x) := by
  cases x with
  | error e => exact throws_error (h e rfl)
  | ok a => exact throws_ok (f a)

theorem Throws.imp (h : Throws B x) (hBC : ∀ e, B e → C e) : Throws C x := fun e he => hBC e (h e he)

end

section

variable {ε σ ι ο τ : Type} (step : σ → ι → Except ε (ο × σ))

/-- Feed a list of inputs: the outputs in order and the last state, or the first fault. -/
def steps : σ → List ι → Except ε (List ο × σ)
  | s, [] => .ok ([], s)
  | s, i :: is => do
    let (o, s') ← step s i
    let (os, s'') ← steps s' is
    pure (o :: os, s'')

/-- A condition on each input and the state that meets it, along the run. -/
def Along (G : σ → ι → Prop) : σ → List ι → Prop
  | _, [] => True
  | s, i :: is => G s i ∧ ∀ o s', step s i = .ok (o, s') → Along G s' is

@[simp] theorem steps_nil (s : σ) : steps step s [] = .ok ([], s) := rfl

variable {step}

theorem steps_cons_ok {s : σ} {i : ι} {is : List ι} {os : List ο} {s'' : σ}
    (h : steps step s (i :: is) = .ok (os, s'')) :
    ∃ o s' os', step s i = .ok (o, s') ∧ steps step s' is = .ok (os', s'') ∧ os = o :: os' := by
  unfold steps at h
  obtain ⟨⟨o, s'⟩, h1, h⟩ := bind_ok h
  obtain ⟨⟨os', t⟩, h2, h⟩ := bind_ok h
  cases h
  exact ⟨o, s', os', h1, h2, rfl⟩

theorem steps_cons {s s' s'' : σ} {i : ι} {is : List ι} {o : ο} {os : List ο}
    (h1 : step s i = .ok (o, s')) (h2 : steps step s' is = .ok (os, s'')) :
    steps step s (i :: is) = .ok (o :: os, s'') := by
  unfold steps; rw [h1]; simp only [ok_bind]; rw [h2]; rfl

theorem steps_append {is js : List ι} : ∀ {s s' s'' : σ} {os ps : List ο},
    steps step s is = .ok (os, s') → steps step s' js = .ok (ps, s'') →
    steps step s (is ++ js) = .ok (os ++ ps, s'') := by
  induction is with
  | nil => intro s s' s'' os ps h1 h2; cases h1; exact h2
  | cons i is ih =>
    intro s s' s'' os ps h1 h2
    obtain ⟨o, t, os', ho, hrest, rfl⟩ := steps_cons_ok h1
    exact steps_cons ho (ih hrest h2)

/-- A condition that is computed for each input is computed for the run. -/
def alongCheck (step : σ → ι → Except ε (ο × σ)) (check : σ → ι → Bool) : σ → List ι → Bool
  | _, [] => true
  | s, i :: is => check s i &&
    match step s i with
    | .error _ => true
    | .ok (_, s') => alongCheck step check s' is

theorem along_of_check {G : σ → ι → Prop} {check : σ → ι → Bool} (hcheck : ∀ s i, check s i = true → G s i) :
    ∀ {is : List ι} {s : σ}, alongCheck step check s is = true → Along step G s is
  | [], _, _ => trivial
  | i :: is, s, h => by
    rw [alongCheck, Bool.and_eq_true] at h
    refine ⟨hcheck s i h.1, fun o s' hstep => ?_⟩
    have hrest := h.2
    rw [hstep] at hrest
    exact along_of_check hcheck hrest

/-! ## The invariant rules -/

/-- An invariant kept by every step whose input meets the condition is kept by a whole run. -/
theorem steps_inv {G : σ → ι → Prop} {P : σ → Prop}
    (hstep : ∀ s i o s', P s → G s i → step s i = .ok (o, s') → P s') {is : List ι} :
    ∀ {s s' : σ} {os : List ο}, P s → Along step G s is → steps step s is = .ok (os, s') → P s' := by
  induction is with
  | nil => intro s s' os hP _ h; cases h; exact hP
  | cons i is ih =>
    intro s s' os hP hG h
    obtain ⟨o, t, os', ho, hrest, rfl⟩ := steps_cons_ok h
    exact ih (hstep s i o t hP hG.1 ho) (hG.2 o t ho) hrest

/-- When every step from the invariant succeeds and keeps it, so does a whole run. -/
theorem steps_total {G : σ → ι → Prop} {P : σ → Prop}
    (hstep : ∀ s i, P s → G s i → ∃ o s', step s i = .ok (o, s') ∧ P s') {is : List ι} :
    ∀ {s : σ}, P s → Along step G s is → ∃ os s', steps step s is = .ok (os, s') ∧ P s' := by
  induction is with
  | nil => intro s hP _; exact ⟨[], s, rfl, hP⟩
  | cons i is ih =>
    intro s hP hG
    obtain ⟨o, s', ho, hP'⟩ := hstep s i hP hG.1
    obtain ⟨os, s'', hrest, hP''⟩ := ih hP' (hG.2 o s' ho)
    exact ⟨o :: os, s'', steps_cons ho hrest, hP''⟩

/-- A relation between the machine and a fold over its outputs, kept by every step, is kept by a
whole run: the fold may be a second machine that the first one feeds. -/
theorem steps_fold {G : σ → ι → Prop} {R : σ → τ → Prop} {f : τ → ο → τ}
    (hstep : ∀ s t i o s', R s t → G s i → step s i = .ok (o, s') → R s' (f t o)) {is : List ι} :
    ∀ {s s' : σ} {t : τ} {os : List ο}, R s t → Along step G s is → steps step s is = .ok (os, s') →
      R s' (os.foldl f t) := by
  induction is with
  | nil => intro s s' t os hR _ h; cases h; exact hR
  | cons i is ih =>
    intro s s' t os hR hG h
    obtain ⟨o, s₁, os', ho, hrest, rfl⟩ := steps_cons_ok h
    rw [List.foldl_cons]
    exact ih (hstep s t i o s₁ hR hG.1 ho) (hG.2 o s₁ ho) hrest

/-- Every output of a run satisfies what one step's output does from the invariant. -/
theorem steps_outputs {G : σ → ι → Prop} {P : σ → Prop} {Q : ο → Prop}
    (hstep : ∀ s i o s', P s → G s i → step s i = .ok (o, s') → P s' ∧ Q o) {is : List ι} :
    ∀ {s s' : σ} {os : List ο}, P s → Along step G s is → steps step s is = .ok (os, s') →
      ∀ o ∈ os, Q o := by
  induction is with
  | nil => intro s s' os _ _ h; cases h; simp
  | cons i is ih =>
    intro s s' os hP hG h o ho
    obtain ⟨o₁, t, os', h1, hrest, rfl⟩ := steps_cons_ok h
    obtain ⟨hP', hQ⟩ := hstep s i o₁ t hP hG.1 h1
    rcases List.mem_cons.1 ho with rfl | ho
    · exact hQ
    · exact ih hP' (hG.2 o₁ t h1) hrest o ho

/-- Where every step from the invariant can only fail in a certain way, so can a whole run. -/
theorem steps_error {G : σ → ι → Prop} {P : σ → Prop} {E : ε → Prop}
    (hstep : ∀ s i o s', P s → G s i → step s i = .ok (o, s') → P s')
    (hfail : ∀ s i e, P s → G s i → step s i = .error e → E e) {is : List ι} :
    ∀ {s : σ} {e : ε}, P s → Along step G s is → steps step s is = .error e → E e := by
  induction is with
  | nil => intro s e _ _ h; cases h
  | cons i is ih =>
    intro s e hP hG h
    unfold steps at h
    rcases ho : step s i with e' | ⟨o, s'⟩
    · rw [ho] at h
      cases h
      exact hfail s i e hP hG.1 ho
    · rw [ho] at h
      rcases hr : steps step s' is with e' | ⟨os, s''⟩
      · rw [ok_bind] at h
        dsimp only at h
        rw [hr] at h
        cases h
        exact ih (hstep s i o s' hP hG.1 ho) (hG.2 o s' ho) hr
      · rw [ok_bind] at h
        dsimp only at h
        rw [hr] at h
        cases h

/-- The potential rule: what a step adds to the potential is paid for by its output, so what a run
adds is paid for by all of them. -/
theorem steps_potential {G : σ → ι → Prop} {P : σ → Prop} {potential : σ → Nat} {paid : ο → Nat}
    (hstep : ∀ s i o s', P s → G s i → step s i = .ok (o, s') → P s' ∧ potential s' ≤ potential s + paid o) {is : List ι} :
    ∀ {s s' : σ} {os : List ο}, P s → Along step G s is → steps step s is = .ok (os, s') →
      potential s' ≤ potential s + (os.map paid).sum := by
  induction is with
  | nil => intro s s' os _ _ h; cases h; exact Nat.le_add_right _ _
  | cons i is ih =>
    intro s s' os hP hG h
    obtain ⟨o, t, os', ho, hrest, rfl⟩ := steps_cons_ok h
    obtain ⟨hP', hpaid⟩ := hstep s i o t hP hG.1 ho
    have hrun := ih hP' (hG.2 o t ho) hrest
    rw [List.map_cons, List.sum_cons]
    omega

/-- A step whose outputs are those of another, translated, has its runs, translated. -/
theorem steps_map {step' : σ → ι → Except ε (τ × σ)} {f : ο → τ}
    (hstep : ∀ s i, step' s i = (fun x => (f x.1, x.2)) <$> step s i) {is : List ι} :
    ∀ {s s' : σ} {os : List ο}, steps step s is = .ok (os, s') → steps step' s is = .ok (os.map f, s') := by
  induction is with
  | nil => intro s s' os h; cases h; rfl
  | cons i is ih =>
    intro s s' os h
    obtain ⟨o, t, os', ho, hrest, rfl⟩ := steps_cons_ok h
    exact steps_cons (by rw [hstep, ho]; rfl) (ih hrest)

/-! ## Conditions along a run -/

theorem along_of_forall {G : σ → ι → Prop} {is : List ι} (h : ∀ s, ∀ i ∈ is, G s i) :
    ∀ s, Along step G s is := by
  induction is with
  | nil => intro s; trivial
  | cons i is ih =>
    intro s
    exact ⟨h s i (List.mem_cons_self ..), fun _ s' _ => ih (fun t j hj => h t j (List.mem_cons_of_mem _ hj)) s'⟩

theorem along_mono {G H : σ → ι → Prop} (hGH : ∀ s i, G s i → H s i) {is : List ι} :
    ∀ {s : σ}, Along step G s is → Along step H s is := by
  induction is with
  | nil => intro s _; trivial
  | cons i is ih => intro s h; exact ⟨hGH s i h.1, fun o s' ho => ih (h.2 o s' ho)⟩

end

/-! ## Reachable states -/

section

variable {ε σ ι ο : Type} (step : σ → ι → Except ε (ο × σ)) (init : σ → Prop)

/-- A state at the end of some run from an initial state. -/
def Reachable (s : σ) : Prop := ∃ s₀ is os, init s₀ ∧ steps step s₀ is = .ok (os, s)

variable {step init}

theorem Reachable.start {s : σ} (h : init s) : Reachable step init s := ⟨s, [], [], h, rfl⟩

theorem Reachable.run {s s' : σ} {is : List ι} {os : List ο} (h : Reachable step init s)
    (hr : steps step s is = .ok (os, s')) : Reachable step init s' := by
  obtain ⟨s₀, js, ps, h0, hs⟩ := h
  exact ⟨s₀, js ++ is, ps ++ os, h0, steps_append hs hr⟩

theorem Reachable.inv {P : σ → Prop} (h0 : ∀ s, init s → P s)
    (hstep : ∀ s i o s', P s → step s i = .ok (o, s') → P s') {s : σ} (h : Reachable step init s) : P s := by
  obtain ⟨s₀, is, os, hi, hs⟩ := h
  exact steps_inv (G := fun _ _ => True) (fun s i o s' hP _ ho => hstep s i o s' hP ho) (h0 s₀ hi)
    (along_of_forall (fun _ _ _ => trivial) s₀) hs

end

end Run
