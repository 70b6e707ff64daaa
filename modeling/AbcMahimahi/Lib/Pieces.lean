/-
A fallible consumer that is fed a stream in pieces. Two results agree when both fail or both succeed
with related states. When feeding one byte and then the rest of a piece agrees with feeding both at once, every
way to cut a stream agrees with feeding it byte by byte, so any two ways agree with each other. What is excepted
is looked for in each piece alone, so pieces can be too short for it where the stream is not.
-/
import AbcMahimahi.Lib.Run

namespace Pieces

variable {ε σ τ α : Type}

/-! ## Agreement -/

/-- Both fail, or both succeed with related results. -/
inductive Agree (R : σ → τ → Prop) : Except ε σ → Except ε τ → Prop
  | ok {s : σ} {t : τ} (h : R s t) : Agree R (.ok s) (.ok t)
  | error {e e' : ε} : Agree R (.error e) (.error e')

theorem Agree.refl {R : σ → σ → Prop} (hR : Equivalence R) : ∀ x : Except ε σ, Agree R x x
  | .ok s => .ok (hR.refl s)
  | .error _ => .error

theorem Agree.symm {R : σ → σ → Prop} (hR : Equivalence R) {x y : Except ε σ} (h : Agree R x y) :
    Agree R y x := by
  cases h with
  | ok h => exact .ok (hR.symm h)
  | error => exact .error

theorem Agree.trans {R : σ → σ → Prop} (hR : Equivalence R) {x y z : Except ε σ} (h : Agree R x y) (h' : Agree R y z) : Agree R x z := by
  cases h with
  | ok h =>
    cases h' with
    | ok h' => exact .ok (hR.trans h h')
  | error =>
    cases h' with
    | error => exact .error

theorem Agree.imp {R Q : σ → τ → Prop} {x : Except ε σ} {y : Except ε τ} (h : Agree R x y)
    (hRQ : ∀ s t, R s t → Q s t) : Agree Q x y := by
  cases h with
  | ok h => exact .ok (hRQ _ _ h)
  | error => exact .error

theorem Agree.bind {υ φ : Type} {R : σ → τ → Prop} {Q : υ → φ → Prop} {x : Except ε σ} {y : Except ε τ}
    {f : σ → Except ε υ} {g : τ → Except ε φ} (h : Agree R x y) (hfg : ∀ s t, R s t → Agree Q (f s) (g t)) :
    Agree Q (x >>= f) (y >>= g) := by
  cases h with
  | ok h => exact hfg _ _ h
  | error => exact .error

/-- The same computation, with what agrees after it. -/
theorem Agree.bind_same {υ : Type} {Q : τ → υ → Prop} {f : σ → Except ε τ} {g : σ → Except ε υ} (x : Except ε σ)
    (hfg : ∀ s, x = .ok s → Agree Q (f s) (g s)) : Agree Q (x >>= f) (x >>= g) := by
  cases x with
  | ok s => exact hfg s rfl
  | error e => exact .error

/-! ## Feeding -/

/-- Feed pieces one after another. -/
def feed (parse : σ → List α → Except ε σ) (s : σ) (pieces : List (List α)) : Except ε σ := pieces.foldlM parse s

theorem feed_cons (parse : σ → List α → Except ε σ) (s : σ) (x : List α) (pieces : List (List α)) :
    feed parse s (x :: pieces) = parse s x >>= fun s' => feed parse s' pieces := List.foldlM_cons

theorem feed_append (parse : σ → List α → Except ε σ) (s : σ) (pieces more : List (List α)) :
    feed parse s (pieces ++ more) = feed parse s pieces >>= fun s' => feed parse s' more := List.foldlM_append

/-- What every piece keeps. -/
theorem feed_keep {parse : σ → List α → Except ε σ} {I : σ → Prop} (h : ∀ s s' x, I s → parse s x = .ok s' → I s') :
    ∀ {pieces : List (List α)} {s s' : σ}, I s → feed parse s pieces = .ok s' → I s'
  | [], s, s', hI, hfeed => by
    cases hfeed
    exact hI
  | x :: pieces, s, s', hI, hfeed => by
    rw [feed_cons] at hfeed
    obtain ⟨s₁, hparse, hfeed⟩ := Run.bind_ok hfeed
    exact feed_keep h (h s s₁ x hI hparse) hfeed

/-- Feed a stream byte by byte. -/
def bytewise (parse : σ → List α → Except ε σ) (s : σ) (stream : List α) : Except ε σ :=
  feed parse s (stream.map fun b => [b])

theorem bytewise_cons (parse : σ → List α → Except ε σ) (s : σ) (b : α) (stream : List α) :
    bytewise parse s (b :: stream) = parse s [b] >>= fun s' => bytewise parse s' stream := feed_cons ..

theorem bytewise_append (parse : σ → List α → Except ε σ) (s : σ) (x y : List α) :
    bytewise parse s (x ++ y) = bytewise parse s x >>= fun s' => bytewise parse s' y := by
  unfold bytewise
  rw [List.map_append]
  exact feed_append ..

/-- A consumer for which one byte and then the rest agree with both at once, from the states `P`
that it reaches between pieces, unless it is about to meet what `Bad` says. -/
structure Incremental (parse : σ → List α → Except ε σ) (R : σ → σ → Prop) (P : σ → Prop)
    (Bad : σ → List α → Prop) : Prop where
  equiv : Equivalence R
  congr : ∀ {s t x}, R s t → Agree R (parse s x) (parse t x)
  keep : ∀ {s s' b}, P s → parse s [b] = .ok s' → P s'
  cons : ∀ {s b c y}, P s → ¬ Bad s (b :: c :: y) →
    Agree R (parse s (b :: c :: y)) (parse s [b] >>= fun s' => parse s' (c :: y))

/-- Fed byte by byte, the bytes never bring the consumer to what `Bad` says of those that are left. -/
def Avoids (parse : σ → List α → Except ε σ) (Bad : σ → List α → Prop) (s : σ) (stream : List α) : Prop :=
  ∀ u v s', stream = u ++ v → bytewise parse s u = .ok s' → ¬ Bad s' v

section

variable {parse : σ → List α → Except ε σ} {R : σ → σ → Prop} {P : σ → Prop} {Bad : σ → List α → Prop}

theorem Avoids.after {s s' : σ} {x y : List α} (h : Avoids parse Bad s (x ++ y)) (hx : bytewise parse s x = .ok s') :
    Avoids parse Bad s' y := by
  intro u v t huv hu
  refine h (x ++ u) v t (by rw [huv, List.append_assoc]) ?_
  rw [bytewise_append, hx]
  exact hu

theorem Incremental.keep_bytewise (h : Incremental parse R P Bad) : ∀ {x : List α} {s s' : σ}, P s →
    bytewise parse s x = .ok s' → P s'
  | [], s, s', hP, hx => by cases hx; exact hP
  | b :: x, s, s', hP, hx => by
    rw [bytewise_cons] at hx
    obtain ⟨s₁, h₁, hx⟩ := Run.bind_ok hx
    exact h.keep_bytewise (h.keep hP h₁) hx

/-- One piece agrees with its bytes. -/
theorem Incremental.piece (h : Incremental parse R P Bad) : ∀ {x : List α} {s : σ}, x ≠ [] → P s →
    Avoids parse Bad s x → Agree R (parse s x) (bytewise parse s x)
  | [], s, hne, _, _ => absurd rfl hne
  | [b], s, _, _, _ => by
    rw [bytewise_cons]
    show Agree R (parse s [b]) (parse s [b] >>= pure)
    rw [bind_pure]
    exact Agree.refl h.equiv _
  | b :: c :: y, s, _, hP, ha => by
    rw [bytewise_cons]
    refine Agree.trans h.equiv (h.cons hP (ha [] _ s rfl rfl)) (Agree.bind_same _ fun s' hs' => ?_)
    refine h.piece (List.cons_ne_nil c y) (h.keep hP hs') (Avoids.after (x := [b]) ha ?_)
    rw [bytewise_cons, hs']
    rfl

theorem Incremental.congr_bytewise (h : Incremental parse R P Bad) : ∀ {x : List α} {s t : σ}, R s t →
    Agree R (bytewise parse s x) (bytewise parse t x)
  | [], s, t, hR => .ok hR
  | b :: x, s, t, hR => by
    rw [bytewise_cons, bytewise_cons]
    exact (h.congr hR).bind fun _ _ hR' => h.congr_bytewise hR'

/-- Any pieces agree with their bytes. -/
theorem Incremental.feed_bytewise (h : Incremental parse R P Bad) : ∀ {pieces : List (List α)} {s t : σ},
    (∀ x ∈ pieces, x ≠ [] ∧ ∀ u, Avoids parse Bad u x) → R s t → P t →
    Agree R (feed parse s pieces) (bytewise parse t pieces.flatten)
  | [], s, t, _, hR, _ => .ok hR
  | x :: pieces, s, t, hpieces, hR, hP => by
    obtain ⟨hne, ha⟩ := hpieces x (List.mem_cons_self ..)
    rw [List.flatten_cons, feed_cons, bytewise_append]
    have hx := Agree.trans h.equiv (h.congr (x := x) hR) (h.piece hne hP (ha t))
    cases hb : bytewise parse t x with
    | error e =>
      rw [hb] at hx
      cases hs : parse s x with
      | error e' => exact .error
      | ok s' => rw [hs] at hx; cases hx
    | ok t' =>
      rw [hb] at hx
      cases hs : parse s x with
      | error e' => rw [hs] at hx; cases hx
      | ok s' =>
        rw [hs] at hx
        cases hx with
        | ok hR' => exact h.feed_bytewise (fun y hy => hpieces y (List.mem_cons_of_mem _ hy)) hR' (h.keep_bytewise hP hb)

/-- Any two ways to cut a stream agree. -/
theorem Incremental.feed_agree (h : Incremental parse R P Bad) {pieces pieces' : List (List α)} {s : σ}
    (hpieces : ∀ x ∈ pieces, x ≠ [] ∧ ∀ u, Avoids parse Bad u x) (hpieces' : ∀ x ∈ pieces', x ≠ [] ∧ ∀ u, Avoids parse Bad u x)
    (hP : P s) (hflat : pieces.flatten = pieces'.flatten) : Agree R (feed parse s pieces) (feed parse s pieces') := by
  have h₁ := h.feed_bytewise hpieces (h.equiv.refl s) hP
  have h₂ := h.feed_bytewise hpieces' (h.equiv.refl s) hP
  rw [← hflat] at h₂
  exact .trans h.equiv h₁ (.symm h.equiv h₂)

/-! ## A stream whose front is known byte by byte -/

theorem Incremental.congr_feed (h : Incremental parse R P Bad) : ∀ {pieces : List (List α)} {s t : σ}, R s t →
    Agree R (feed parse s pieces) (feed parse t pieces)
  | [], _, _, hR => .ok hR
  | x :: pieces, s, t, hR => by
    rw [feed_cons, feed_cons]
    exact (h.congr hR).bind fun _ _ hR' => h.congr_feed hR'

/-- What `Bad` says of the bytes to come shows at the first of them. -/
def FailsAtOnce (parse : σ → List α → Except ε σ) (P : σ → Prop) (Bad : σ → List α → Prop) : Prop :=
  ∀ s x, P s → Bad s x → ∃ b y e, x = b :: y ∧ parse s [b] = .error e

theorem Incremental.avoids_of_bytewise (h : Incremental parse R P Bad) (hbad : FailsAtOnce parse P Bad) {s s' : σ}
    {x : List α} (hP : P s) (hx : bytewise parse s x = .ok s') : Avoids parse Bad s x := by
  rintro u v t rfl hu hv
  rw [bytewise_append, hu, Run.ok_bind] at hx
  obtain ⟨b, y, e, rfl, he⟩ := hbad t v (h.keep_bytewise hP hu) hv
  rw [bytewise_cons, he] at hx
  cases hx

/-- A piece that begins with bytes the consumer takes one by one. -/
theorem Incremental.front_of_piece (h : Incremental parse R P Bad) (hbad : FailsAtOnce parse P Bad) {y : List α} (hy : y ≠ []) :
    ∀ {x : List α} {s s' : σ}, P s → bytewise parse s x = .ok s' → Agree R (parse s (x ++ y)) (parse s' y)
  | [], s, s', _, hx => by
    cases hx
    exact Agree.refl h.equiv _
  | b :: x, s, s', hP, hx => by
    rw [bytewise_cons] at hx
    obtain ⟨s₁, h₁, hx⟩ := Run.bind_ok hx
    have ih := h.front_of_piece hbad hy (h.keep hP h₁) hx
    obtain ⟨c, z, hz⟩ := List.exists_cons_of_ne_nil (List.append_ne_nil_of_right_ne_nil x hy)
    rw [List.cons_append]
    rw [hz] at ih ⊢
    have hsafe : ¬ Bad s (b :: c :: z) := by
      intro hb
      obtain ⟨b', y', e, heq, he⟩ := hbad s _ hP hb
      cases heq
      rw [h₁] at he
      cases he
    have hcons := h.cons hP hsafe
    rw [h₁, Run.ok_bind] at hcons
    exact hcons.trans h.equiv ih

/-- Pieces of a stream that begins with bytes the consumer takes one by one: what is left of them
agrees with the state after those bytes. -/
theorem Incremental.feed_after (h : Incremental parse R P Bad) (hbad : FailsAtOnce parse P Bad) {y : List α} :
    ∀ {pieces : List (List α)} {x : List α} {s s' t : σ}, (∀ p ∈ pieces, p ≠ []) → pieces.flatten = x ++ y → P s → R t s →
      bytewise parse s x = .ok s' →
      ∃ rest, (∀ p ∈ rest, p ≠ []) ∧ rest.flatten = y ∧ Agree R (feed parse t pieces) (feed parse s' rest)
  | [], x, s, s', t, _, hflat, _, hR, hx => by
    obtain ⟨rfl, rfl⟩ := List.append_eq_nil_iff.1 hflat.symm
    cases hx
    exact ⟨[], by simp, rfl, .ok hR⟩
  | p :: pieces, x, s, s', t, hne, hflat, hP, hR, hx => by
    rw [List.flatten_cons] at hflat
    rcases List.append_eq_append_iff.1 hflat with ⟨x', rfl, hrest⟩ | ⟨p', rfl, hrest⟩
    · -- the bytes go beyond the first piece
      rw [bytewise_append] at hx
      obtain ⟨s₁, h₁, hx⟩ := Run.bind_ok hx
      have hp := h.piece (hne p (List.mem_cons_self ..)) hP (h.avoids_of_bytewise hbad hP h₁)
      rw [h₁] at hp
      have hagree := Agree.trans h.equiv (h.congr (x := p) hR) hp
      cases ht : parse t p with
      | error e => rw [ht] at hagree; cases hagree
      | ok t₁ =>
        rw [ht] at hagree
        cases hagree with
        | ok hR₁ =>
          obtain ⟨rest, hrne, hrflat, hfeed⟩ := h.feed_after hbad (fun q hq => hne q (List.mem_cons_of_mem _ hq)) hrest
            (h.keep_bytewise hP h₁) hR₁ hx
          refine ⟨rest, hrne, hrflat, ?_⟩
          rw [feed_cons, ht]
          exact hfeed
    · by_cases hp' : p' = []
      · -- the bytes end with the first piece
        subst hp'
        rw [List.append_nil] at hne ⊢
        have hp := h.piece (hne x (List.mem_cons_self ..)) hP (h.avoids_of_bytewise hbad hP hx)
        rw [hx] at hp
        refine ⟨pieces, fun q hq => hne q (List.mem_cons_of_mem _ hq), hrest.symm, ?_⟩
        rw [feed_cons]
        have hagree := Agree.trans h.equiv (h.congr (x := x) hR) hp
        cases ht : parse t x with
        | error e => rw [ht] at hagree; cases hagree
        | ok t₁ =>
          rw [ht] at hagree
          cases hagree with
          | ok hR₁ => exact h.congr_feed hR₁
      · refine ⟨p' :: pieces, ?_, by rw [List.flatten_cons, hrest], ?_⟩
        · intro q hq
          rcases List.mem_cons.1 hq with rfl | hq
          · exact hp'
          · exact hne q (List.mem_cons_of_mem _ hq)
        · rw [feed_cons, feed_cons]
          have hp := Agree.trans h.equiv (h.congr (x := x ++ p') hR) (h.front_of_piece hbad hp' hP hx)
          exact hp.bind fun _ _ hR' => h.congr_feed hR'

end

end Pieces
