/-
A FIFO that may refuse or lose elements: an offered element is kept at the back or refused, a
take returns the head and may lose any number of elements right behind it. Over a whole run every
offered element has exactly one fate (returned, lost or still queued) and the returned ones
leave in the order they were offered.
-/
import AbcMahimahi.Lib.Run

namespace LossyFifo

section

variable {α : Type}

/-- One step on the queue: the element offered, the element returned, the queue after. -/
inductive Step : List α → Option α → Option α → List α → Prop where
  | keep (q : List α) (a : α) : Step q (some a) none (q ++ [a])
  | refuse (q : List α) (a : α) : Step q (some a) none q
  | take (a : α) (lost q : List α) : Step (a :: (lost ++ q)) none (some a) q
  | idle (q : List α) : Step q none none q

/-- What became of an offered element. -/
inductive Fate where
  | returned
  | lost
  | queued
  deriving DecidableEq, Repr

/-- The elements with one fate, in the order they were offered. -/
def withFate (f : Fate) (l : List (Fate × α)) : List α := (l.filter (·.1 = f)).map (·.2)

/-- Every offered element has exactly one fate: `ret` are the returned ones and `q` the queued
ones, each in the order of the offers. -/
def Conserved (offered ret q : List α) : Prop :=
  ∃ l : List (Fate × α), l.map (·.2) = offered ∧ withFate .returned l = ret ∧ withFate .queued l = q

/-- The offers split in two: the returned elements are among the first ones, the queued elements
among the last. -/
def Split (offered ret q : List α) : Prop :=
  ∃ before after : List α, offered = before ++ after ∧ ret.Sublist before ∧ q.Sublist after

theorem Split.nil : Split ([] : List α) [] [] := ⟨[], [], rfl, List.Sublist.slnil, List.Sublist.slnil⟩

/-- One step keeps the split. -/
theorem Split.step {offered ret q q' : List α} {i o : Option α} (h : Split offered ret q) (hs : Step q i o q') :
    Split (offered ++ i.toList) (ret ++ o.toList) q' := by
  obtain ⟨before, after, rfl, hr, hq⟩ := h
  cases hs with
  | keep _ a =>
    refine ⟨before, after ++ [a], by simp, by simpa using hr, ?_⟩
    exact hq.append (List.Sublist.refl [a])
  | refuse _ a =>
    exact ⟨before, after ++ [a], by simp, by simpa using hr, hq.trans (List.sublist_append_left after [a])⟩
  | take a lost =>
    -- the head sits somewhere among the later offers: what stands before it is lost with it
    obtain ⟨r₁, r₂, rfl, ha, hrest⟩ := List.cons_sublist_iff.1 hq
    obtain ⟨pre, post, rfl⟩ := List.append_of_mem ha
    refine ⟨before ++ (pre ++ [a]), post ++ r₂, by simp, ?_, ?_⟩
    · simp only [Option.toList_some]
      exact hr.append ((List.nil_sublist pre).append (List.Sublist.refl [a]))
    · exact ((List.sublist_append_right lost q').trans hrest).trans (List.sublist_append_right post r₂)
  | idle => exact ⟨before, after, by simp, by simpa using hr, hq⟩

theorem withFate_append (f : Fate) (l m : List (Fate × α)) : withFate f (l ++ m) = withFate f l ++ withFate f m := by
  simp [withFate]

/-- Give one fate to the elements of a sublist and count the rest as lost. -/
theorem exists_fates (f : Fate) (hf : f ≠ .lost) {x y : List α} (h : x.Sublist y) :
    ∃ l : List (Fate × α), l.map (·.2) = y ∧ withFate f l = x ∧ ∀ g, g ≠ f → g ≠ .lost → withFate g l = [] := by
  induction h with
  | slnil => exact ⟨[], rfl, rfl, fun _ _ _ => rfl⟩
  | @cons x y a _ ih =>
    obtain ⟨l, h1, h2, h3⟩ := ih
    refine ⟨(.lost, a) :: l, by simp [h1], ?_, fun g hg hl => ?_⟩
    · rw [← h2]; simp [withFate, Ne.symm hf]
    · rw [← h3 g hg hl]; simp [withFate, Ne.symm hl]
  | @cons_cons x y a _ ih =>
    obtain ⟨l, h1, h2, h3⟩ := ih
    refine ⟨(f, a) :: l, by simp [h1], ?_, fun g hg hl => ?_⟩
    · rw [← h2]; simp [withFate]
    · rw [← h3 g hg hl]; simp [withFate, Ne.symm hg]

theorem Split.conserved {offered ret q : List α} (h : Split offered ret q) : Conserved offered ret q := by
  obtain ⟨before, after, rfl, hr, hq⟩ := h
  obtain ⟨l, l1, l2, l3⟩ := exists_fates .returned (by decide) hr
  obtain ⟨m, m1, m2, m3⟩ := exists_fates .queued (by decide) hq
  refine ⟨l ++ m, by rw [List.map_append, l1, m1], ?_, ?_⟩
  · rw [withFate_append, l2, m3 .returned (by decide) (by decide), List.append_nil]
  · rw [withFate_append, m2, l3 .queued (by decide) (by decide), List.nil_append]

/-- A machine whose every step is a step of the FIFO behind `queue` conserves what it is offered
over a whole run, and never fails. -/
theorem conserved_run {ε σ ι ο : Type} {step : σ → ι → Except ε (ο × σ)} {G : σ → ι → Prop} {P : σ → Prop}
    {queue : σ → List α} {offer : ι → Option α} {ret : ο → Option α}
    (hstep : ∀ s i, P s → G s i → ∃ o s', step s i = .ok (o, s') ∧ P s' ∧ Step (queue s) (offer i) (ret o) (queue s')) :
    ∀ {is : List ι} {s : σ} {offered returned : List α}, P s → Run.Along step G s is →
      Split offered returned (queue s) →
      ∃ os s', Run.steps step s is = .ok (os, s') ∧ P s' ∧
        Conserved (offered ++ is.filterMap offer) (returned ++ os.filterMap ret) (queue s')
  | [], s, offered, returned, hP, _, h => ⟨[], s, rfl, hP, by simpa using h.conserved⟩
  | i :: is, s, offered, returned, hP, hG, h => by
    obtain ⟨o, s₁, ho, hP₁, hs⟩ := hstep s i hP hG.1
    obtain ⟨os, s', hrest, hP', hc⟩ := conserved_run hstep hP₁ (hG.2 o s₁ ho) (h.step hs)
    refine ⟨o :: os, s', Run.steps_cons ho hrest, hP', ?_⟩
    have hcons : ∀ {β : Type} (f : β → Option α) (b : β) (bs : List β),
        (b :: bs).filterMap f = (f b).toList ++ bs.filterMap f := by
      intro β f b bs
      cases hb : f b <;> simp [hb]
    rw [hcons, hcons, ← List.append_assoc, ← List.append_assoc]
    exact hc

end

end LossyFifo
