/-
Lines that may lose items and change them a little. What leaves such a line is, item by item, part of what
went in: in the same order, each so much later at least, and the same but for what the line may rewrite.
Lines in a row add up, whatever each of them loses.
-/
import Mathlib.Tactic

namespace LossyLine

/-! ## Part of a list, item by item -/

section

variable {α β γ : Type} {R : α → β → Prop}

open List

theorem part_append {a c : List α} {b d : List β} (h : SublistForall₂ R a b) (h' : SublistForall₂ R c d) :
    SublistForall₂ R (a ++ c) (b ++ d) := by
  rw [sublistForall₂_iff] at h h' ⊢
  obtain ⟨l, hl, hsub⟩ := h
  obtain ⟨l', hl', hsub'⟩ := h'
  exact ⟨l ++ l', rel_append hl hl', hsub.append hsub'⟩

theorem part_of_forall₂ {a : List α} {b : List β} (h : Forall₂ R a b) : SublistForall₂ R a b :=
  sublistForall₂_iff.2 ⟨b, h, Sublist.refl b⟩

theorem part_of_sublist : ∀ {a' a : List α} {l : List β}, a'.Sublist a → Forall₂ R a l → SublistForall₂ R a' l
  | _, _, _, .slnil, _ => .nil
  | _, _, _, .cons _ h, .cons _ hs => .cons_right (part_of_sublist h hs)
  | _, _, _, .cons_cons _ h, .cons hr hs => .cons hr (part_of_sublist h hs)

/-- Less of what came out, and more of what went in. -/
theorem part_mono {a a' : List α} {b b' : List β} (h : SublistForall₂ R a b) (ha : a'.Sublist a) (hb : b.Sublist b') :
    SublistForall₂ R a' b' := by
  obtain ⟨l, hl, hsub⟩ := sublistForall₂_iff.1 h
  obtain ⟨l', hl', hsub'⟩ := sublistForall₂_iff.1 (part_of_sublist ha hl)
  exact sublistForall₂_iff.2 ⟨l', hl', hsub'.trans (hsub.trans hb)⟩

theorem part_imp {S : α → β → Prop} (hRS : ∀ a b, R a b → S a b) : ∀ {a : List α} {b : List β}, SublistForall₂ R a b →
    SublistForall₂ S a b
  | _, _, .nil => .nil
  | _, _, .cons h hs => .cons (hRS _ _ h) (part_imp hRS hs)
  | _, _, .cons_right hs => .cons_right (part_imp hRS hs)

theorem part_trans {S : β → γ → Prop} {U : α → γ → Prop} (htrans : ∀ a b c, R a b → S b c → U a c) :
    ∀ {a : List α} {b : List β} {c : List γ}, SublistForall₂ R a b → SublistForall₂ S b c → SublistForall₂ U a c
  | _, _, _, .nil, _ => .nil
  | _, _, _, h, .cons_right h' => .cons_right (part_trans htrans h h')
  | _, _, _, .cons hr h, .cons hs h' => .cons (htrans _ _ _ hr hs) (part_trans htrans h h')
  | _, _, _, .cons_right h, .cons _ h' => .cons_right (part_trans htrans h h')

theorem part_refl {R : α → α → Prop} (hrefl : ∀ a, R a a) (l : List α) : SublistForall₂ R l l :=
  part_of_forall₂ (forall₂_same.2 fun a _ => hrefl a)

theorem part_mem : ∀ {a : List α} {b : List β}, SublistForall₂ R a b → ∀ x ∈ a, ∃ y ∈ b, R x y
  | _, _, .nil, x, hx => absurd hx not_mem_nil
  | _, _, .cons hr h, x, hx => by
    rcases mem_cons.1 hx with rfl | hx
    · exact ⟨_, mem_cons_self .., hr⟩
    · obtain ⟨y, hy, hxy⟩ := part_mem h x hx
      exact ⟨y, mem_cons_of_mem _ hy, hxy⟩
  | _, _, .cons_right h, x, hx => by
    obtain ⟨y, hy, hxy⟩ := part_mem h x hx
    exact ⟨y, mem_cons_of_mem _ hy, hxy⟩

theorem part_length {a : List α} {b : List β} (h : SublistForall₂ R a b) : a.length ≤ b.length := by
  obtain ⟨l, hl, hsub⟩ := sublistForall₂_iff.1 h
  rw [hl.length_eq]
  exact hsub.length_le

end

/-! ## Lines -/

section

variable {T α : Type} [AddCommMonoid T] [Preorder T] {same : α → α → Prop}

/-- The item again, later by `d` at least, and changed no more than it may be. -/
def After (same : α → α → Prop) (d : T) (o i : T × α) : Prop := same i.2 o.2 ∧ i.1 + d ≤ o.1

/-- What came out is part of what went in. -/
def Through (same : α → α → Prop) (d : T) (outs ins : List (T × α)) : Prop := List.SublistForall₂ (After same d) outs ins

theorem through_refl (hrefl : ∀ a, same a a) (l : List (T × α)) : Through same 0 l l :=
  part_refl (fun i => ⟨hrefl i.2, le_of_eq (add_zero i.1)⟩) l

theorem Through.imp {same' : α → α → Prop} (hsame : ∀ a b, same a b → same' a b) {d : T} {outs ins : List (T × α)}
    (h : Through same d outs ins) : Through same' d outs ins :=
  part_imp (fun _ _ hoi => ⟨hsame _ _ hoi.1, hoi.2⟩) h

/-- Two lines, one behind the other, each with what it may rewrite. -/
theorem Through.comp [IsOrderedAddMonoid T] {same' : α → α → Prop} {d d' : T} {l₁ l₂ l₃ : List (T × α)}
    (h : Through same' d' l₃ l₂) (h' : Through same d l₂ l₁) : Through (Relation.Comp same same') (d + d') l₃ l₁ := by
  refine part_trans (fun o m i hom hmi => ⟨⟨m.2, hmi.1, hom.1⟩, ?_⟩) h h'
  rw [← add_assoc]
  exact le_trans (add_le_add_left hmi.2 d') hom.2

/-- Two lines that rewrite no more together than one of them. -/
theorem Through.trans [IsOrderedAddMonoid T] (htrans : ∀ a b c, same a b → same b c → same a c) {d d' : T}
    {l₁ l₂ l₃ : List (T × α)} (h : Through same d' l₃ l₂) (h' : Through same d l₂ l₁) : Through same (d + d') l₃ l₁ := by
  apply (h.comp h').imp
  rintro a c ⟨b, hab, hbc⟩
  exact htrans a b c hab hbc

/-- The times of another clock, which is so much ahead. -/
def ahead (origin : T) (l : List (T × α)) : List (T × α) := l.map fun i => (origin + i.1, i.2)

theorem Through.ahead [IsOrderedAddMonoid T] {d : T} {outs ins : List (T × α)} (h : Through same d outs ins) (origin : T) :
    Through same d (ahead origin outs) (ahead origin ins) := by
  unfold LossyLine.ahead
  refine List.sublistForall₂_map_left_iff.2 (List.sublistForall₂_map_right_iff.2 (part_imp (fun o i hoi => ⟨hoi.1, ?_⟩) h))
  dsimp only
  rw [add_assoc]
  exact add_le_add_right hoi.2 origin

theorem Through.append {d : T} {a b c e : List (T × α)} (h : Through same d a b) (h' : Through same d c e) :
    Through same d (a ++ c) (b ++ e) := part_append h h'

theorem Through.mono {d : T} {a a' b b' : List (T × α)} (h : Through same d a b) (ha : a'.Sublist a) (hb : b.Sublist b') :
    Through same d a' b' := part_mono h ha hb

/-- The order is kept. -/
theorem Through.payload {d : T} {outs ins : List (T × α)} (h : Through same d outs ins) :
    List.SublistForall₂ (fun o i => same i o) (outs.map Prod.snd) (ins.map Prod.snd) := by
  rw [List.sublistForall₂_map_left_iff, List.sublistForall₂_map_right_iff]
  exact part_imp (fun _ _ h => h.1) h

/-- The item with the time before which it does not leave. -/
def due (d : T) (i : T × α) : T × α := (i.1 + d, i.2)

end

end LossyLine
