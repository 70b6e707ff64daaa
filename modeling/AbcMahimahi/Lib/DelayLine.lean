/-
Lines that hold each item back for a time of their own. What leaves a line follows what went in: the same
items in the same order, each so much later at least. Lines in a row add up. A line is kept as the items
it has received, the ones it has sent and the queue in between, with the time at which each is due.
-/
import Mathlib.Algebra.Order.Monoid.Defs
import Mathlib.Data.List.Forall2

namespace DelayLine

variable {T α : Type} [AddCommMonoid T] [Preorder T]

/-! ## What follows what -/

/-- The item again, later by `d` at least. -/
def Later (d : T) (i o : T × α) : Prop := o.2 = i.2 ∧ i.1 + d ≤ o.1

/-- What comes out is what went in first, each item later by `d` at least. -/
def Follows (d : T) (ins outs : List (T × α)) : Prop :=
  ∃ gone, gone <+: ins ∧ List.Forall₂ (Later d) gone outs

theorem Follows.refl (l : List (T × α)) : Follows 0 l l :=
  ⟨l, List.prefix_refl l, List.forall₂_same.2 fun i _ => ⟨rfl, le_of_eq (add_zero i.1)⟩⟩

theorem later_trans [IsOrderedAddMonoid T] {d d' : T} : ∀ {l₁ l₂ l₃ : List (T × α)}, List.Forall₂ (Later d) l₁ l₂ → List.Forall₂ (Later d') l₂ l₃ →
    List.Forall₂ (Later (d + d')) l₁ l₃
  | [], _, _, .nil, .nil => .nil
  | i :: _, _, _, .cons h h₁, .cons h' h₂ => by
    refine .cons ⟨h'.1.trans h.1, ?_⟩ (later_trans h₁ h₂)
    rw [← add_assoc]
    exact le_trans (add_le_add_left h.2 d') h'.2

/-- Two lines, one behind the other. -/
theorem Follows.trans [IsOrderedAddMonoid T] {d d' : T} {l₁ l₂ l₃ : List (T × α)} (h : Follows d l₁ l₂) (h' : Follows d' l₂ l₃) :
    Follows (d + d') l₁ l₃ := by
  obtain ⟨gone, hfront, hgone⟩ := h
  obtain ⟨gone', ⟨rest, hrest⟩, hgone'⟩ := h'
  rw [← hrest] at hgone
  exact ⟨gone.take gone'.length, (List.take_prefix _ _).trans hfront,
    later_trans (List.forall₂_take_append _ _ _ hgone) hgone'⟩

theorem later_payload {d : T} : ∀ {gone outs : List (T × α)}, List.Forall₂ (Later d) gone outs →
    outs.map Prod.snd = gone.map Prod.snd
  | [], _, .nil => rfl
  | _ :: _, _, .cons h hs => congrArg₂ List.cons h.1 (later_payload hs)

/-- The order is kept, and nothing is changed. -/
theorem Follows.payload {d : T} {ins outs : List (T × α)} (h : Follows d ins outs) :
    outs.map Prod.snd <+: ins.map Prod.snd := by
  obtain ⟨gone, ⟨rest, rfl⟩, hgone⟩ := h
  rw [later_payload hgone, List.map_append]
  exact List.prefix_append _ _

/-- Each item is held back. -/
theorem Follows.times {d : T} {ins outs : List (T × α)} (h : Follows d ins outs) :
    List.Forall₂ (fun i o => i.1 + d ≤ o.1) (ins.take outs.length) outs := by
  obtain ⟨gone, ⟨rest, rfl⟩, hgone⟩ := h
  rw [← hgone.length_eq, List.take_left']
  · exact hgone.imp fun _ _ h => h.2
  · rfl

/-! ## One line -/

/-- The item with the time at which it is due. -/
def due (d : T) (i : T × α) : T × α := (i.1 + d, i.2)

/-- A line with its history: what it has received came in order, and what it has not sent yet is queued
up until it is due. -/
structure Holds (d : T) (received sent queue : List (T × α)) : Prop where
  split : ∃ gone waiting, received = gone ++ waiting ∧ List.Forall₂ (Later d) gone sent ∧ queue = waiting.map (due d)
  inOrder : received.Pairwise fun i j => i.1 ≤ j.1

variable {d : T} {received sent queue : List (T × α)}

theorem holds_nil (d : T) : Holds d ([] : List (T × α)) [] [] :=
  ⟨⟨[], [], rfl, .nil, rfl⟩, .nil⟩

theorem Holds.follows (h : Holds d received sent queue) : Follows d received sent := by
  obtain ⟨gone, waiting, hsplit, hgone, -⟩ := h.split
  exact ⟨gone, ⟨waiting, hsplit.symm⟩, hgone⟩

theorem Holds.receive (h : Holds d received sent queue) {i : T × α} (hi : ∀ j ∈ received, j.1 ≤ i.1) :
    Holds d (received ++ [i]) sent (queue ++ [due d i]) := by
  obtain ⟨gone, waiting, hsplit, hgone, hqueue⟩ := h.split
  refine ⟨⟨gone, waiting ++ [i], ?_, hgone, ?_⟩, ?_⟩
  · rw [hsplit, List.append_assoc]
  · rw [hqueue, List.map_append]
    rfl
  · refine List.pairwise_append.2 ⟨h.inOrder, List.pairwise_singleton .., ?_⟩
    rintro j hj k hk
    rw [List.mem_singleton.1 hk]
    exact hi j hj

theorem Holds.send {t now : T} {a : α} (h : Holds d received sent ((t, a) :: queue)) (hdue : t ≤ now) :
    Holds d received (sent ++ [(now, a)]) queue := by
  obtain ⟨gone, waiting, hsplit, hgone, hqueue⟩ := h.split
  obtain ⟨i, rest, rfl, hhead, hrest⟩ := List.map_eq_cons_iff.1 hqueue.symm
  rw [due, Prod.mk.injEq] at hhead
  refine ⟨⟨gone ++ [i], rest, ?_, ?_, hrest.symm⟩, h.inOrder⟩
  · rw [hsplit, List.append_assoc]
    rfl
  · refine List.rel_append hgone (.cons ⟨hhead.2.symm, ?_⟩ .nil)
    rw [hhead.1]
    exact hdue

/-- Only the head needs a look: no other item is due before it. -/
theorem Holds.sorted [IsOrderedAddMonoid T] (h : Holds d received sent queue) : queue.Pairwise fun p q => p.1 ≤ q.1 := by
  obtain ⟨gone, waiting, hsplit, -, rfl⟩ := h.split
  have horder := h.inOrder
  rw [hsplit] at horder
  refine List.pairwise_map.2 ((List.pairwise_append.1 horder).2.1.imp fun hij => ?_)
  exact add_le_add_left hij d

/-- An item was received before it is due. -/
theorem Holds.queued (h : Holds d received sent queue) {p : T × α} (hp : p ∈ queue) : ∃ i ∈ received, p = due d i := by
  obtain ⟨gone, waiting, hsplit, -, rfl⟩ := h.split
  obtain ⟨i, hi, rfl⟩ := List.mem_map.1 hp
  refine ⟨i, ?_, rfl⟩
  rw [hsplit]
  exact List.mem_append_right _ hi

end DelayLine
