/-
`WEIGHTEDPacketQueue` loses and duplicates nothing after admission: whatever the draws and the
weights, a `dequeue` that finds a packet in either queue returns one, `queue1` and `queue2` each in
order, and the call that only records an unused opportunity in `queue2` pops nothing.

The packets of the two queues are told apart by their source port, which a mark does not touch, so
the whole history of returned packets splits into the two orders of admission.
-/
import AbcMahimahi.Packet.Conservation
import AbcMahimahi.Packet.Weighted

namespace AbcMahimahi.Packet

open Bytes DroppingPacketQueue CELLULARPacketQueue

/-! ## Enqueues that return -/

theorem dropTail_enqueue_ok {q q' : DroppingPacketQueue} {p : QueuedPacket} (h : Rep q) (hp : Sized p)
    (he : DropTailPacketQueue.enqueue q p = .ok q') : Enqueued q q' p := by
  unfold DropTailPacketQueue.enqueue DroppingPacketQueue.acceptIfGood at he
  obtain ⟨g, hg, he⟩ := Run.bind_ok he
  obtain ⟨b, hb, he⟩ := Run.bind_ok he
  obtain ⟨_, -, he⟩ := Run.bind_ok he
  cases he
  cases g with
  | true => exact enqueued_of_accept h hp hg hb
  | false => exact ⟨h, Or.inr rfl⟩

theorem cellular_enqueue_ok {q q' : CELLULARPacketQueue} {p : QueuedPacket} (h : Rep q.base) (hp : Sized p)
    (he : q.enqueue p = .ok q') : Enqueued q.base q'.base p := by
  unfold CELLULARPacketQueue.enqueue at he
  obtain ⟨g, hg, he⟩ := Run.bind_ok he
  cases g with
  | false => cases he; exact ⟨h, Or.inr rfl⟩
  | true =>
    obtain ⟨b, hb, he⟩ := Run.bind_ok he
    obtain ⟨_, -, he⟩ := Run.bind_ok he
    cases he
    exact enqueued_of_accept h hp hg hb

namespace WEIGHTEDPacketQueue

/-! ## The port of a packet -/

/-- Does the packet go to `queue1`? -/
def first (p : QueuedPacket) : Bool :=
  toQueue1 (parsePorts ((p.contents.drop 24).take 4)).1

theorem substr_eq {s : Bytes} (h : 28 ≤ s.length) : substr s 24 4 = some ((s.drop 24).take 4) := by
  unfold substr
  rw [if_pos (by omega)]

/-- A mark does not touch the ports. -/
theorem first_of_same {p p' : QueuedPacket} (h : SameButMark p p') : first p' = first p := by
  have hport : ∀ i, i < 4 → ((p'.contents.drop 24).take 4).getD i 0 = ((p.contents.drop 24).take 4).getD i 0 := by
    intro i hi
    rw [List.getD_eq_getElem?_getD, List.getD_eq_getElem?_getD, List.getElem?_take_of_lt hi, List.getElem?_take_of_lt hi,
      List.getElem?_drop, List.getElem?_drop, h.bytes (24 + i) (by omega) (by omega) (by omega)]
  unfold first parsePorts
  rw [hport 0 (by omega), hport 1 (by omega)]

/-! ## One call -/

/-- The counters of both queues are right, and the queue of the base class, which is never used,
meets its limits. -/
structure Rep (q : WEIGHTEDPacketQueue) : Prop where
  base : q.base.good = .ok true
  queue1 : DroppingPacketQueue.Rep q.queue1
  queue2 : DroppingPacketQueue.Rep q.queue2.base

/-- A packet is admitted to the back of its queue. -/
def Admitted (l₁ l₂ : List QueuedPacket) (p : QueuedPacket) (l₁' l₂' : List QueuedPacket) : Prop :=
  if first p then l₁' = l₁ ++ [p] ∧ l₂' = l₂ else l₁' = l₁ ∧ l₂' = l₂ ++ [p]

/-- An enqueue that returns has admitted the packet, or dropped it. -/
theorem enqueue_ok {q q' : WEIGHTEDPacketQueue} {p : QueuedPacket} {draw draw' : Nat} (h : Rep q) (hp : Sized p)
    (he : q.enqueue p draw draw' = .ok q') :
    Rep q' ∧ (Admitted q.queue1.internalQueue q.queue2.base.internalQueue p q'.queue1.internalQueue
        q'.queue2.base.internalQueue ∨
      q'.queue1.internalQueue = q.queue1.internalQueue ∧
        q'.queue2.base.internalQueue = q.queue2.base.internalQueue) := by
  unfold enqueue at he
  -- the ports are in the packet, so `substr` does not throw
  rw [substr_eq hp.low] at he
  obtain ⟨ports, hports, he⟩ := Run.bind_ok he
  cases hports
  obtain ⟨q₁, h₁, he⟩ := Run.bind_ok he
  obtain ⟨b, -, he⟩ := Run.bind_ok he
  obtain ⟨_, -, he⟩ := Run.bind_ok he
  cases he
  unfold Admitted
  split at h₁
  · rename_i hfirst
    have hfirst : first p = true := hfirst
    obtain ⟨queue1, hq, h₁⟩ := Run.bind_ok h₁
    cases h₁
    obtain ⟨hrep, hqueue⟩ := dropTail_enqueue_ok h.queue1 hp hq
    rw [if_pos hfirst]
    exact ⟨⟨h.base, hrep, h.queue2⟩, hqueue.imp (fun hq => ⟨hq, rfl⟩) (fun hq => ⟨hq, rfl⟩)⟩
  · rename_i hfirst
    have hfirst : ¬first p = true := hfirst
    obtain ⟨queue2, hq, h₁⟩ := Run.bind_ok h₁
    cases h₁
    obtain ⟨hrep, hqueue⟩ := cellular_enqueue_ok h.queue2 hp hq
    rw [if_neg hfirst]
    exact ⟨⟨h.base, h.queue1, hrep⟩, hqueue.imp (fun hq => ⟨rfl, hq⟩) (fun hq => ⟨rfl, hq⟩)⟩

/-- A packet is taken: the head of one of two queues, marked perhaps if it comes from the second. -/
inductive Took : List QueuedPacket → List QueuedPacket → QueuedPacket → List QueuedPacket → List QueuedPacket → Prop
  | queue1 (ret : QueuedPacket) (l₁ l₂ : List QueuedPacket) : Took (ret :: l₁) l₂ ret l₁ l₂
  | queue2 {p ret : QueuedPacket} (hmark : SameButMark p ret) (l₁ l₂ : List QueuedPacket) : Took l₁ (p :: l₂) ret l₁ l₂

/-- A `dequeue` returns a packet taken from one of the queues. -/
structure Takes (q : WEIGHTEDPacketQueue) (ret : QueuedPacket) (q' : WEIGHTEDPacketQueue) : Prop where
  rep : Rep q'
  took : Took q.queue1.internalQueue q.queue2.base.internalQueue ret q'.queue1.internalQueue q'.queue2.base.internalQueue

theorem dequeue1_spec {q : WEIGHTEDPacketQueue} (h : Rep q) (hne : q.queue1.empty = false) (below : Bool) (clock : Nat) :
    ∃ ret q', q.dequeue1 below clock = .ok (ret, q') ∧ Takes q ret q' := by
  obtain ⟨ret, rest, hq⟩ := cons_of_not_empty hne
  obtain ⟨queue1, hd, hrep, hrest⟩ := h.queue1.dequeue hq
  have htook : ∀ l₂, Took q.queue1.internalQueue l₂ ret queue1.internalQueue l₂ := by
    intro l₂
    rw [hq, hrest]
    exact .queue1 ret rest l₂
  unfold dequeue1
  rw [hd, Run.ok_bind]
  dsimp only
  split
  · -- `queue2` is empty, and the placeholder it returns is thrown away
    rename_i hidle
    have hempty : q.queue2.base.internalQueue = [] := by
      simp only [Bool.and_eq_true] at hidle
      simpa [DroppingPacketQueue.empty] using hidle.1
    obtain ⟨arbit, queue2, hd₂, hbase⟩ := CELLULARPacketQueue.dequeue_empty hempty clock
    rw [hd₂]
    refine ⟨ret, _, rfl, ⟨h.base, hrep, ?_⟩, ?_⟩
    · show DroppingPacketQueue.Rep queue2.base
      rw [hbase]
      exact h.queue2
    · show Took q.queue1.internalQueue q.queue2.base.internalQueue ret queue1.internalQueue queue2.base.internalQueue
      rw [hbase]
      exact htook _
  · exact ⟨ret, _, rfl, ⟨h.base, hrep, h.queue2⟩, htook _⟩

theorem dequeue2_spec {q : WEIGHTEDPacketQueue} (h : Rep q) (hne : q.queue2.base.empty = false) (clock : Nat) :
    ∃ ret q', q.dequeue2 clock = .ok (ret, q') ∧ Takes q ret q' := by
  obtain ⟨p, rest, hq⟩ := cons_of_not_empty hne
  obtain ⟨ret, queue2, hd, hmark, hrep, hrest⟩ := CELLULARPacketQueue.dequeue_spec h.queue2 hq clock
  unfold dequeue2
  rw [hd]
  refine ⟨ret, _, rfl, ⟨h.base, h.queue1, hrep⟩, ?_⟩
  show Took q.queue1.internalQueue q.queue2.base.internalQueue ret q.queue1.internalQueue queue2.base.internalQueue
  rw [hq, hrest]
  exact .queue2 hmark _ rest

/-- The branch taken has a packet. -/
theorem pick_spec {q : WEIGHTEDPacketQueue} (h : Rep q) (hne : q.empty = false) (clock draw : Nat) :
    ∃ ret q', q.pick clock draw = .ok (ret, q') ∧ Takes q ret q' := by
  unfold pick
  dsimp only
  generalize decide (((draw % 1000 : Nat) : ℚ) < q.weight * 1000) = below
  by_cases hfirst : (q.queue2.base.empty || (below && !q.queue1.empty)) = true
  · have hsome : q.queue1.empty = false := by
      unfold empty at hne
      cases h₁ : q.queue1.empty with
      | false => rfl
      | true =>
        rw [h₁, Bool.true_and] at hne
        rw [h₁, hne, Bool.not_true, Bool.and_false] at hfirst
        cases hfirst
    obtain ⟨ret, q', hd, hrep, htook⟩ := dequeue1_spec h hsome below clock
    rw [if_pos hfirst, hd]
    exact ⟨ret, _, rfl, ⟨hrep.base, hrep.queue1, hrep.queue2⟩, htook⟩
  · have hsome : q.queue2.base.empty = false := by
      cases h₂ : q.queue2.base.empty with
      | false => rfl
      | true => exact absurd (by rw [h₂]; rfl) hfirst
    obtain ⟨ret, q', hd, hrep, htook⟩ := dequeue2_spec h hsome clock
    rw [if_neg hfirst, hd]
    exact ⟨ret, _, rfl, ⟨hrep.base, hrep.queue1, hrep.queue2⟩, htook⟩

/-- Whatever the weight and the draw. -/
theorem dequeueAt_spec {q : WEIGHTEDPacketQueue} (h : Rep q) (hne : q.empty = false) (weight : ℚ) (clock draw : Nat) :
    ∃ ret q', q.dequeueAt weight clock draw = .ok (ret, q') ∧ Takes q ret q' := by
  have h₁ : Rep (q.decay.setWeight weight) := ⟨h.base, h.queue1, h.queue2⟩
  obtain ⟨ret, q', hd, hrep, htook⟩ := pick_spec h₁ hne clock draw
  refine ⟨ret, q', ?_, hrep, htook⟩
  unfold dequeueAt
  rw [hne, if_neg Bool.false_ne_true, hd]

/-- An empty queue asks `queue2` for its placeholder and keeps both queues. -/
theorem dequeueAt_empty {q : WEIGHTEDPacketQueue} (h : Rep q) (he : q.empty = true) (weight : ℚ) (clock draw : Nat) :
    ∃ ret q', q.dequeueAt weight clock draw = .ok (ret, q') ∧ Rep q' ∧ q'.queue1 = q.queue1 ∧
      q'.queue2.base = q.queue2.base := by
  have hempty : q.queue2.base.internalQueue = [] := by
    unfold empty at he
    rw [Bool.and_eq_true] at he
    exact List.isEmpty_iff.1 he.2
  obtain ⟨arbit, queue2, hd, hbase⟩ := CELLULARPacketQueue.dequeue_empty hempty clock
  unfold dequeueAt dequeue2
  rw [he, if_pos rfl, hd]
  refine ⟨arbit, _, rfl, ⟨h.base, h.queue1, ?_⟩, rfl, hbase⟩
  show DroppingPacketQueue.Rep queue2.base
  rw [hbase]
  exact h.queue2

/-! ## The history of a run -/

/-- The packet a call admitted. -/
def Outcome.admitted : Outcome → Option QueuedPacket
  | .offered p true => some p
  | _ => none

/-- The packet a `dequeue` returned when `empty()` was false. -/
def Outcome.taken : Outcome → Option QueuedPacket
  | .returned ret true => some ret
  | _ => none

/-- After a history of packets admitted and taken, each queue holds the packets admitted to it and not
taken yet, in order. -/
structure Orders (admitted taken l₁ l₂ : List QueuedPacket) : Prop where
  queue1 : admitted.filter first = taken.filter first ++ l₁
  queue2 : ∃ popped, admitted.filter (!first ·) = popped ++ l₂ ∧
    List.Forall₂ SameButMark popped (taken.filter (!first ·))

theorem Orders.admit {admitted taken l₁ l₂ l₁' l₂' : List QueuedPacket} {p : QueuedPacket} (h : Orders admitted taken l₁ l₂)
    (hp : Admitted l₁ l₂ p l₁' l₂') : Orders (admitted ++ [p]) taken l₁' l₂' := by
  obtain ⟨popped, hqueue2, hmarks⟩ := h.queue2
  unfold Admitted at hp
  cases hfirst : first p with
  | true =>
    rw [hfirst, if_pos rfl] at hp
    obtain ⟨rfl, rfl⟩ := hp
    refine ⟨?_, popped, ?_, hmarks⟩
    · rw [List.filter_append, h.queue1, List.append_assoc, List.filter_cons_of_pos hfirst, List.filter_nil]
    · rw [List.filter_append, hqueue2, List.filter_cons_of_neg (by simp [hfirst]), List.filter_nil, List.append_nil]
  | false =>
    rw [hfirst, if_neg Bool.false_ne_true] at hp
    obtain ⟨rfl, rfl⟩ := hp
    refine ⟨?_, popped, ?_, hmarks⟩
    · rw [List.filter_append, h.queue1, List.filter_cons_of_neg (by simp [hfirst]), List.filter_nil, List.append_nil]
    · rw [List.filter_append, hqueue2, List.append_assoc, List.filter_cons_of_pos (by simp [hfirst]), List.filter_nil]

theorem Orders.take {admitted taken l₁ l₂ l₁' l₂' : List QueuedPacket} {ret : QueuedPacket}
    (h : Orders admitted taken l₁ l₂) (ht : Took l₁ l₂ ret l₁' l₂') : Orders admitted (taken ++ [ret]) l₁' l₂' := by
  have hqueue1 := h.queue1
  obtain ⟨popped, hqueue2, hmarks⟩ := h.queue2
  cases ht with
  | queue1 =>
    have hmem : ret ∈ admitted.filter first := by
      rw [hqueue1]
      exact List.mem_append_right _ (List.mem_cons_self ..)
    have hfirst : first ret = true := (List.mem_filter.1 hmem).2
    refine ⟨?_, popped, hqueue2, ?_⟩
    · rw [hqueue1, List.filter_append, List.filter_cons_of_pos hfirst, List.filter_nil, List.append_assoc]; rfl
    · rw [List.filter_append, List.filter_cons_of_neg (by simp [hfirst]), List.filter_nil, List.append_nil]
      exact hmarks
  | @queue2 p ret hmark =>
    have hmem : p ∈ admitted.filter (!first ·) := by
      rw [hqueue2]
      exact List.mem_append_right _ (List.mem_cons_self ..)
    have hfirst : first ret = false := by
      rw [first_of_same hmark]
      simpa using (List.mem_filter.1 hmem).2
    refine ⟨?_, popped ++ [p], ?_, ?_⟩
    · rw [List.filter_append, List.filter_cons_of_neg (by simp [hfirst]), List.filter_nil, List.append_nil, hqueue1]
    · rw [hqueue2, List.append_assoc]; rfl
    · rw [List.filter_append, List.filter_cons_of_pos (by simp [hfirst]), List.filter_nil]
      exact List.rel_append hmarks (.cons hmark .nil)

/-- The invariant of a run. -/
structure Served (admitted taken : List QueuedPacket) (q : WEIGHTEDPacketQueue) : Prop where
  rep : Rep q
  orders : Orders admitted taken q.queue1.internalQueue q.queue2.base.internalQueue

/-- What a run offers: packets of a size that an `int` holds. -/
def Op.Sized : Op → Prop
  | .enqueue p _ _ => Packet.Sized p
  | .dequeue _ _ _ => True

theorem size_lt_of_admitted {q q' : WEIGHTEDPacketQueue} {p : QueuedPacket}
    (h : Admitted q.queue1.internalQueue q.queue2.base.internalQueue p q'.queue1.internalQueue
      q'.queue2.base.internalQueue) : q.size < q'.size := by
  unfold Admitted at h
  unfold size
  split at h <;> (rw [h.1, h.2]; simp)

theorem Served.step {admitted taken : List QueuedPacket} {q q' : WEIGHTEDPacketQueue} {op : Op} {out : Outcome}
    (h : Served admitted taken q) (hop : op.Sized) (hs : q.step op = .ok (out, q')) :
    Served (admitted ++ out.admitted.toList) (taken ++ out.taken.toList) q' := by
  cases op with
  | enqueue p draw draw' =>
    obtain ⟨q₁, he, hs⟩ := Run.bind_ok hs
    cases hs
    -- the packet is in one of the queues, or has been dropped
    obtain ⟨hrep, hadmitted | ⟨h₁, h₂⟩⟩ := enqueue_ok h.rep hop he
    · simp only [Outcome.admitted, Outcome.taken, size_lt_of_admitted hadmitted, decide_true, Option.toList_some,
        Option.toList_none, List.append_nil]
      exact ⟨hrep, h.orders.admit hadmitted⟩
    · have hsame : ¬q.size < q'.size := by
        unfold size
        rw [h₁, h₂]
        exact Nat.lt_irrefl _
      simp only [Outcome.admitted, Outcome.taken, hsame, decide_false, Option.toList_none, List.append_nil]
      exact ⟨hrep, by rw [h₁, h₂]; exact h.orders⟩
  | dequeue weight clock draw =>
    obtain ⟨⟨ret, q₁⟩, hd, hs⟩ := Run.bind_ok hs
    cases hs
    -- an empty queue returns a packet that nobody sent
    cases hempty : q.empty with
    | true =>
      obtain ⟨ret', q₂, hd', hrep, h₁, h₂⟩ := dequeueAt_empty h.rep hempty weight clock draw
      rw [hd'] at hd
      cases hd
      simp only [Outcome.admitted, Outcome.taken, Bool.not_true, Option.toList_none, List.append_nil]
      exact ⟨hrep, by rw [h₁, h₂]; exact h.orders⟩
    | false =>
      obtain ⟨ret', q₂, hd', hrep, htook⟩ := dequeueAt_spec h.rep hempty weight clock draw
      rw [hd'] at hd
      cases hd
      simp only [Outcome.admitted, Outcome.taken, Bool.not_false, Option.toList_none, Option.toList_some, List.append_nil]
      exact ⟨hrep, h.orders.take htook⟩

theorem Served.run : ∀ {ops : List Op} {admitted taken : List QueuedPacket} {q q' : WEIGHTEDPacketQueue} {outs : List Outcome},
    Served admitted taken q → (∀ op ∈ ops, op.Sized) → Run.steps WEIGHTEDPacketQueue.step q ops = .ok (outs, q') →
    Served (admitted ++ outs.filterMap Outcome.admitted) (taken ++ outs.filterMap Outcome.taken) q'
  | [], admitted, taken, q, q', outs, h, _, hrun => by
    cases hrun
    simpa using h
  | op :: ops, admitted, taken, q, q', outs, h, hops, hrun => by
    obtain ⟨out, q₁, outs', hs, hrest, rfl⟩ := Run.steps_cons_ok hrun
    have h₁ := h.step (hops op (List.mem_cons_self ..)) hs
    have h' := Served.run h₁ (fun o ho => hops o (List.mem_cons_of_mem _ ho)) hrest
    have hcons : ∀ f : Outcome → Option QueuedPacket, (out :: outs').filterMap f = (f out).toList ++ outs'.filterMap f := by
      intro f
      cases hf : f out <;> simp [hf]
    rw [hcons, hcons, ← List.append_assoc, ← List.append_assoc]
    exact h'

theorem served_initial {q : WEIGHTEDPacketQueue} (h : Initial q) : Served [] [] q := by
  obtain ⟨packets, bytes, qdelayRef, beta, delta, h⟩ := h
  obtain ⟨base, hbase, h⟩ := Run.bind_ok h
  obtain ⟨queue1, h₁, h⟩ := Run.bind_ok h
  obtain ⟨queue2, h₂, h⟩ := Run.bind_ok h
  obtain ⟨hrep, -, -⟩ := rep_ofArgs hbase
  obtain ⟨hrep₁, hnil₁, -⟩ := rep_ofArgs h₁
  obtain ⟨hrep₂, hnil₂⟩ := CELLULARPacketQueue.rep_base h₂
  split at h
  · cases h
  · cases h
    refine ⟨⟨hrep.good, hrep₁, hrep₂⟩, ?_, [], ?_, .nil⟩
    · rw [hnil₁]; rfl
    · rw [hnil₂]; rfl

/-- The queue is empty when all that was admitted has been taken. -/
theorem Orders.nil_iff {admitted taken l₁ l₂ : List QueuedPacket} (h : Orders admitted taken l₁ l₂) :
    l₁ = [] ∧ l₂ = [] ↔ taken.length = admitted.length := by
  obtain ⟨popped, hqueue2, hmarks⟩ := h.queue2
  have hsplit : ∀ l : List QueuedPacket, l.length = (l.filter first).length + (l.filter (!first ·)).length := by
    intro l
    rw [← List.countP_eq_length_filter, ← List.countP_eq_length_filter, List.length_eq_countP_add_countP first]
    simp
  have hlen := hsplit admitted
  rw [h.queue1, hqueue2, List.length_append, List.length_append, hmarks.length_eq] at hlen
  rw [← List.length_eq_zero_iff, ← List.length_eq_zero_iff, hsplit taken]
  omega

/-- The placeholder is too short for a packet of an IP network. -/
theorem Takes.not_arbit {q q' : WEIGHTEDPacketQueue} {ret : QueuedPacket} (h : Rep q) (ht : Takes q ret q') :
    ret.contents ≠ ascii "arbit" := by
  have hlow : 28 ≤ ret.contents.length := by
    have htook := ht.took
    have hsizes₁ := h.queue1.sizes
    have hsizes₂ := h.queue2.sizes
    generalize q.queue1.internalQueue = l₁ at htook hsizes₁
    generalize q.queue2.base.internalQueue = l₂ at htook hsizes₂
    cases htook with
    | queue1 => exact hsizes₁ ret (List.mem_cons_self ..)
    | @queue2 p ret hmark =>
      rw [hmark.length]
      exact hsizes₂ p (List.mem_cons_self ..)
  intro harbit
  rw [harbit] at hlow
  exact absurd hlow (by decide)

/-- Over every sequence of calls that returns, with any draws and any weights: the packets returned
while `empty()` was false are the packets admitted, those of each queue in the order of their
admission to it and but for marks unchanged; the next `dequeue`, when `empty()` is false, returns
one more of them and not the placeholder; and `empty()` is true exactly when all have been returned. -/
theorem weighted_keeps_order {q₀ q : WEIGHTEDPacketQueue} {ops : List Op} {outs : List Outcome} (hinit : Initial q₀)
    (hops : ∀ op ∈ ops, op.Sized) (hrun : Run.steps step q₀ ops = .ok (outs, q)) :
    Orders (outs.filterMap Outcome.admitted) (outs.filterMap Outcome.taken) q.queue1.internalQueue
        q.queue2.base.internalQueue ∧
      (∀ weight clock draw, q.empty = false → ∃ ret q', q.dequeueAt weight clock draw = .ok (ret, q') ∧
        ret.contents ≠ ascii "arbit" ∧
        Orders (outs.filterMap Outcome.admitted) (outs.filterMap Outcome.taken ++ [ret]) q'.queue1.internalQueue
          q'.queue2.base.internalQueue) ∧
      (q.empty = true ↔ (outs.filterMap Outcome.taken).length = (outs.filterMap Outcome.admitted).length) := by
  have h := (served_initial hinit).run hops hrun
  simp only [List.nil_append] at h
  refine ⟨h.orders, fun weight clock draw hne => ?_, ?_⟩
  · obtain ⟨ret, q', hd, htakes⟩ := dequeueAt_spec h.rep hne weight clock draw
    exact ⟨ret, q', hd, htakes.not_arbit h.rep, h.orders.take htakes.took⟩
  · rw [← h.orders.nil_iff]
    unfold empty DroppingPacketQueue.empty
    rw [Bool.and_eq_true, List.isEmpty_iff, List.isEmpty_iff]

/-- A queue with room for ten packets on either side. -/
def pair : WEIGHTEDPacketQueue := { base := small.base, queue1 := small.base, queue2 := small }

theorem pair_initial : Initial pair := by
  refine ⟨10, 0, 50, 100, 100, ?_⟩
  unfold ofArgs
  simp only [show DroppingPacketQueue.ofArgs 10 0 = .ok small.base from rfl,
    show CELLULARPacketQueue.ofArgs 10 0 50 100 = .ok small from rfl, Run.ok_bind]
  rw [if_neg (by norm_num)]
  rfl

instance : ∀ op, Decidable (Op.Sized op)
  | .enqueue p _ _ => inferInstanceAs (Decidable (Packet.Sized p))
  | .dequeue _ _ _ => inferInstanceAs (Decidable True)

/-- A packet from port 5200. -/
def highPort : QueuedPacket := ⟨[0, 0, 8, 0, 0x45, 2] ++ List.replicate 18 0 ++ [0x14, 0x50, 0, 0], 0⟩

/-- Packets for both queues arrive, and the draws take them in turns. -/
def inTurns : List Op :=
  [.enqueue bareEct 0 0, .enqueue highPort 0 0, .enqueue { highPort with arrivalTime := 5 } 0 0, .dequeue 0.5 30 700,
    .dequeue 0.5 31 100, .dequeue 0.5 32 100]

theorem weighted_keeps_order_small : ∃ outs q, Run.steps step pair inTurns = .ok (outs, q) ∧
    (outs.filterMap Outcome.taken).map first = [false, true, false] ∧
    Orders (outs.filterMap Outcome.admitted) (outs.filterMap Outcome.taken) q.queue1.internalQueue
      q.queue2.base.internalQueue ∧ q.empty = true := by
  obtain ⟨⟨outs, q⟩, hrun⟩ := Run.ok_of_isOk (x := Run.steps step pair inTurns) (by decide +kernel)
  have htaken : (outs.filterMap Outcome.taken).map first = [false, true, false] :=
    Run.value_of_map (fun r => (r.1.filterMap Outcome.taken).map first) hrun (by decide +kernel)
  have hcount : (outs.filterMap Outcome.taken).length = (outs.filterMap Outcome.admitted).length :=
    of_decide_eq_true (Run.value_of_map (fun r => decide ((r.1.filterMap Outcome.taken).length =
      (r.1.filterMap Outcome.admitted).length)) hrun (by decide +kernel))
  obtain ⟨horders, -, hempty⟩ := weighted_keeps_order pair_initial (by decide) hrun
  exact ⟨outs, q, hrun, htaken, horders, hempty.2 hcount⟩

end WEIGHTEDPacketQueue

end AbcMahimahi.Packet
