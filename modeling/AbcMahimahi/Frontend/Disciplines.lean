/-
The disciplines of `mm-link` that keep one queue in order: what they return is part of what they were given,
packet by packet, whatever they drop. All but the ABC router leave a packet as it is; the router may mark it.
What the clock and the generator give a discipline is part of it, call by call.
-/
import AbcMahimahi.Frontend.CellularLink
import AbcMahimahi.Lib.LossyLine
import AbcMahimahi.Packet.Codel
import AbcMahimahi.Packet.Conservation
import AbcMahimahi.Packet.DropHead
import AbcMahimahi.Packet.Pie

namespace AbcMahimahi

open Bytes Packet LossyLine

instance : AbstractPacketQueue DropHeadPacketQueue where
  enqueue q p := DropHeadPacketQueue.mk <$> DropHeadPacketQueue.enqueue q.toDroppingPacketQueue p
  dequeue q := (fun r => (r.1, ⟨r.2⟩)) <$> q.toDroppingPacketQueue.dequeue
  empty q := q.empty
  toString q := q.toDroppingPacketQueue.toString (ascii "drophead")

namespace Frontend

/-- A `CODELPacketQueue`, with what its control law computes in doubles and what the clock reads in each `dequeue`. -/
structure CodelDiscipline where
  queue : CODELPacketQueue
  sqrtQuotient : Nat → Nat → Nat
  clock : Nat → Nat
  calls : Nat := 0

instance : AbstractPacketQueue CodelDiscipline where
  enqueue q p := (fun queue => { q with queue := queue }) <$> q.queue.enqueue p
  dequeue q := (fun r => (r.1, { q with queue := r.2, calls := q.calls + 1 })) <$> q.queue.dequeue q.sqrtQuotient (q.clock q.calls)
  empty q := q.queue.base.empty
  toString q := q.queue.base.toString (ascii "codel")

/-- A `PIEPacketQueue`, with what the clock and the generator give it, reading by reading. -/
structure PieDiscipline where
  queue : PIEPacketQueue
  clock : Nat → Nat
  draw : Nat → ℚ
  calls : Nat := 0

instance : AbstractPacketQueue PieDiscipline where
  enqueue q p := (fun queue => { q with queue := queue, calls := q.calls + 1 }) <$> q.queue.enqueue p (q.clock q.calls) (q.draw q.calls)
  dequeue q := (fun r => (r.1, { q with queue := r.2, calls := q.calls + 2 })) <$>
    q.queue.dequeue (q.clock q.calls) (q.clock (q.calls + 1))
  empty q := q.queue.base.empty
  toString q := q.queue.base.toString (ascii "pie")

/-- Part of a queue, where a packet may have been changed. -/
abbrev Part (same : Bytes → Bytes → Prop) (l' l : List Bytes) : Prop := List.SublistForall₂ (fun o i => same i o) l' l

/-- A discipline that is a queue in order, but for what it drops and changes. -/
class FifoDiscipline (Q : Type) [AbstractPacketQueue Q] (same : outParam (Bytes → Bytes → Prop)) where
  queued : Q → List Bytes
  enqueue : ∀ {q q' : Q} {p : QueuedPacket}, AbstractPacketQueue.enqueue q p = .ok q' → Part same (queued q') (queued q ++ [p.contents])
  dequeue : ∀ {q q' : Q} {p : QueuedPacket}, AbstractPacketQueue.empty q = false →
    AbstractPacketQueue.dequeue q = .ok (p, q') → Part same (p.contents :: queued q') (queued q)
  idle : ∀ {q q' : Q} {p : QueuedPacket}, AbstractPacketQueue.empty q = true →
    AbstractPacketQueue.dequeue q = .ok (p, q') → Part same (queued q') (queued q)
  enqueue_throws : ∀ (q : Q) (p : QueuedPacket), Run.Throws Fault.Broken (AbstractPacketQueue.enqueue q p)
  dequeue_throws : ∀ q : Q, Run.Throws Fault.Broken (AbstractPacketQueue.dequeue q)

/-- The packets are what they were. -/
abbrev Same (a b : Bytes) : Prop := a = b

/-- The TOS byte and the checksum may be others. -/
structure Marked (a b : Bytes) : Prop where
  length : b.length = a.length
  bytes : ∀ i, i ≠ 5 → i ≠ 14 → i ≠ 15 → b[i]? = a[i]?

theorem Marked.refl (a : Bytes) : Marked a a := ⟨rfl, fun _ _ _ _ => rfl⟩

theorem Marked.trans {a b c : Bytes} (h : Marked a b) (h' : Marked b c) : Marked a c :=
  ⟨h'.length.trans h.length, fun i h5 h14 h15 => (h'.bytes i h5 h14 h15).trans (h.bytes i h5 h14 h15)⟩

theorem part_same (l : List Bytes) : Part Same l l := part_of_forall₂ (List.forall₂_same.2 fun _ _ => rfl)

/-! ## What is in the queue underneath -/

def contents (q : DroppingPacketQueue) : List Bytes := q.internalQueue.map (·.contents)

theorem contents_of_sublist {q q' : DroppingPacketQueue} (h : q'.internalQueue.Sublist q.internalQueue) :
    Part Same (contents q') (contents q) :=
  part_mono (part_same (contents q)) (h.map _) (List.Sublist.refl _)

theorem contents_accept (q : DroppingPacketQueue) (p : QueuedPacket) : contents (q.accept p) = contents q ++ [p.contents] := by
  unfold contents
  rw [DroppingPacketQueue.accept_internalQueue, List.map_append]
  rfl

/-- A packet is taken or not. -/
theorem contents_taken (q : DroppingPacketQueue) (p : QueuedPacket) (taken : Bool) :
    Part Same (contents (if taken then q.accept p else q)) (contents q ++ [p.contents]) := by
  cases taken with
  | true =>
    rw [if_pos rfl, contents_accept]
    exact part_same _
  | false => exact part_mono (part_same (contents q)) (List.Sublist.refl _) (List.sublist_append_left _ _)

theorem contents_acceptIfGood {q q' : DroppingPacketQueue} {p : QueuedPacket} (h : q.acceptIfGood p = .ok q') :
    Part Same (contents q') (contents q ++ [p.contents]) := by
  obtain ⟨taken, -, h⟩ := Run.bind_ok h
  obtain ⟨_, -, h⟩ := Run.bind_ok h
  obtain ⟨_, -, h⟩ := Run.bind_ok h
  cases h
  exact contents_taken q p taken

theorem contents_dequeue {q q' : DroppingPacketQueue} {p : QueuedPacket} (h : q.dequeue = .ok (p, q')) :
    contents q = p.contents :: contents q' := by
  unfold contents
  rw [(DroppingPacketQueue.dequeue_ok h).1, List.map_cons]

theorem dequeue_of_empty {q : DroppingPacketQueue} (hempty : q.empty = true) (p : QueuedPacket) (q' : DroppingPacketQueue) :
    q.dequeue ≠ .ok (p, q') := by
  intro h
  unfold DroppingPacketQueue.empty at hempty
  rw [(DroppingPacketQueue.dequeue_ok h).1] at hempty
  cases hempty

/-! ## What it throws -/

section

variable (q : DroppingPacketQueue) (p : QueuedPacket)

open Run

theorem sizeBytes_throws : Throws Fault.Broken q.sizeBytes := (throws_check _ _).bind fun _ _ => throws_ok _

theorem sizePackets_throws : Throws Fault.Broken q.sizePackets := (throws_check _ _).bind fun _ _ => throws_ok _

theorem good_throws : Throws Fault.Broken q.good :=
  (sizeBytes_throws q).bind fun _ _ => (sizePackets_throws q).bind fun _ _ => throws_ok _

theorem goodWithPacket_throws : Throws Fault.Broken (q.goodWithPacket p) :=
  (sizeBytes_throws q).bind fun _ _ => (sizePackets_throws q).bind fun _ _ => throws_ok _

theorem checkGood_throws {α : Type} (a : α) : Throws Fault.Broken (do check "good()" (← q.good); pure a) :=
  (good_throws q).bind fun _ _ => (throws_check _ _).bind fun _ _ => throws_ok a

theorem acceptIfGood_throws : Throws Fault.Broken (q.acceptIfGood p) :=
  (goodWithPacket_throws q p).bind fun _ _ => checkGood_throws _ _

theorem dequeue_throws : Throws Fault.Broken q.dequeue := by
  unfold DroppingPacketQueue.dequeue
  split
  · exact throws_error (.assertion _)
  · exact checkGood_throws _ _

end

/-! ## The disciplines -/

instance : FifoDiscipline InfinitePacketQueue Same where
  queued q := q.internalQueue.map (·.contents)
  enqueue h := by
    cases h
    rw [List.map_append]
    exact part_same _
  dequeue {q q' p} _ h := by
    replace h : q.dequeue = .ok (p, q') := h
    unfold InfinitePacketQueue.dequeue at h
    split at h
    · cases h
    · rename_i hqueue
      cases h
      rw [hqueue]
      exact part_same _
  idle {q q' p} hempty h := by
    replace h : q.dequeue = .ok (p, q') := h
    unfold InfinitePacketQueue.dequeue at h
    split at h
    · cases h
    · rename_i hqueue
      replace hempty : q.internalQueue.isEmpty = true := hempty
      rw [hqueue] at hempty
      cases hempty
  enqueue_throws _ _ := Run.throws_ok _
  dequeue_throws q := by
    show Run.Throws Fault.Broken q.dequeue
    unfold InfinitePacketQueue.dequeue
    split
    · exact Run.throws_error (.assertion _)
    · exact Run.throws_ok _

instance : FifoDiscipline DropTailPacketQueue Same where
  queued q := contents q.toDroppingPacketQueue
  enqueue h := by
    obtain ⟨q₁, hqueue, rfl⟩ := Run.map_eq_ok h
    exact contents_acceptIfGood hqueue
  dequeue _ h := by
    obtain ⟨⟨p', q₁⟩, hqueue, heq⟩ := Run.map_eq_ok h
    cases heq
    rw [contents_dequeue hqueue]
    exact part_same _
  idle hempty h := by
    obtain ⟨⟨p', q₁⟩, hqueue, -⟩ := Run.map_eq_ok h
    exact absurd hqueue (dequeue_of_empty hempty p' q₁)
  enqueue_throws q p := (acceptIfGood_throws q.toDroppingPacketQueue p).map _
  dequeue_throws q := (dequeue_throws q.toDroppingPacketQueue).map _

theorem dropHead_dropLoop : ∀ {turns : Nat} {q q' : DroppingPacketQueue}, DropHeadPacketQueue.dropLoop turns q = .ok q' →
    q'.internalQueue.Sublist q.internalQueue
  | 0, _, _, h => (by cases h)
  | turns + 1, q, q', h => by
    unfold DropHeadPacketQueue.dropLoop at h
    obtain ⟨good, -, h⟩ := Run.bind_ok h
    split at h
    · cases h
      exact List.Sublist.refl _
    · obtain ⟨⟨p, q₁⟩, hdequeue, h⟩ := Run.bind_ok h
      rw [(DroppingPacketQueue.dequeue_ok hdequeue).1]
      exact (dropHead_dropLoop h).cons p

theorem dropHead_dropLoop_throws : ∀ (turns : Nat) (q : DroppingPacketQueue),
    Run.Throws Fault.Broken (DropHeadPacketQueue.dropLoop turns q)
  | 0, _ => Run.throws_error .endless
  | turns + 1, q => by
    refine (good_throws q).bind fun good _ => ?_
    split
    · exact Run.throws_ok _
    · exact (dequeue_throws q).bind fun r _ => dropHead_dropLoop_throws turns r.2

instance : FifoDiscipline DropHeadPacketQueue Same where
  queued q := contents q.toDroppingPacketQueue
  enqueue {q q' p} h := by
    obtain ⟨q₁, hqueue, rfl⟩ := Run.map_eq_ok h
    rw [← contents_accept]
    exact contents_of_sublist (dropHead_dropLoop hqueue)
  dequeue _ h := by
    obtain ⟨⟨p', q₁⟩, hqueue, heq⟩ := Run.map_eq_ok h
    cases heq
    rw [contents_dequeue hqueue]
    exact part_same _
  idle hempty h := by
    obtain ⟨⟨p', q₁⟩, hqueue, -⟩ := Run.map_eq_ok h
    exact absurd hqueue (dequeue_of_empty hempty p' q₁)
  enqueue_throws q p := (dropHead_dropLoop_throws _ _).map _
  dequeue_throws q := (dequeue_throws q.toDroppingPacketQueue).map _

section

variable {q q' : CODELPacketQueue} {now : Nat}

theorem codel_dodequeue {r : DodequeueResult} (h : q.dodequeue now = .ok (r, q')) : q.base.dequeue = .ok (r.p, q'.base) := by
  unfold CODELPacketQueue.dodequeue at h
  obtain ⟨⟨p, base⟩, hdequeue, h⟩ := Run.bind_ok h
  dsimp only at h
  split at h
  · cases h
    exact hdequeue
  · split at h
    · obtain ⟨size, -, h⟩ := Run.bind_ok h
      split at h
      · cases h
        exact hdequeue
      · cases h
        exact hdequeue
    · obtain ⟨size, -, h⟩ := Run.bind_ok h
      split at h
      · cases h
        exact hdequeue
      · cases h
        exact hdequeue

theorem codel_dropLoop {sqrtQuotient : Nat → Nat → Nat} : ∀ {packets : Nat} {q q' : CODELPacketQueue},
    CODELPacketQueue.dropLoop sqrtQuotient now packets q = .ok q' → q'.base.internalQueue.Sublist q.base.internalQueue
  | 0, q, q', h => by
    unfold CODELPacketQueue.dropLoop at h
    split at h
    · cases h
    · cases h
      exact List.Sublist.refl _
  | packets + 1, q, q', h => by
    unfold CODELPacketQueue.dropLoop at h
    split at h
    · obtain ⟨⟨r, q₁⟩, hdodequeue, h⟩ := Run.bind_ok h
      have hrest := codel_dropLoop h
      rw [(DroppingPacketQueue.dequeue_ok (codel_dodequeue hdodequeue)).1]
      refine List.Sublist.cons r.p (hrest.trans ?_)
      split <;> exact List.Sublist.refl _
    · cases h
      exact List.Sublist.refl _

theorem codel_dequeue {sqrtQuotient : Nat → Nat → Nat} {p : QueuedPacket} (h : q.dequeue sqrtQuotient now = .ok (p, q')) :
    ∃ base, q.base.dequeue = .ok (p, base) ∧ q'.base.internalQueue.Sublist base.internalQueue := by
  unfold CODELPacketQueue.dequeue at h
  obtain ⟨⟨r, q₁⟩, hdodequeue, h⟩ := Run.bind_ok h
  have hfirst := codel_dodequeue hdodequeue
  dsimp only at h
  split at h
  · obtain ⟨q₂, hloop, h⟩ := Run.bind_ok h
    cases h
    refine ⟨q₁.base, hfirst, (codel_dropLoop hloop).trans ?_⟩
    split <;> exact List.Sublist.refl _
  · split at h
    · obtain ⟨⟨r₂, q₂⟩, hsecond, h⟩ := Run.bind_ok h
      cases h
      refine ⟨q₁.base, hfirst, ?_⟩
      rw [(DroppingPacketQueue.dequeue_ok (codel_dodequeue hsecond)).1]
      exact List.sublist_cons_self _ _
    · cases h
      exact ⟨_, hfirst, List.Sublist.refl _⟩

theorem codel_dodequeue_throws (q : CODELPacketQueue) (now : Nat) : Run.Throws Fault.Broken (q.dodequeue now) := by
  refine (dequeue_throws q.base).bind fun r _ => ?_
  dsimp only
  split
  · exact Run.throws_ok _
  · split
    · refine (sizeBytes_throws r.2).bind fun _ _ => ?_
      split <;> exact Run.throws_ok _
    · refine (sizeBytes_throws r.2).bind fun _ _ => ?_
      split <;> exact Run.throws_ok _

theorem codel_dropLoop_throws (sqrtQuotient : Nat → Nat → Nat) (now : Nat) : ∀ (packets : Nat) (q : CODELPacketQueue),
    Run.Throws Fault.Broken (CODELPacketQueue.dropLoop sqrtQuotient now packets q)
  | 0, q => by
    unfold CODELPacketQueue.dropLoop
    split
    · exact Run.throws_error (.assertion _)
    · exact Run.throws_ok _
  | packets + 1, q => by
    unfold CODELPacketQueue.dropLoop
    split
    · exact (codel_dodequeue_throws q now).bind fun _ _ => codel_dropLoop_throws sqrtQuotient now packets _
    · exact Run.throws_ok _

theorem codel_dequeue_throws (sqrtQuotient : Nat → Nat → Nat) (q : CODELPacketQueue) (now : Nat) :
    Run.Throws Fault.Broken (q.dequeue sqrtQuotient now) := by
  refine (codel_dodequeue_throws q now).bind fun r _ => ?_
  dsimp only
  split
  · exact (codel_dropLoop_throws sqrtQuotient now _ _).bind fun _ _ => Run.throws_ok _
  · split
    · exact (codel_dodequeue_throws r.2 now).bind fun _ _ => Run.throws_ok _
    · exact Run.throws_ok _

end

instance : FifoDiscipline CodelDiscipline Same where
  queued q := contents q.queue.base
  enqueue h := by
    obtain ⟨queue, hqueue, rfl⟩ := Run.map_eq_ok h
    obtain ⟨base, hbase, hqueue⟩ := Run.bind_ok hqueue
    cases hqueue
    exact contents_acceptIfGood hbase
  dequeue {q q' p} _ h := by
    obtain ⟨⟨p', queue⟩, hqueue, heq⟩ := Run.map_eq_ok (x := q.queue.dequeue q.sqrtQuotient (q.clock q.calls)) h
    cases heq
    obtain ⟨base, hbase, hrest⟩ := codel_dequeue hqueue
    rw [contents_dequeue hbase]
    exact .cons rfl (contents_of_sublist hrest)
  idle {q q' p} hempty h := by
    obtain ⟨⟨p', queue⟩, hqueue, -⟩ := Run.map_eq_ok (x := q.queue.dequeue q.sqrtQuotient (q.clock q.calls)) h
    obtain ⟨base, hbase, -⟩ := codel_dequeue hqueue
    exact absurd hbase (dequeue_of_empty hempty p' base)
  enqueue_throws q p := ((acceptIfGood_throws q.queue.base p).bind fun _ _ => Run.throws_ok _).map _
  dequeue_throws q := (codel_dequeue_throws q.sqrtQuotient q.queue (q.clock q.calls)).map _

section

variable {q q' : PIEPacketQueue} {now : Nat}

theorem pie_calculateDropProb (h : q.calculateDropProb now = .ok q') : q'.base = q.base := by
  obtain ⟨size, -, h⟩ := Run.bind_ok h
  cases h
  exact PIEPacketQueue.dropProbLoop_base _ _ _ _

theorem pie_enqueue {p : QueuedPacket} {clock : Nat} {draw : ℚ} (h : q.enqueue p clock draw = .ok q') :
    ∃ taken : Bool, q'.base = if taken then q.base.accept p else q.base := by
  unfold PIEPacketQueue.enqueue at h
  obtain ⟨q₁, hcalculate, h⟩ := Run.bind_ok h
  have hbase := pie_calculateDropProb hcalculate
  obtain ⟨good, -, h⟩ := Run.bind_ok h
  split at h
  · cases h
    exact ⟨false, hbase⟩
  · obtain ⟨drop, -, h⟩ := Run.bind_ok h
    obtain ⟨_, -, h⟩ := Run.bind_ok h
    obtain ⟨_, -, h⟩ := Run.bind_ok h
    cases h
    cases drop with
    | true => exact ⟨false, hbase⟩
    | false => exact ⟨true, congrArg (fun base => base.accept p) hbase⟩

theorem pie_dequeue {p : QueuedPacket} {clock clock' : Nat} (h : q.dequeue clock clock' = .ok (p, q')) :
    q.base.dequeue = .ok (p, q'.base) := by
  unfold PIEPacketQueue.dequeue at h
  obtain ⟨⟨ret, base⟩, hdequeue, h⟩ := Run.bind_ok h
  obtain ⟨size, -, h⟩ := Run.bind_ok h
  obtain ⟨q₁, hcalculate, h⟩ := Run.bind_ok h
  cases h
  rw [pie_calculateDropProb hcalculate, PIEPacketQueue.measure_base]
  exact hdequeue

theorem pie_calculateDropProb_throws (q : PIEPacketQueue) (now : Nat) : Run.Throws Fault.Broken (q.calculateDropProb now) :=
  (sizeBytes_throws q.base).bind fun _ _ => Run.throws_ok _

theorem pie_dropEarly_throws (q : PIEPacketQueue) (draw : ℚ) : Run.Throws Fault.Broken (q.dropEarly draw) := by
  unfold PIEPacketQueue.dropEarly
  split
  · exact Run.throws_ok _
  · split
    · exact Run.throws_ok _
    · refine (sizeBytes_throws q.base).bind fun _ _ => ?_
      split <;> exact Run.throws_ok _

theorem pie_enqueue_throws (q : PIEPacketQueue) (p : QueuedPacket) (clock : Nat) (draw : ℚ) :
    Run.Throws Fault.Broken (q.enqueue p clock draw) := by
  refine (pie_calculateDropProb_throws q clock).bind fun q₁ _ => (goodWithPacket_throws q₁.base p).bind fun good _ => ?_
  split
  · exact Run.throws_ok _
  · exact (pie_dropEarly_throws q₁ draw).bind fun _ _ => checkGood_throws _ _

theorem pie_dequeue_throws (q : PIEPacketQueue) (clock clock' : Nat) : Run.Throws Fault.Broken (q.dequeue clock clock') :=
  (dequeue_throws q.base).bind fun r _ => (sizeBytes_throws r.2).bind fun _ _ =>
    (pie_calculateDropProb_throws _ clock').bind fun _ _ => Run.throws_ok _

end

instance : FifoDiscipline PieDiscipline Same where
  queued q := contents q.queue.base
  enqueue {q q' p} h := by
    obtain ⟨queue, hqueue, rfl⟩ := Run.map_eq_ok h
    obtain ⟨taken, htaken⟩ := pie_enqueue hqueue
    rw [htaken]
    exact contents_taken _ _ taken
  dequeue {q q' p} _ h := by
    obtain ⟨⟨p', queue⟩, hqueue, heq⟩ := Run.map_eq_ok (x := q.queue.dequeue (q.clock q.calls) (q.clock (q.calls + 1))) h
    cases heq
    rw [contents_dequeue (pie_dequeue hqueue)]
    exact part_same _
  idle {q q' p} hempty h := by
    obtain ⟨⟨p', queue⟩, hqueue, -⟩ := Run.map_eq_ok (x := q.queue.dequeue (q.clock q.calls) (q.clock (q.calls + 1))) h
    exact absurd (pie_dequeue hqueue) (dequeue_of_empty hempty p' _)
  enqueue_throws q p := (pie_enqueue_throws q.queue p (q.clock q.calls) (q.draw q.calls)).map _
  dequeue_throws q := (pie_dequeue_throws q.queue (q.clock q.calls) (q.clock (q.calls + 1))).map _

theorem part_marked (l : List Bytes) : Part Marked l l := part_of_forall₂ (List.forall₂_same.2 fun a _ => Marked.refl a)

theorem Part.marked {l l' : List Bytes} (h : Part Same l' l) : Part Marked l' l := by
  refine part_imp (fun o i hoi => ?_) h
  cases hoi
  exact Marked.refl _

theorem cellular_enqueue_throws (q : CELLULARPacketQueue) (p : QueuedPacket) : Run.Throws Fault.Broken (q.enqueue p) := by
  refine (goodWithPacket_throws q.base p).bind fun good _ => ?_
  split
  · exact Run.throws_ok _
  · exact checkGood_throws _ _

theorem cellular_dequeue_throws (q : CELLULARPacketQueue) (clock : Nat) : Run.Throws Fault.Broken (q.dequeue clock) := by
  unfold CELLULARPacketQueue.dequeue
  dsimp only
  split
  · exact Run.throws_ok _
  · refine (dequeue_throws q.base).bind fun r _ => ?_
    split
    · exact Run.throws_ok _
    · exact (sizePackets_throws _).bind fun _ _ => Run.throws_ok _

instance : FifoDiscipline CellularDiscipline Marked where
  queued q := contents q.queue.base
  enqueue {q q' p} h := by
    obtain ⟨queue, hqueue, rfl⟩ := Run.map_eq_ok h
    unfold CELLULARPacketQueue.enqueue at hqueue
    obtain ⟨good, -, hqueue⟩ := Run.bind_ok hqueue
    split at hqueue
    · cases hqueue
      exact (contents_taken q.queue.base p false).marked
    · obtain ⟨_, -, hqueue⟩ := Run.bind_ok hqueue
      obtain ⟨_, -, hqueue⟩ := Run.bind_ok hqueue
      cases hqueue
      exact (contents_taken q.queue.base p true).marked
  dequeue {q q' p} hempty h := by
    obtain ⟨⟨p', queue⟩, hqueue, heq⟩ := Run.map_eq_ok (x := q.queue.dequeue (q.clock q.calls)) h
    cases heq
    rcases CELLULARPacketQueue.dequeue_cases hqueue with ⟨hnil, -, -⟩ | ⟨first, base, hbase, hcases⟩
    · replace hempty : q.queue.base.internalQueue.isEmpty = false := hempty
      rw [hnil] at hempty
      cases hempty
    · rw [contents_dequeue hbase]
      rcases hcases with ⟨-, rfl, rfl⟩ | ⟨-, hspend⟩
      · exact part_marked _
      · obtain ⟨hsame, hrest⟩ := CELLULARPacketQueue.spend_same
          { ({ q.queue with base := base }.recordDequeue (u32 (q.clock q.calls))) with
            tokens := q.queue.tokens + q.queue.nextCredit (q.clock q.calls) } first
        rw [← hspend] at hsame hrest
        dsimp only at hsame hrest
        rw [hrest]
        exact .cons ⟨hsame.length, hsame.bytes⟩ (part_marked _)
  idle {q q' p} hempty h := by
    obtain ⟨⟨p', queue⟩, hqueue, heq⟩ := Run.map_eq_ok (x := q.queue.dequeue (q.clock q.calls)) h
    cases heq
    rcases CELLULARPacketQueue.dequeue_cases hqueue with ⟨-, -, rfl⟩ | ⟨first, base, hbase, -⟩
    · exact part_marked _
    · exact absurd hbase (dequeue_of_empty hempty first base)
  enqueue_throws q p := (cellular_enqueue_throws q.queue p).map _
  dequeue_throws q := (cellular_dequeue_throws q.queue (q.clock q.calls)).map _

end Frontend

end AbcMahimahi
