/-
The four bounded disciplines keep their representation and conserve packets: whatever the calls,
the clocks and the random draws, no assertion fails, the counters are those of the queue, and
every packet offered is returned, discarded or still queued, the returned ones in order. Each
call is one step of a lossy FIFO on the queue underneath, so the FIFO's run rule gives the rest.
-/
import AbcMahimahi.Packet.Codel
import AbcMahimahi.Packet.Pie
import AbcMahimahi.Packet.Tokens

namespace AbcMahimahi.Packet

open DroppingPacketQueue

/-- What holds of a queue after calls that offered and returned these packets. -/
structure Kept (q : DroppingPacketQueue) (offered returned : List QueuedPacket) : Prop where
  bytes : q.queueSizeInBytes = totalBytes q.internalQueue
  packets : q.queueSizeInPackets = q.internalQueue.length
  good : q.good = .ok true
  conserved : LossyFifo.Conserved offered returned q.internalQueue

/-- A discipline whose every call succeeds on a represented queue, as a step of the lossy FIFO,
keeps its queue over every run from an empty one. -/
theorem kept_run {σ ι ο : Type} {step : σ → ι → Except Fault (ο × σ)} {G : σ → ι → Prop}
    (base : σ → DroppingPacketQueue) {offer : ι → Option QueuedPacket} {ret : ο → Option QueuedPacket}
    (hstep : ∀ s i, Rep (base s) → G s i → ∃ o s', step s i = .ok (o, s') ∧ Rep (base s') ∧
      LossyFifo.Step (base s).internalQueue (offer i) (ret o) (base s').internalQueue)
    {s : σ} {is : List ι} (h : Rep (base s)) (hempty : (base s).internalQueue = []) (hG : Run.Along step G s is) :
    ∃ os s', Run.steps step s is = .ok (os, s') ∧ Kept (base s') (is.filterMap offer) (os.filterMap ret) := by
  have hstart : LossyFifo.Split [] [] (base s).internalQueue := by rw [hempty]; exact .nil
  obtain ⟨os, s', hrun, h', hc⟩ := LossyFifo.conserved_run hstep h hG hstart
  exact ⟨os, s', hrun, h'.bytes, h'.packets, h'.good, hc⟩

theorem cons_of_not_empty {q : DroppingPacketQueue} (h : q.empty = false) :
    ∃ p rest, q.internalQueue = p :: rest := by
  unfold DroppingPacketQueue.empty at h
  cases hq : q.internalQueue with
  | nil => rw [hq] at h; cases h
  | cons p rest => exact ⟨p, rest, rfl⟩

/-! ## Drop-tail -/

namespace DropTailPacketQueue

def Op.offered : Op → Option QueuedPacket
  | .enqueue p => some p
  | .dequeue => none

/-- The calls are made with room in the counters and never on an empty queue. -/
def Proper (q : DroppingPacketQueue) : Op → Prop
  | .enqueue p => Room q p
  | .dequeue => q.empty = false

theorem step_spec (q : DroppingPacketQueue) (op : Op) (h : Rep q) (hop : Proper q op) :
    ∃ o q', step q op = .ok (o, q') ∧ Rep q' ∧ LossyFifo.Step q.internalQueue op.offered o q'.internalQueue := by
  cases op with
  | enqueue p =>
    obtain ⟨q', he, hrep, hs⟩ := h.acceptIfGood hop
    refine ⟨none, q', ?_, hrep, hs⟩
    simp only [step, enqueue, he, Run.ok_bind, Run.pure_ok]
  | dequeue =>
    obtain ⟨p, rest, hq⟩ := cons_of_not_empty hop
    obtain ⟨q', hd, hrep, hrest⟩ := h.dequeue hq
    refine ⟨some p, q', ?_, hrep, ?_⟩
    · simp only [step, hd, Run.ok_bind, Run.pure_ok]
    · rw [hq, hrest]; exact .take p [] rest

end DropTailPacketQueue

/-! ## CoDel -/

namespace CODELPacketQueue

def Op.offered : Op → Option QueuedPacket
  | .enqueue p => some p
  | .dequeue _ => none

def Proper (q : CODELPacketQueue) : Op → Prop
  | .enqueue p => Room q.base p
  | .dequeue _ => q.base.empty = false

theorem step_spec (sqrtQuotient : Nat → Nat → Nat) (q : CODELPacketQueue) (op : Op) (h : Rep q.base)
    (hop : Proper q op) :
    ∃ o q', step sqrtQuotient q op = .ok (o, q') ∧ Rep q'.base ∧
      LossyFifo.Step q.base.internalQueue op.offered o q'.base.internalQueue := by
  cases op with
  | enqueue p =>
    obtain ⟨base, he, hrep, hs⟩ := h.acceptIfGood hop
    refine ⟨none, { q with base := base }, ?_, hrep, hs⟩
    simp only [step, enqueue, he, Run.ok_bind, Run.pure_ok]
  | dequeue clock =>
    obtain ⟨p, rest, hq⟩ := cons_of_not_empty hop
    obtain ⟨q', hd, hrep, hs⟩ := dequeue_spec sqrtQuotient h hq clock
    refine ⟨some p, q', ?_, hrep, hs⟩
    simp only [step, hd, Run.ok_bind, Run.pure_ok]

theorem rep_base {packets bytes target interval : Nat} {q : CODELPacketQueue} (h : ofArgs packets bytes target interval = .ok q) :
    Rep q.base ∧ q.base.internalQueue = [] := by
  obtain ⟨base, hb, h⟩ := Run.bind_ok h
  obtain ⟨hrep, hempty, -⟩ := rep_ofArgs hb
  split at h
  · cases h
  · cases h; exact ⟨hrep, hempty⟩

end CODELPacketQueue

/-! ## PIE -/

namespace PIEPacketQueue

def Op.offered : Op → Option QueuedPacket
  | .enqueue p _ _ => some p
  | .dequeue _ _ => none

def Proper (q : PIEPacketQueue) : Op → Prop
  | .enqueue p _ _ => Room q.base p
  | .dequeue _ _ => q.base.empty = false

theorem step_spec (q : PIEPacketQueue) (op : Op) (h : Rep q.base) (hop : Proper q op) :
    ∃ o q', step q op = .ok (o, q') ∧ Rep q'.base ∧
      LossyFifo.Step q.base.internalQueue op.offered o q'.base.internalQueue := by
  cases op with
  | enqueue p clock draw =>
    obtain ⟨q', he, hrep, hs⟩ := enqueue_spec h hop clock draw
    refine ⟨none, q', ?_, hrep, hs⟩
    simp only [step, he, Run.ok_bind, Run.pure_ok]
  | dequeue clock clock' =>
    obtain ⟨p, rest, hq⟩ := cons_of_not_empty hop
    obtain ⟨q', hd, hrep, hs⟩ := dequeue_spec h hq clock clock'
    refine ⟨some p, q', ?_, hrep, hs⟩
    simp only [step, hd, Run.ok_bind, Run.pure_ok]

theorem rep_base {packets bytes qdelayRef maxBurst clock : Nat} {q : PIEPacketQueue} (h : ofArgs packets bytes qdelayRef maxBurst clock = .ok q) :
    Rep q.base ∧ q.base.internalQueue = [] := by
  obtain ⟨base, hb, h⟩ := Run.bind_ok h
  obtain ⟨hrep, hempty, -⟩ := rep_ofArgs hb
  split at h
  · cases h
  · cases h; exact ⟨hrep, hempty⟩

end PIEPacketQueue

/-! ## The ABC router -/

namespace CELLULARPacketQueue

def Op.offered : Op → Option QueuedPacket
  | .enqueue p => some p
  | .dequeue _ => none

/-- An empty router may be asked for a packet too. -/
def Proper (q : CELLULARPacketQueue) : Op → Prop
  | .enqueue p => Room q.base p
  | .dequeue _ => True

/-- The same packet but for the TOS byte and the two bytes of the IP checksum. -/
structure SameButMark (p p' : QueuedPacket) : Prop where
  arrivalTime : p'.arrivalTime = p.arrivalTime
  length : p'.contents.length = p.contents.length
  bytes : ∀ i, i ≠ 5 → i ≠ 14 → i ≠ 15 → p'.contents[i]? = p.contents[i]?

theorem SameButMark.refl (p : QueuedPacket) : SameButMark p p := ⟨rfl, rfl, fun _ _ _ _ => rfl⟩

theorem sameButMark_markCe (p : QueuedPacket) : SameButMark p { p with contents := markCe p.contents } := by
  refine ⟨rfl, by simp [markCe, setCheck], fun i h5 h14 h15 => ?_⟩
  simp [markCe, setCheck, Ne.symm h5, Ne.symm h14, Ne.symm h15]

theorem spend_same (q : CELLULARPacketQueue) (p : QueuedPacket) :
    SameButMark p (q.spend p).1 ∧ (q.spend p).2.base = q.base := by
  rw [spend_packet, spend_queue]
  refine ⟨?_, rfl⟩
  split
  · exact .refl p
  · split
    · exact sameButMark_markCe p
    · exact .refl p

/-- The packet popped, if any. -/
def popped (o : Option Left) : Option QueuedPacket := o.bind Left.popped

/-- A packet popped is the packet returned, but for a mark. -/
def Returns (o : Option Left) : Prop := ∀ l ∈ o, ∀ p ∈ l.popped, SameButMark p l.returned

theorem enqueue_spec {q : CELLULARPacketQueue} {p : QueuedPacket} (h : Rep q.base) (hroom : Room q.base p) :
    ∃ q', q.enqueue p = .ok q' ∧ Rep q'.base ∧
      LossyFifo.Step q.base.internalQueue (some p) none q'.base.internalQueue := by
  obtain ⟨g, hg, hrep⟩ := h.accept_of_good hroom
  unfold enqueue
  rw [hg, Run.ok_bind]
  cases g with
  | false => exact ⟨q, rfl, h, .refuse _ _⟩
  | true =>
    refine ⟨{ q with base := q.base.accept p }, ?_, hrep rfl, .keep _ _⟩
    rw [if_neg (by decide)]
    dsimp only
    rw [(hrep rfl).good]; rfl

theorem dequeue_spec {q : CELLULARPacketQueue} {p : QueuedPacket} {rest : List QueuedPacket} (h : Rep q.base)
    (hq : q.base.internalQueue = p :: rest) (clock : Nat) :
    ∃ ret q', q.dequeue clock = .ok (ret, q') ∧ SameButMark p ret ∧ Rep q'.base ∧ q'.base.internalQueue = rest := by
  obtain ⟨base, hd, hrep, hrest⟩ := h.dequeue hq
  have hne : ¬ q.base.empty = true := by simp [DroppingPacketQueue.empty, hq]
  unfold dequeue
  dsimp only
  rw [if_neg hne, hd, Run.ok_bind]
  dsimp only
  split
  · exact ⟨p, _, rfl, .refl p, hrep, hrest⟩
  · have hkeep : (recordDequeue { q with base := base } (u32 clock)).base = base := rfl
    generalize recordDequeue { q with base := base } (u32 clock) = q₁ at hkeep ⊢
    subst hkeep
    rw [hrep.sizePackets, Run.ok_bind]
    have hs := spend_same { q₁ with tokens := q₁.tokens + q₁.creditProb q₁.base.internalQueue.length } p
    generalize spend { q₁ with tokens := q₁.tokens + q₁.creditProb q₁.base.internalQueue.length } p = r at hs ⊢
    exact ⟨r.1, r.2, rfl, hs.1, by rw [hs.2]; exact hrep, by rw [hs.2]; exact hrest⟩

/-- An empty router returns a placeholder and keeps its queue. -/
theorem dequeue_empty {q : CELLULARPacketQueue} (hq : q.base.internalQueue = []) (clock : Nat) :
    ∃ ret q', q.dequeue clock = .ok (ret, q') ∧ q'.base = q.base := by
  have hempty : q.base.empty = true := by rw [DroppingPacketQueue.empty, hq]; rfl
  unfold dequeue
  dsimp only
  rw [if_pos hempty]
  exact ⟨_, _, rfl, rfl⟩

theorem step_spec (q : CELLULARPacketQueue) (op : Op) (h : Rep q.base) (hop : Proper q op) :
    ∃ o q', step q op = .ok (o, q') ∧ Rep q'.base ∧
      LossyFifo.Step q.base.internalQueue op.offered (popped o) q'.base.internalQueue := by
  cases op with
  | enqueue p =>
    obtain ⟨q', he, hrep, hs⟩ := enqueue_spec h hop
    refine ⟨none, q', ?_, hrep, hs⟩
    simp only [step, he, Run.ok_bind, Run.pure_ok]
  | dequeue clock =>
    cases hq : q.base.internalQueue with
    | nil =>
      obtain ⟨ret, q', hd, hbase⟩ := dequeue_empty hq clock
      refine ⟨some ⟨none, ret, q.nextCredit clock⟩, q', ?_, by rw [hbase]; exact h, ?_⟩
      · simp only [step, hd, Run.ok_bind, Run.pure_ok, hq, List.head?_nil]
      · rw [hbase, hq]; exact .idle _
    | cons p rest =>
      obtain ⟨ret, q', hd, -, hrep, hrest⟩ := dequeue_spec h hq clock
      refine ⟨some ⟨some p, ret, q.nextCredit clock⟩, q', ?_, hrep, ?_⟩
      · simp only [step, hd, Run.ok_bind, Run.pure_ok, hq, List.head?_cons]
      · rw [hrest]; exact .take p [] rest

/-- What a call returns is what it popped. -/
theorem step_returns {q q' : CELLULARPacketQueue} {op : Op} {o : Option Left} (h : Rep q.base)
    (hs : q.step op = .ok (o, q')) : Returns o := by
  cases op with
  | enqueue p => rw [(step_enqueue hs).1]; intro l hl; cases hl
  | dequeue clock =>
    obtain ⟨⟨ret, q₁⟩, hd, hs⟩ := Run.bind_ok hs
    cases hs
    intro l hl p hp
    cases hl
    obtain ⟨rest, hq⟩ : ∃ rest, q.base.internalQueue = p :: rest := List.head?_eq_some_iff.1 hp
    obtain ⟨ret', q₂, hd', hsame, -⟩ := dequeue_spec h hq clock
    rw [hd'] at hd
    cases hd
    exact hsame

theorem rep_base {packets bytes qdelayRef delta : Nat} {q : CELLULARPacketQueue} (h : ofArgs packets bytes qdelayRef delta = .ok q) :
    Rep q.base ∧ q.base.internalQueue = [] := by
  obtain ⟨base, hb, h⟩ := Run.bind_ok h
  obtain ⟨hrep, hempty, -⟩ := rep_ofArgs hb
  split at h
  · cases h
  · cases h; exact ⟨hrep, hempty⟩

end CELLULARPacketQueue

/-! ## All four -/

/-- Each discipline, from any limits its constructor accepts, over every sequence of calls made
with room in the byte counter and (but for the ABC router) never on an empty queue: no call fails,
the counters are those of the queue, the limits are met, and packets are conserved; what the ABC
router returns is the packet it popped, but for a mark. -/
theorem queues_keep_packets :
    (∀ packets bytes q ops, DroppingPacketQueue.ofArgs packets bytes = .ok q →
      Run.Along DropTailPacketQueue.step DropTailPacketQueue.Proper q ops →
      ∃ os q', Run.steps DropTailPacketQueue.step q ops = .ok (os, q') ∧
        Kept q' (ops.filterMap DropTailPacketQueue.Op.offered) os.reduceOption) ∧
    (∀ sqrtQuotient packets bytes target interval q ops,
      CODELPacketQueue.ofArgs packets bytes target interval = .ok q →
      Run.Along (CODELPacketQueue.step sqrtQuotient) CODELPacketQueue.Proper q ops →
      ∃ os q', Run.steps (CODELPacketQueue.step sqrtQuotient) q ops = .ok (os, q') ∧
        Kept q'.base (ops.filterMap CODELPacketQueue.Op.offered) os.reduceOption) ∧
    (∀ packets bytes qdelayRef maxBurst clock q ops,
      PIEPacketQueue.ofArgs packets bytes qdelayRef maxBurst clock = .ok q →
      Run.Along PIEPacketQueue.step PIEPacketQueue.Proper q ops →
      ∃ os q', Run.steps PIEPacketQueue.step q ops = .ok (os, q') ∧
        Kept q'.base (ops.filterMap PIEPacketQueue.Op.offered) os.reduceOption) ∧
    ∀ packets bytes qdelayRef delta q ops,
      CELLULARPacketQueue.ofArgs packets bytes qdelayRef delta = .ok q →
      Run.Along CELLULARPacketQueue.step CELLULARPacketQueue.Proper q ops →
      ∃ os q', Run.steps CELLULARPacketQueue.step q ops = .ok (os, q') ∧
        Kept q'.base (ops.filterMap CELLULARPacketQueue.Op.offered) (os.filterMap CELLULARPacketQueue.popped) ∧
        ∀ o ∈ os, CELLULARPacketQueue.Returns o := by
  refine ⟨fun packets bytes q ops h hG => ?_, fun sqrtQuotient packets bytes target interval q ops h hG => ?_,
    fun packets bytes qdelayRef maxBurst clock q ops h hG => ?_, fun packets bytes qdelayRef delta q ops h hG => ?_⟩
  · obtain ⟨hrep, hempty, -⟩ := rep_ofArgs h
    exact kept_run id DropTailPacketQueue.step_spec hrep hempty hG
  · obtain ⟨hrep, hempty⟩ := CODELPacketQueue.rep_base h
    exact kept_run CODELPacketQueue.base (CODELPacketQueue.step_spec sqrtQuotient) hrep hempty hG
  · obtain ⟨hrep, hempty⟩ := PIEPacketQueue.rep_base h
    exact kept_run PIEPacketQueue.base PIEPacketQueue.step_spec hrep hempty hG
  · obtain ⟨hrep, hempty⟩ := CELLULARPacketQueue.rep_base h
    obtain ⟨os, q', hrun, hkept⟩ :=
      kept_run CELLULARPacketQueue.base CELLULARPacketQueue.step_spec hrep hempty hG
    refine ⟨os, q', hrun, hkept, ?_⟩
    -- what the router returns is seen step by step, under the same invariant
    refine Run.steps_outputs (P := fun q => Rep q.base) (fun q op o q' hq hop hs => ⟨?_, ?_⟩) hrep hG hrun
    · obtain ⟨o₁, q₁, hs₁, hrep₁, -⟩ := CELLULARPacketQueue.step_spec q op hq hop
      rw [hs₁] at hs; cases hs; exact hrep₁
    · exact CELLULARPacketQueue.step_returns hq hs

section

open CELLULARPacketQueue (bareEct small)

instance (q : DroppingPacketQueue) (p : QueuedPacket) : Decidable (Room q p) := inferInstanceAs (Decidable (_ ∧ _))

instance (q : DroppingPacketQueue) : ∀ op, Decidable (DropTailPacketQueue.Proper q op)
  | .enqueue p => inferInstanceAs (Decidable (Room q p))
  | .dequeue => inferInstanceAs (Decidable (q.empty = false))

instance (q : CODELPacketQueue) : ∀ op, Decidable (CODELPacketQueue.Proper q op)
  | .enqueue p => inferInstanceAs (Decidable (Room q.base p))
  | .dequeue _ => inferInstanceAs (Decidable (q.base.empty = false))

instance (q : PIEPacketQueue) : ∀ op, Decidable (PIEPacketQueue.Proper q op)
  | .enqueue p _ _ => inferInstanceAs (Decidable (Room q.base p))
  | .dequeue _ _ => inferInstanceAs (Decidable (q.base.empty = false))

instance (q : CELLULARPacketQueue) : ∀ op, Decidable (CELLULARPacketQueue.Proper q op)
  | .enqueue p => inferInstanceAs (Decidable (Room q.base p))
  | .dequeue _ => inferInstanceAs (Decidable True)

/-- The packet that comes after it. -/
def nextEct : QueuedPacket := { bareEct with arrivalTime := 1 }

/-- Two packets arrive, and one of them leaves: the other one has been dropped for want of room, or is still there. -/
theorem queues_keep_packets_small :
    (∃ os q', Run.steps DropTailPacketQueue.step { packetLimit := 1, byteLimit := 0 }
        [.enqueue bareEct, .enqueue nextEct, .dequeue] = .ok (os, q') ∧
      os.reduceOption = [bareEct] ∧ Kept q' [bareEct, nextEct] os.reduceOption) ∧
    (∃ os q', Run.steps (CODELPacketQueue.step fun interval _ => interval)
        { base := { packetLimit := 2, byteLimit := 0 }, target := 5, interval := 100 }
        [.enqueue bareEct, .enqueue nextEct, .dequeue 7] = .ok (os, q') ∧
      os.reduceOption = [bareEct] ∧ Kept q'.base [bareEct, nextEct] os.reduceOption) ∧
    (∃ os q', Run.steps PIEPacketQueue.step
        { base := { packetLimit := 1, byteLimit := 0 }, qdelayRef := 20, maxBurst := 100, lastUpdate := 0 }
        [.enqueue bareEct 1 0, .enqueue nextEct 1 0, .dequeue 2 2] = .ok (os, q') ∧
      os.reduceOption = [bareEct] ∧ Kept q'.base [bareEct, nextEct] os.reduceOption) ∧
    ∃ os q', Run.steps CELLULARPacketQueue.step small
        [.dequeue 3, .enqueue bareEct, .enqueue nextEct, .dequeue 30] = .ok (os, q') ∧
      os.filterMap CELLULARPacketQueue.popped = [bareEct] ∧
      Kept q'.base [bareEct, nextEct] (os.filterMap CELLULARPacketQueue.popped) ∧
      ∀ o ∈ os, CELLULARPacketQueue.Returns o := by
  refine ⟨?_, ?_, ?_, ?_⟩
  · obtain ⟨os, q', hrun, hkept⟩ := queues_keep_packets.1 1 0 _ [.enqueue bareEct, .enqueue nextEct, .dequeue] rfl
      (Run.along_of_check (fun _ _ => of_decide_eq_true) (by decide +kernel))
    exact ⟨os, q', hrun, Run.value_of_map (fun r => r.1.reduceOption) hrun (by decide +kernel), hkept⟩
  · obtain ⟨os, q', hrun, hkept⟩ := queues_keep_packets.2.1 (fun interval _ => interval) 2 0 5 100 _
      [.enqueue bareEct, .enqueue nextEct, .dequeue 7] rfl
      (Run.along_of_check (fun _ _ => of_decide_eq_true) (by decide +kernel))
    exact ⟨os, q', hrun, Run.value_of_map (fun r => r.1.reduceOption) hrun (by decide +kernel), hkept⟩
  · obtain ⟨os, q', hrun, hkept⟩ := queues_keep_packets.2.2.1 1 0 20 100 0 _
      [.enqueue bareEct 1 0, .enqueue nextEct 1 0, .dequeue 2 2] rfl
      (Run.along_of_check (fun _ _ => of_decide_eq_true) (by decide +kernel))
    exact ⟨os, q', hrun, Run.value_of_map (fun r => r.1.reduceOption) hrun (by decide +kernel), hkept⟩
  · obtain ⟨os, q', hrun, hkept, hreturns⟩ := queues_keep_packets.2.2.2 10 0 50 100 _
      [.dequeue 3, .enqueue bareEct, .enqueue nextEct, .dequeue 30] rfl
      (Run.along_of_check (fun _ _ => of_decide_eq_true) (by decide +kernel))
    exact ⟨os, q', hrun, Run.value_of_map (fun r => r.1.filterMap CELLULARPacketQueue.popped) hrun (by decide +kernel), hkept,
      hreturns⟩

end

end AbcMahimahi.Packet
