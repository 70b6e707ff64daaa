/-
`PIEPacketQueue` (pie_packet_queue.cc): drop at random on enqueue, with a probability that is
updated once for each period missed since the last call. Doubles are exact rationals; the random
draws and the readings of the clock are arguments.
-/
import AbcMahimahi.Packet.Dropping

namespace AbcMahimahi.Packet

open Bytes

structure PIEPacketQueue where
  base : DroppingPacketQueue
  qdelayRef : Nat
  maxBurst : Nat
  alpha : ℚ := 0.125
  beta : ℚ := 1.25
  tUpdate : Nat := 30
  dqThreshold : Nat := 16384
  dropProb : ℚ := 0
  burstAllowance : Nat := 0
  qdelayOld : Nat := 0
  currentQdelay : Nat := 0
  dqCount : Nat := 2 ^ 32 - 1
  dqTstamp : Nat := 0
  avgDqRate : Nat := 0
  lastUpdate : Nat

namespace PIEPacketQueue

def packetSize : Nat := 1504

/-- `DQ_COUNT_INVALID`. -/
def dqCountInvalid : Nat := 2 ^ 32 - 1

/-- The constructor, from the values `get_arg` reads, at the time `clock`. -/
def ofArgs (packets bytes qdelayRef maxBurst clock : Nat) : Except Fault PIEPacketQueue := do
  let base ← DroppingPacketQueue.ofArgs packets bytes
  if qdelayRef = 0 ∨ maxBurst = 0 then
    throw (.runtimeError (ascii "PIE AQM queue must have qdelay_ref and max_burst parameters"))
  else
    pure { base := base, qdelayRef := qdelayRef, maxBurst := maxBurst, lastUpdate := clock }

/-! ## The drop probability -/

/-- The step the controller takes: scaled down while the probability is small. -/
def probStep (q : PIEPacketQueue) : ℚ :=
  let p := q.alpha * cInt (sub32 q.currentQdelay q.qdelayRef) + q.beta * cInt (sub32 q.currentQdelay q.qdelayOld)
  if q.dropProb < 0.01 then p / 128 else if q.dropProb < 0.1 then p / 32 else p / 16

/-- One turn of the loop of `calculate_drop_prob`, with `bytes` in the queue. -/
def updateDropProb (q : PIEPacketQueue) (bytes : Nat) : PIEPacketQueue :=
  let q := { q with
    qdelayOld := q.currentQdelay
    currentQdelay := if q.avgDqRate > 0 then bytes / q.avgDqRate else 0 }
  let p := q.dropProb + q.probStep
  let updateProb := !(decide (q.currentQdelay = 0 ∧ bytes ≠ 0) || decide (p > 1))
  let p := if p < 0 then 0 else if p > 1 then 1 else p
  let q := { q with
    dropProb := if q.currentQdelay = 0 ∧ q.qdelayOld = 0 ∧ updateProb then p * 0.98 else p
    burstAllowance := (max 0 (cInt q.burstAllowance - q.tUpdate)).toNat
    lastUpdate := u64 (q.lastUpdate + q.tUpdate) }
  if q.dropProb = 0 ∧ q.currentQdelay < q.qdelayRef / 2 ∧ q.qdelayOld < q.qdelayRef / 2 ∧ q.avgDqRate > 0 then
    { q with dqCount := dqCountInvalid, avgDqRate := 0, burstAllowance := q.maxBurst }
  else q

/-- The loop of `calculate_drop_prob`. A turn takes `t_update_` off `now - last_update_`, so that
difference is more than the number of turns. -/
def dropProbLoop (now bytes : Nat) : Nat → PIEPacketQueue → PIEPacketQueue
  | 0, q => q
  | turns + 1, q =>
    if sub64 now q.lastUpdate > q.tUpdate then dropProbLoop now bytes turns (q.updateDropProb bytes) else q

def calculateDropProb (q : PIEPacketQueue) (now : Nat) : Except Fault PIEPacketQueue := do
  pure (dropProbLoop now (← q.base.sizeBytes) (sub64 now q.lastUpdate) q)

/-! ## The calls -/

/-- Should the packet be dropped? `draw` is what the generator returns if it is asked. -/
def dropEarly (q : PIEPacketQueue) (draw : ℚ) : Except Fault Bool := do
  if q.burstAllowance > 0 then pure false
  else if q.qdelayOld < q.qdelayRef / 2 ∧ q.dropProb < 0.2 then pure false
  else if (← q.base.sizeBytes) < 2 * packetSize then pure false
  else pure (draw < q.dropProb)

def enqueue (q : PIEPacketQueue) (p : QueuedPacket) (clock : Nat) (draw : ℚ) : Except Fault PIEPacketQueue := do
  let q ← q.calculateDropProb clock
  if !(← q.base.goodWithPacket p) then
    -- internal queue is full: the packet is dropped
    pure q
  else
    let q := if ← q.dropEarly draw then q else { q with base := q.base.accept p }
    check "good()" (← q.base.good)
    pure q

/-- The measurement `dequeue` makes of the departure rate, with `bytes` left in the queue and a
packet of `size` bytes gone. -/
def measure (q : PIEPacketQueue) (now bytes size : Nat) : PIEPacketQueue :=
  let q := if bytes ≥ q.dqThreshold ∧ q.dqCount = dqCountInvalid then { q with dqTstamp := now, dqCount := 0 } else q
  if q.dqCount ≠ dqCountInvalid then
    let q := { q with dqCount := u32 (q.dqCount + size) }
    let dtime := sub32 now q.dqTstamp
    if q.dqCount > q.dqThreshold ∧ dtime > 0 then
      let rateSample := q.dqCount / dtime
      let q := { q with
        avgDqRate :=
          if q.avgDqRate = 0 then rateSample else u32 (q.avgDqRate - q.avgDqRate / 8 + rateSample / 8) }
      let q := if bytes < q.dqThreshold then { q with dqCount := dqCountInvalid } else { q with dqCount := 0, dqTstamp := now }
      { q with burstAllowance := if q.burstAllowance > dtime then q.burstAllowance - dtime else 0 }
    else q
  else q

/-- `dequeue`; the clock is read once for the measurement and again for the probability. -/
def dequeue (q : PIEPacketQueue) (clock clock' : Nat) : Except Fault (QueuedPacket × PIEPacketQueue) := do
  let (ret, base) ← q.base.dequeue
  let q := { q with base := base }
  let q := q.measure (u32 clock) (← q.base.sizeBytes) ret.contents.length
  let q ← q.calculateDropProb clock'
  pure (ret, q)

/-- A call on the queue, with what it reads from the clock and the generator. -/
inductive Op where
  | enqueue (p : QueuedPacket) (clock : Nat) (draw : ℚ)
  | dequeue (clock clock' : Nat)
  deriving DecidableEq

/-- One call and the packet it returns. -/
def step (q : PIEPacketQueue) : Op → Except Fault (Option QueuedPacket × PIEPacketQueue)
  | .enqueue p clock draw => do pure (none, ← q.enqueue p clock draw)
  | .dequeue clock clock' => do
    let (ret, q') ← q.dequeue clock clock'
    pure (some ret, q')

/-! ## What the calls do to the queue underneath -/

open DroppingPacketQueue

section

variable {q : PIEPacketQueue} {p : QueuedPacket} {rest : List QueuedPacket}

theorem dropProbLoop_base (now bytes : Nat) : ∀ (turns : Nat) (q : PIEPacketQueue),
    (dropProbLoop now bytes turns q).base = q.base
  | 0, _ => rfl
  | turns + 1, q => by
    have hturn : (q.updateDropProb bytes).base = q.base := by
      unfold updateDropProb
      simp only [apply_ite PIEPacketQueue.base, ite_self]
    unfold dropProbLoop
    split
    · rw [dropProbLoop_base now bytes turns, hturn]
    · rfl

/-- Updating the probability leaves the queue alone and cannot fail on a represented queue. -/
theorem calculateDropProb_spec (h : Rep q.base) (now : Nat) :
    ∃ q', q.calculateDropProb now = .ok q' ∧ q'.base = q.base := by
  unfold calculateDropProb
  rw [h.sizeBytes]
  exact ⟨_, rfl, dropProbLoop_base _ _ _ _⟩

theorem dropEarly_spec (h : Rep q.base) (draw : ℚ) : ∃ b, q.dropEarly draw = .ok b := by
  unfold dropEarly
  rw [h.sizeBytes, Run.ok_bind]
  split
  · exact ⟨_, rfl⟩
  · split
    · exact ⟨_, rfl⟩
    · split <;> exact ⟨_, rfl⟩

theorem measure_base (q : PIEPacketQueue) (now bytes size : Nat) : (q.measure now bytes size).base = q.base := by
  unfold measure
  simp only [apply_ite PIEPacketQueue.base, ite_self]

/-- `enqueue` keeps the packet or refuses it, as a whole. -/
theorem enqueue_spec (h : Rep q.base) (hroom : Room q.base p) (clock : Nat) (draw : ℚ) :
    ∃ q', q.enqueue p clock draw = .ok q' ∧ Rep q'.base ∧
      LossyFifo.Step q.base.internalQueue (some p) none q'.base.internalQueue := by
  obtain ⟨q₁, h1, hbase⟩ := calculateDropProb_spec h clock
  rw [← hbase] at h hroom ⊢
  obtain ⟨g, hg, hrep⟩ := h.accept_of_good hroom
  obtain ⟨b, hb⟩ := dropEarly_spec h draw
  unfold enqueue
  rw [h1, Run.ok_bind, hg, Run.ok_bind]
  cases g with
  | false => exact ⟨q₁, rfl, h, .refuse _ _⟩
  | true =>
    rw [if_neg (by decide), hb, Run.ok_bind]
    cases b with
    | true =>
      refine ⟨q₁, ?_, h, .refuse _ _⟩
      rw [if_pos rfl]
      dsimp only
      rw [h.good]; rfl
    | false =>
      refine ⟨{ q₁ with base := q₁.base.accept p }, ?_, hrep rfl, .keep _ _⟩
      rw [if_neg Bool.false_ne_true]
      dsimp only
      rw [(hrep rfl).good]; rfl

/-- `dequeue` returns the head. -/
theorem dequeue_spec (h : Rep q.base) (hq : q.base.internalQueue = p :: rest) (clock clock' : Nat) :
    ∃ q', q.dequeue clock clock' = .ok (p, q') ∧ Rep q'.base ∧
      LossyFifo.Step q.base.internalQueue none (some p) q'.base.internalQueue := by
  obtain ⟨base, hd, hrep, hrest⟩ := h.dequeue hq
  have hmeasure := measure_base { q with base := base } (u32 clock) (totalBytes base.internalQueue) p.contents.length
  obtain ⟨q', h1, hbase⟩ := calculateDropProb_spec (q := { q with base := base }.measure (u32 clock)
    (totalBytes base.internalQueue) p.contents.length) (by rw [hmeasure]; exact hrep) clock'
  rw [hmeasure] at hbase
  refine ⟨q', ?_, by rw [hbase]; exact hrep, ?_⟩
  · unfold dequeue
    rw [hd, Run.ok_bind]
    dsimp only
    rw [hrep.sizeBytes, Run.ok_bind, h1]; rfl
  · rw [hbase, hq, ← hrest]
    exact .take p [] _

end

end PIEPacketQueue

end AbcMahimahi.Packet
