/-
The averaging windows of RCP, XCP and VCP. A list of round-trip times (and in XCP one of queue sizes) loses
and gains a value whenever its window of times does, so the two stay equally long; pruning leaves every
window a time, and a window that was just added to has two; and no round-trip time, so no mean of them, is
below 100 unless one waits for so long that a sum wraps around. A call that is watched is the call.
-/
import AbcMahimahi.Packet.Averaging
import AbcMahimahi.Packet.Rcp
import AbcMahimahi.Packet.Vcp
import AbcMahimahi.Packet.Xcp

namespace AbcMahimahi.Packet

open Bytes

/-! ## RCP -/

namespace RCPPacketQueue

def enqueueWatched (q : RCPPacketQueue) (p : QueuedPacket) (clock : Nat) : Except Hazard RCPPacketQueue := do
  let now := u32 clock
  let eqQueue ← pruneWatched 100 now q.eqQueue
  let q := { q with eqQueue := eqQueue ++ [now] }
  let (_, base) ← watched (q.base.admission p)
  pure { q with base := base }

def opportunityWatched (q : RCPPacketQueue) (now : Nat) : Except Hazard RCPPacketQueue := do
  let realDqQueue ← pruneWatched 100 now q.realDqQueue
  let realDqQueueOurScheme ← pruneWatched 20 now q.realDqQueueOurScheme
  pure { q with
    realDqQueue := realDqQueue ++ [now]
    realDqQueueOurScheme := realDqQueueOurScheme ++ [now] }

def recordDequeueWatched (q : RCPPacketQueue) (now : Nat) (ret : QueuedPacket) : Except Hazard RCPPacketQueue := do
  let (dqQueue, rttAvg) ← pruneBothWatched q.avgRtt now q.dqQueue q.rttAvg
  pure { q with
    dqQueue := dqQueue ++ [now]
    rttAvg := rttAvg ++ [u32 (100 + sub64 now ret.arrivalTime)] }

def rcpRateWatched (q : RCPPacketQueue) (avgRtt sizePackets : Nat) : Except Hazard ℚ := do
  watched (check "avg_rtt >= 100" (100 ≤ avgRtt))
  watched (check "real_dq_queue.size() >= 2" (2 ≤ q.realDqQueue.length))
  let eta : ℚ := 0.95
  let realDqRate : ℚ := (1.0 * (q.realDqQueue.length - 1 : Nat)) / 100.0
  let eqRate : ℚ := (1.0 * (q.eqQueue.length - 1 : Nat)) / 100.0
  let gain ← divWatched 100.0 avgRtt
  let drain ← divWatched sizePackets (1.0 * avgRtt)
  let spare ← divWatched (q.alpha * (eta * realDqRate - eqRate) - q.beta * drain) (eta * realDqRate)
  pure (max 0.05 (q.targetRate * (1.0 + gain * spare)))

def ourRateWatched (q : RCPPacketQueue) (sizePackets : Nat) : Except Hazard ℚ := do
  watched (check "real_dq_queue_our_scheme.size() >= 2" (2 ≤ q.realDqQueueOurScheme.length))
  let realDqRate : ℚ := (1.0 * (q.realDqQueueOurScheme.length - 1 : Nat)) / 20.0
  let currentQdelay ← divWatched (sizePackets + 1 : Nat) ((q.realDqQueueOurScheme.length - 1 : Nat) / 20.0)
  let delta : ℚ := 100.0
  let share ← divWatched realDqRate delta
  pure (max 0.01 (0.98 * realDqRate + q.beta * share * min 0 (q.qdelayRef - currentQdelay)))

def updateRttWatched (q : RCPPacketQueue) (now sizePackets : Nat) : Except Hazard RCPPacketQueue :=
  if now > u32 (q.lastUpdate + 100) then do
    let avgRtt ← quotWatched (u32 q.rttAvg.sum) q.dqQueue.length
    let targetRate ← if q.mode = 3 then q.rcpRateWatched avgRtt sizePackets else pure q.targetRate
    pure { q with avgRtt := avgRtt, targetRate := targetRate, lastUpdate := now }
  else pure q

def updateRateWatched (q : RCPPacketQueue) (now sizePackets : Nat) : Except Hazard RCPPacketQueue := do
  let q ← q.updateRttWatched now sizePackets
  if q.mode = 1 then do
    let targetRate ← q.ourRateWatched sizePackets
    pure { q with targetRate := targetRate }
  else pure q

def leaveWatched (q : RCPPacketQueue) (now : Nat) : Except Hazard (QueuedPacket × RCPPacketQueue) := do
  let (ret, base) ← watched q.base.dequeue
  let q ← { q with base := base }.recordDequeueWatched now ret
  let sizePackets ← watched base.sizePackets
  let q ← q.updateRateWatched now sizePackets
  pure (ret, q)

def dequeueWatched (q : RCPPacketQueue) (clock : Nat) : Except Hazard (QueuedPacket × RCPPacketQueue) := do
  let now := u32 clock
  let q ← q.opportunityWatched now
  if (← watched q.base.sizePackets) = 0 then pure (⟨ascii "arbit", 0⟩, q)
  else do
    let (ret, q) ← q.leaveWatched now
    if ret.contents.length < 100 then pure (ret, q)
    else do
      let targetPkts ← toInt (q.targetRate * 1000)
      let contents ← rewrite targetPkts ret.contents
      pure ({ ret with contents := contents }, q)

/-- The round-trip times are as many as the times of the window. -/
structure Consistent (q : RCPPacketQueue) : Prop where
  lengths : q.dqQueue.length = q.rttAvg.length
  dq : q.dqQueue ≠ []
  rtts : ∀ e ∈ q.rttAvg, 100 ≤ e
  avgRtt : 100 ≤ q.avgRtt
  realDq : q.realDqQueue ≠ []
  ours : q.realDqQueueOurScheme ≠ []
  eq : q.eqQueue ≠ []

/-- The packet at the head has not waited for 2 ^ 32 ms less 100, and where the round-trip times are
averaged, their sum has 32 bits. -/
structure Fits (q : RCPPacketQueue) (clock : Nat) : Prop where
  waited : ∀ p rest, q.base.internalQueue = p :: rest → 100 + (clock - p.arrivalTime) < 2 ^ 32
  sum : ∀ p rest, q.base.internalQueue = p :: rest → clock > u32 (q.lastUpdate + 100) →
    (q.recordDequeue clock p).rttAvg.sum < 2 ^ 32

def stepWatched (q : RCPPacketQueue) : Call → Except Hazard (Option QueuedPacket × RCPPacketQueue)
  | .enqueue p clock => do
    let q ← q.enqueueWatched p clock
    pure (none, q)
  | .dequeue clock => do
    let (ret, q) ← q.dequeueWatched clock
    pure (some ret, q)

/-- The call of the queue. -/
def ofCall : Call → Op
  | .enqueue p clock => .enqueue p clock
  | .dequeue clock => .dequeue clock exactTarget

instance : AveragingQueue RCPPacketQueue where
  Initial q := ∃ packets bytes qdelayRef alpha beta mode, ofArgs packets bytes qdelayRef alpha beta mode = .ok q
  base q := q.base
  step q call := q.step (ofCall call)
  stepWatched := stepWatched
  Fits := Fits
  Consistent := Consistent

section

variable {q : RCPPacketQueue} {now sizePackets : Nat}

theorem opportunityWatched_ok (h : Consistent q) (now : Nat) : q.opportunityWatched now = .ok (q.opportunity now) := by
  unfold opportunityWatched
  rw [pruneWatched_ok h.realDq, Run.ok_bind, pruneWatched_ok h.ours]
  rfl

theorem Consistent.opportunity (h : Consistent q) (now : Nat) :
    Consistent (q.opportunity now) ∧ 2 ≤ (q.opportunity now).realDqQueue.length ∧
      2 ≤ (q.opportunity now).realDqQueueOurScheme.length := by
  have hreal : 2 ≤ (q.opportunity now).realDqQueue.length := two_le_recorded h.realDq
  have hours : 2 ≤ (q.opportunity now).realDqQueueOurScheme.length := two_le_recorded h.ours
  refine ⟨⟨h.lengths, h.dq, h.rtts, h.avgRtt, ?_, ?_, h.eq⟩, hreal, hours⟩
  · exact List.length_pos_iff.1 (by omega)
  · exact List.length_pos_iff.1 (by omega)

theorem recordDequeueWatched_ok (h : Consistent q) (now : Nat) (ret : QueuedPacket) :
    q.recordDequeueWatched now ret = .ok (q.recordDequeue now ret) := by
  unfold recordDequeueWatched
  rw [pruneBothWatched_ok h.dq h.lengths]
  rfl

theorem Consistent.recordDequeue (h : Consistent q) {ret : QueuedPacket} (hnow : now < 2 ^ 32) (harrival : ret.arrivalTime ≤ now)
    (hwaited : 100 + (now - ret.arrivalTime) < 2 ^ 32) : Consistent (q.recordDequeue now ret) := by
  refine ⟨length_recorded h.lengths _, ?_, le_recorded h.rtts (le_roundTrip hnow harrival hwaited), h.avgRtt, h.realDq, h.ours, h.eq⟩
  exact List.append_ne_nil_of_right_ne_nil _ (List.cons_ne_nil now [])

/-- The mean of the round-trip times. -/
theorem Consistent.mean (h : Consistent q) (hsum : q.rttAvg.sum < 2 ^ 32) : 100 ≤ u32 q.rttAvg.sum / q.dqQueue.length :=
  le_mean h.lengths (List.length_pos_iff.2 h.dq) h.rtts hsum

theorem rcpRateWatched_ok {avgRtt : Nat} (havg : 100 ≤ avgRtt) (hreal : 2 ≤ q.realDqQueue.length) (sizePackets : Nat) :
    q.rcpRateWatched avgRtt sizePackets = .ok (q.rcpRate avgRtt sizePackets) := by
  have hrtt : (avgRtt : ℚ) ≠ 0 := Nat.cast_ne_zero.2 (by omega)
  have hrtt' : (1.0 : ℚ) * avgRtt ≠ 0 := mul_ne_zero (by norm_num) hrtt
  have hlen : ((q.realDqQueue.length - 1 : Nat) : ℚ) ≠ 0 := Nat.cast_ne_zero.2 (by omega)
  have hrate : (0.95 : ℚ) * ((1.0 * (q.realDqQueue.length - 1 : Nat)) / 100.0) ≠ 0 :=
    mul_ne_zero (by norm_num) (div_ne_zero (mul_ne_zero (by norm_num) hlen) (by norm_num))
  unfold rcpRateWatched rcpRate
  rw [decide_eq_true havg, decide_eq_true hreal, if_neg (by omega), check_true, check_true, watched_ok, Run.ok_bind, Run.ok_bind]
  dsimp only
  rw [divWatched_ok hrtt, Run.ok_bind, divWatched_ok hrtt', Run.ok_bind, divWatched_ok hrate, Run.ok_bind]
  rfl

theorem ourRateWatched_ok (hours : 2 ≤ q.realDqQueueOurScheme.length) (sizePackets : Nat) :
    q.ourRateWatched sizePackets = .ok (q.ourRate sizePackets) := by
  have hlen : ((q.realDqQueueOurScheme.length - 1 : Nat) : ℚ) / 20.0 ≠ 0 :=
    div_ne_zero (Nat.cast_ne_zero.2 (by omega)) (by norm_num)
  unfold ourRateWatched ourRate
  rw [decide_eq_true hours, check_true, watched_ok, Run.ok_bind]
  dsimp only
  rw [divWatched_ok hlen, Run.ok_bind, divWatched_ok (by norm_num), Run.ok_bind]
  rfl

theorem updateRttWatched_ok (h : Consistent q) (hreal : 2 ≤ q.realDqQueue.length)
    (hsum : now > u32 (q.lastUpdate + 100) → q.rttAvg.sum < 2 ^ 32) (sizePackets : Nat) :
    q.updateRttWatched now sizePackets = .ok (q.updateRtt now sizePackets) ∧ Consistent (q.updateRtt now sizePackets) := by
  unfold updateRttWatched updateRtt
  split
  · rename_i hdue
    have hmean := h.mean (hsum hdue)
    have hlen : q.dqQueue.length ≠ 0 := fun hzero => h.dq (List.length_eq_zero_iff.1 hzero)
    rw [quotWatched_ok hlen, Run.ok_bind, rcpRateWatched_ok hmean hreal]
    refine ⟨?_, h.lengths, h.dq, h.rtts, hmean, h.realDq, h.ours, h.eq⟩
    split <;> rfl
  · exact ⟨rfl, h⟩

theorem updateRtt_ours (q : RCPPacketQueue) (now sizePackets : Nat) :
    (q.updateRtt now sizePackets).realDqQueueOurScheme = q.realDqQueueOurScheme := by
  unfold updateRtt
  split <;> rfl

theorem updateRateWatched_ok (h : Consistent q) (hreal : 2 ≤ q.realDqQueue.length) (hours : 2 ≤ q.realDqQueueOurScheme.length)
    (hsum : now > u32 (q.lastUpdate + 100) → q.rttAvg.sum < 2 ^ 32) (sizePackets : Nat) :
    q.updateRateWatched now sizePackets = .ok (q.updateRate now sizePackets) ∧ Consistent (q.updateRate now sizePackets) := by
  obtain ⟨hrtt, hconsistent⟩ := updateRttWatched_ok h hreal hsum sizePackets
  have hours' : 2 ≤ (q.updateRtt now sizePackets).realDqQueueOurScheme.length := by
    rw [updateRtt_ours]
    exact hours
  unfold updateRateWatched updateRate
  rw [hrtt, Run.ok_bind, ourRateWatched_ok hours']
  generalize q.updateRtt now sizePackets = q' at hconsistent
  dsimp only
  split
  · exact ⟨rfl, hconsistent.lengths, hconsistent.dq, hconsistent.rtts, hconsistent.avgRtt, hconsistent.realDq, hconsistent.ours,
      hconsistent.eq⟩
  · exact ⟨rfl, hconsistent⟩

theorem Consistent.base (h : Consistent q) (base : DroppingPacketQueue) : Consistent { q with base := base } :=
  ⟨h.lengths, h.dq, h.rtts, h.avgRtt, h.realDq, h.ours, h.eq⟩

theorem leaveWatched_ok {last : Nat} (h : Consistent q) (hreal : 2 ≤ q.realDqQueue.length)
    (hours : 2 ≤ q.realDqQueueOurScheme.length) (hpast : Past last q.base) (hle : last ≤ now) (hnow : now < 2 ^ 32)
    (hfits : Fits q now) :
    q.leaveWatched now = watched (q.leave now) ∧ ∀ ret q', q.leave now = .ok (ret, q') → Settled now q' := by
  unfold leaveWatched leave
  -- an empty internal queue throws in either, before a window is read
  cases hd : q.base.dequeue with
  | error e => exact ⟨rfl, fun ret q' h => by cases h⟩
  | ok popped =>
    obtain ⟨p, base⟩ := popped
    obtain ⟨harrival, hpast'⟩ := hpast.dequeue hle hd
    have hqueue := (DroppingPacketQueue.dequeue_ok hd).1
    have hrecorded := (h.base base).recordDequeue hnow harrival (hfits.waited p _ hqueue)
    rw [watched_ok, Run.ok_bind, Run.ok_bind]
    dsimp only
    rw [recordDequeueWatched_ok (h.base base), Run.ok_bind]
    cases base.sizePackets with
    | error e => exact ⟨rfl, fun ret q' h => by cases h⟩
    | ok sizePackets =>
      obtain ⟨hrate, hconsistent⟩ := updateRateWatched_ok hrecorded hreal hours (hfits.sum p _ hqueue) sizePackets
      rw [watched_ok, Run.ok_bind, Run.ok_bind, hrate]
      refine ⟨rfl, fun ret q' h => ?_⟩
      cases h
      refine ⟨hconsistent, ?_⟩
      show Past now (RCPPacketQueue.base _)
      rw [updateRate_base]
      exact hpast'

theorem enqueueWatched_ok {last clock : Nat} {p : QueuedPacket} (h : Consistent q) (hpast : Past last q.base)
    (htimed : (Call.enqueue p clock).Timed last) :
    q.enqueueWatched p clock = watched (q.enqueue p clock) ∧ ∀ q', q.enqueue p clock = .ok q' → Settled clock q' := by
  have hclock : u32 clock = clock := u32_eq htimed.fits
  unfold enqueueWatched enqueue
  rw [hclock]
  dsimp only
  rw [pruneWatched_ok h.eq, Run.ok_bind]
  cases ha : q.base.admission p with
  | error e => exact ⟨rfl, fun q' h => by cases h⟩
  | ok admitted =>
    refine ⟨rfl, fun q' hs => ?_⟩
    cases hs
    refine ⟨⟨h.lengths, h.dq, h.rtts, h.avgRtt, h.realDq, h.ours, ?_⟩, ?_⟩
    · exact List.append_ne_nil_of_right_ne_nil _ (List.cons_ne_nil clock [])
    · exact hpast.admission htimed.later (htimed.arrival p clock rfl) ha

theorem dequeueWatched_ok {last clock : Nat} (h : Consistent q) (hpast : Past last q.base) (hle : last ≤ clock)
    (hnow : clock < 2 ^ 32) (hfits : Fits q clock) :
    q.dequeueWatched clock = q.dequeue clock ∧ ∀ ret q', q.dequeue clock = .ok (ret, q') → Settled clock q' := by
  obtain ⟨hopportunity, hreal, hours⟩ := h.opportunity clock
  obtain ⟨hleave, hleft⟩ := leaveWatched_ok hopportunity hreal hours hpast hle hnow ⟨hfits.waited, hfits.sum⟩
  unfold dequeueWatched dequeue dequeueWith exactTarget
  rw [u32_eq hnow]
  dsimp only
  rw [opportunityWatched_ok h, Run.ok_bind, hleave]
  refine ⟨rfl, fun ret q' hd => ?_⟩
  obtain ⟨n, -, hd⟩ := Run.bind_ok hd
  -- nothing leaves, so the windows are those of the opportunity
  split at hd
  · cases hd
    exact ⟨hopportunity, fun p hp => (hpast p hp).trans hle⟩
  · obtain ⟨⟨p, q₂⟩, hl, hd⟩ := Run.bind_ok hd
    have hsettled := hleft p q₂ (watched_eq_ok hl)
    dsimp only at hd
    split at hd
    · cases hd
      exact hsettled
    · obtain ⟨v, -, hd⟩ := Run.bind_ok hd
      obtain ⟨c, -, hd⟩ := Run.bind_ok hd
      cases hd
      exact hsettled

theorem steps : Steps RCPPacketQueue := by
  rintro last q call ⟨h, hpast⟩ htimed hfits
  cases call with
  | enqueue p clock =>
    obtain ⟨hwatched, hok⟩ := enqueueWatched_ok h hpast htimed
    exact enqueue_step hwatched hok
  | dequeue clock =>
    obtain ⟨hwatched, hok⟩ := dequeueWatched_ok h hpast htimed.later htimed.fits hfits
    exact dequeue_step hwatched hok

theorem staysConsistent : StaysConsistent RCPPacketQueue := by
  rintro q₀ calls ⟨packets, bytes, qdelayRef, alpha, beta, mode, hq₀⟩ htimed halong
  obtain ⟨base, hbase, hq₀⟩ := Run.bind_ok hq₀
  split at hq₀
  · cases hq₀
  · cases hq₀
    refine run_settled steps ⟨⟨rfl, List.cons_ne_nil 0 [], ?_, le_rfl, List.cons_ne_nil 0 [], List.cons_ne_nil 0 [],
      List.cons_ne_nil 0 []⟩, past_ofArgs hbase⟩ htimed halong
    rintro e he
    rw [List.mem_singleton.1 he]

end

end RCPPacketQueue

/-! ## XCP -/

namespace XCPPacketQueue

def enqueueWatched (q : XCPPacketQueue) (p : QueuedPacket) (clock : Nat) : Except Hazard XCPPacketQueue := do
  let now := u32 clock
  let eqQueue ← pruneWatched q.avgRtt now q.eqQueue
  let q := { q with eqQueue := eqQueue ++ [now] }
  let (_, base) ← watched (q.base.admission p)
  pure { q with base := base }

def opportunityWatched (q : XCPPacketQueue) (now : Nat) : Except Hazard XCPPacketQueue := do
  let realDqQueue ← pruneWatched q.avgRtt now q.realDqQueue
  pure { q with realDqQueue := realDqQueue ++ [now] }

def recordDequeueWatched (q : XCPPacketQueue) (now : Nat) (ret : QueuedPacket) (sizePackets : Nat) :
    Except Hazard XCPPacketQueue := do
  let (dqQueue, rttAvg) ← pruneBothWatched q.avgRtt now q.dqQueue q.rttAvg
  let (dqQueue2, qsizeAvg) ← pruneBothWatched 100 now q.dqQueue2 q.qsizeAvg
  pure { q with
    dqQueue := dqQueue ++ [now]
    dqQueue2 := dqQueue2 ++ [now]
    rttAvg := rttAvg ++ [u32 (100 + sub64 now ret.arrivalTime)]
    qsizeAvg := qsizeAvg ++ [sizePackets] }

def updateEtaWatched (q : XCPPacketQueue) : Except Hazard XCPPacketQueue := do
  let avgRtt ← quotWatched (u32 q.rttAvg.sum) q.dqQueue.length
  let first ← readWatched q.qsizeAvg.head?
  let avgQsize := q.qsizeAvg.foldl min first
  watched (check "avg_rtt >= 100" (100 ≤ avgRtt))
  watched (check "real_dq_queue.size() >= 2" (2 ≤ q.realDqQueue.length))
  let delta : ℚ := avgRtt
  let realDqRate ← divWatched (1.0 * (q.realDqQueue.length - 1 : Nat)) avgRtt
  let eqRate ← divWatched (1.0 * (q.eqQueue.length - 1 : Nat)) avgRtt
  let phi := q.alpha * delta * (realDqRate - eqRate) - q.beta * avgQsize
  let eta ← divWatched phi q.dqQueue.length
  pure { q with avgRtt := avgRtt, avgQsize := avgQsize, eta := some eta }

def leaveWatched (q : XCPPacketQueue) (now : Nat) : Except Hazard (QueuedPacket × XCPPacketQueue) := do
  let (ret, base) ← watched q.base.dequeue
  let sizePackets ← watched base.sizePackets
  let q ← { q with base := base }.recordDequeueWatched now ret sizePackets
  let q ← q.updateEtaWatched
  pure (ret, q)

def dequeueWatched (q : XCPPacketQueue) (clock : Nat) : Except Hazard (QueuedPacket × XCPPacketQueue) := do
  let now := u32 clock
  let q ← q.opportunityWatched now
  if (← watched q.base.sizePackets) = 0 then pure (⟨ascii "arbit", 0⟩, q)
  else do
    let (ret, q) ← q.leaveWatched now
    if ret.contents.length < 300 then pure (ret, q)
    else do
      let targetPkts ← q.feedback
      let contents ← rewrite (min targetPkts (decode ret.contents)) ret.contents
      pure ({ ret with contents := contents }, q)

/-- The round-trip times and the queue sizes are as many as the times of their windows. -/
structure Consistent (q : XCPPacketQueue) : Prop where
  lengths : q.dqQueue.length = q.rttAvg.length
  lengths2 : q.dqQueue2.length = q.qsizeAvg.length
  dq : q.dqQueue ≠ []
  dq2 : q.dqQueue2 ≠ []
  rtts : ∀ e ∈ q.rttAvg, 100 ≤ e
  avgRtt : 100 ≤ q.avgRtt
  realDq : q.realDqQueue ≠ []
  eq : q.eqQueue ≠ []

/-- The packet at the head has not waited for 2 ^ 32 ms less 100, and the sum of the round-trip times has
32 bits. -/
structure Fits (q : XCPPacketQueue) (clock : Nat) : Prop where
  waited : ∀ p rest, q.base.internalQueue = p :: rest → 100 + (clock - p.arrivalTime) < 2 ^ 32
  sum : ∀ p rest, q.base.internalQueue = p :: rest → (q.recordDequeue clock p rest.length).rttAvg.sum < 2 ^ 32

def stepWatched (q : XCPPacketQueue) : Call → Except Hazard (Option QueuedPacket × XCPPacketQueue)
  | .enqueue p clock => do
    let q ← q.enqueueWatched p clock
    pure (none, q)
  | .dequeue clock => do
    let (ret, q) ← q.dequeueWatched clock
    pure (some ret, q)

/-- The call of the queue. -/
def ofCall : Call → Op
  | .enqueue p clock => .enqueue p clock
  | .dequeue clock => .dequeue clock

instance : AveragingQueue XCPPacketQueue where
  Initial q := ∃ packets bytes alpha beta, ofArgs packets bytes alpha beta = .ok q
  base q := q.base
  step q call := q.step (ofCall call)
  stepWatched := stepWatched
  Fits := Fits
  Consistent := Consistent

section

variable {q : XCPPacketQueue} {now : Nat}

theorem opportunityWatched_ok (h : Consistent q) (now : Nat) : q.opportunityWatched now = .ok (q.opportunity now) := by
  unfold opportunityWatched
  rw [pruneWatched_ok h.realDq]
  rfl

theorem Consistent.opportunity (h : Consistent q) (now : Nat) :
    Consistent (q.opportunity now) ∧ 2 ≤ (q.opportunity now).realDqQueue.length := by
  have hreal : 2 ≤ (q.opportunity now).realDqQueue.length := two_le_recorded h.realDq
  refine ⟨⟨h.lengths, h.lengths2, h.dq, h.dq2, h.rtts, h.avgRtt, ?_, h.eq⟩, hreal⟩
  exact List.length_pos_iff.1 (by omega)

theorem recordDequeueWatched_ok (h : Consistent q) (now : Nat) (ret : QueuedPacket) (sizePackets : Nat) :
    q.recordDequeueWatched now ret sizePackets = .ok (q.recordDequeue now ret sizePackets) := by
  unfold recordDequeueWatched
  rw [pruneBothWatched_ok h.dq h.lengths, Run.ok_bind]
  dsimp only
  rw [pruneBothWatched_ok h.dq2 h.lengths2]
  rfl

theorem Consistent.recordDequeue (h : Consistent q) {ret : QueuedPacket} (hnow : now < 2 ^ 32) (harrival : ret.arrivalTime ≤ now)
    (hwaited : 100 + (now - ret.arrivalTime) < 2 ^ 32) (sizePackets : Nat) :
    Consistent (q.recordDequeue now ret sizePackets) := by
  have hne : ∀ kept : List Nat, kept ++ [now] ≠ [] := fun kept =>
    List.append_ne_nil_of_right_ne_nil kept (List.cons_ne_nil now [])
  exact ⟨length_recorded h.lengths _, length_recorded h.lengths2 _, hne _, hne _,
    le_recorded h.rtts (le_roundTrip hnow harrival hwaited), h.avgRtt, h.realDq, h.eq⟩

theorem updateEtaWatched_ok (h : Consistent q) (hreal : 2 ≤ q.realDqQueue.length) (hsum : q.rttAvg.sum < 2 ^ 32) :
    q.updateEtaWatched = .ok q.updateEta ∧ Consistent q.updateEta := by
  have hlen : q.dqQueue.length ≠ 0 := fun hzero => h.dq (List.length_eq_zero_iff.1 hzero)
  have hmean : 100 ≤ u32 q.rttAvg.sum / q.dqQueue.length :=
    le_mean h.lengths (Nat.pos_of_ne_zero hlen) h.rtts hsum
  have hrtt : ((u32 q.rttAvg.sum / q.dqQueue.length : Nat) : ℚ) ≠ 0 := Nat.cast_ne_zero.2 (by omega)
  have hsize : (q.dqQueue.length : ℚ) ≠ 0 := Nat.cast_ne_zero.2 hlen
  have hhead : q.qsizeAvg.head? = some (q.qsizeAvg.headD 0) := by
    cases hq : q.qsizeAvg with
    | nil =>
      have hlengths := h.lengths2
      rw [hq] at hlengths
      exact absurd (List.length_eq_zero_iff.1 hlengths) h.dq2
    | cons first rest => rfl
  refine ⟨?_, h.lengths, h.lengths2, h.dq, h.dq2, h.rtts, hmean, h.realDq, h.eq⟩
  unfold updateEtaWatched updateEta
  rw [quotWatched_ok hlen, Run.ok_bind, hhead, readWatched, Run.ok_bind]
  dsimp only
  rw [decide_eq_true hmean, decide_eq_true hreal, check_true, check_true, watched_ok, Run.ok_bind, Run.ok_bind,
    divWatched_ok hrtt, Run.ok_bind, divWatched_ok hrtt, Run.ok_bind, divWatched_ok hsize, Run.ok_bind, if_neg (by omega)]
  rfl

theorem Consistent.base (h : Consistent q) (base : DroppingPacketQueue) : Consistent { q with base := base } :=
  ⟨h.lengths, h.lengths2, h.dq, h.dq2, h.rtts, h.avgRtt, h.realDq, h.eq⟩

theorem leaveWatched_ok {last : Nat} (h : Consistent q) (hreal : 2 ≤ q.realDqQueue.length) (hpast : Past last q.base)
    (hle : last ≤ now) (hnow : now < 2 ^ 32) (hfits : Fits q now) :
    q.leaveWatched now = watched (q.leave now) ∧ ∀ ret q', q.leave now = .ok (ret, q') → Settled now q' := by
  unfold leaveWatched leave
  cases hd : q.base.dequeue with
  | error e => exact ⟨rfl, fun ret q' h => by cases h⟩
  | ok popped =>
    obtain ⟨p, base⟩ := popped
    obtain ⟨harrival, hpast'⟩ := hpast.dequeue hle hd
    have hqueue := (DroppingPacketQueue.dequeue_ok hd).1
    rw [watched_ok, Run.ok_bind, Run.ok_bind]
    dsimp only
    cases base.sizePackets with
    | error e => exact ⟨rfl, fun ret q' h => by cases h⟩
    | ok sizePackets =>
      have hrecorded := (h.base base).recordDequeue hnow harrival (hfits.waited p _ hqueue) sizePackets
      obtain ⟨heta, hconsistent⟩ := updateEtaWatched_ok hrecorded hreal (hfits.sum p _ hqueue)
      rw [watched_ok, Run.ok_bind, Run.ok_bind, recordDequeueWatched_ok (h.base base), Run.ok_bind, heta]
      refine ⟨rfl, fun ret q' h => ?_⟩
      cases h
      exact ⟨hconsistent, hpast'⟩

theorem enqueueWatched_ok {last clock : Nat} {p : QueuedPacket} (h : Consistent q) (hpast : Past last q.base)
    (htimed : (Call.enqueue p clock).Timed last) :
    q.enqueueWatched p clock = watched (q.enqueue p clock) ∧ ∀ q', q.enqueue p clock = .ok q' → Settled clock q' := by
  have hclock : u32 clock = clock := u32_eq htimed.fits
  unfold enqueueWatched enqueue
  rw [hclock]
  dsimp only
  rw [pruneWatched_ok h.eq, Run.ok_bind]
  cases ha : q.base.admission p with
  | error e => exact ⟨rfl, fun q' h => by cases h⟩
  | ok admitted =>
    refine ⟨rfl, fun q' hs => ?_⟩
    cases hs
    refine ⟨⟨h.lengths, h.lengths2, h.dq, h.dq2, h.rtts, h.avgRtt, h.realDq, ?_⟩, ?_⟩
    · exact List.append_ne_nil_of_right_ne_nil _ (List.cons_ne_nil clock [])
    · exact hpast.admission htimed.later (htimed.arrival p clock rfl) ha

theorem dequeueWatched_ok {last clock : Nat} (h : Consistent q) (hpast : Past last q.base) (hle : last ≤ clock)
    (hnow : clock < 2 ^ 32) (hfits : Fits q clock) :
    q.dequeueWatched clock = q.dequeue clock ∧ ∀ ret q', q.dequeue clock = .ok (ret, q') → Settled clock q' := by
  obtain ⟨hopportunity, hreal⟩ := h.opportunity clock
  obtain ⟨hleave, hleft⟩ := leaveWatched_ok hopportunity hreal hpast hle hnow ⟨hfits.waited, hfits.sum⟩
  unfold dequeueWatched dequeue
  rw [u32_eq hnow]
  dsimp only
  rw [opportunityWatched_ok h, Run.ok_bind, hleave]
  refine ⟨rfl, fun ret q' hd => ?_⟩
  obtain ⟨n, -, hd⟩ := Run.bind_ok hd
  -- nothing leaves, so the windows are those of the opportunity
  split at hd
  · cases hd
    exact ⟨hopportunity, fun p hp => (hpast p hp).trans hle⟩
  · obtain ⟨⟨p, q₂⟩, hl, hd⟩ := Run.bind_ok hd
    have hsettled := hleft p q₂ (watched_eq_ok hl)
    dsimp only at hd
    split at hd
    · cases hd
      exact hsettled
    · obtain ⟨v, -, hd⟩ := Run.bind_ok hd
      obtain ⟨c, -, hd⟩ := Run.bind_ok hd
      cases hd
      exact hsettled

theorem steps : Steps XCPPacketQueue := by
  rintro last q call ⟨h, hpast⟩ htimed hfits
  cases call with
  | enqueue p clock =>
    obtain ⟨hwatched, hok⟩ := enqueueWatched_ok h hpast htimed
    exact enqueue_step hwatched hok
  | dequeue clock =>
    obtain ⟨hwatched, hok⟩ := dequeueWatched_ok h hpast htimed.later htimed.fits hfits
    exact dequeue_step hwatched hok

theorem staysConsistent : StaysConsistent XCPPacketQueue := by
  rintro q₀ calls ⟨packets, bytes, alpha, beta, hq₀⟩ htimed halong
  obtain ⟨base, hbase, hq₀⟩ := Run.bind_ok hq₀
  split at hq₀
  · cases hq₀
  · cases hq₀
    refine run_settled steps ⟨⟨rfl, rfl, List.cons_ne_nil 0 [], List.cons_ne_nil 0 [], ?_, le_rfl, List.cons_ne_nil 0 [],
      List.cons_ne_nil 0 []⟩, past_ofArgs hbase⟩ htimed halong
    rintro e he
    rw [List.mem_singleton.1 he]

end

end XCPPacketQueue

/-! ## VCP -/

namespace VCPPacketQueue

def enqueueWatched (q : VCPPacketQueue) (p : QueuedPacket) (clock : Nat) : Except Hazard VCPPacketQueue := do
  let (admitted, base) ← watched (q.base.admission p)
  let now := u32 clock
  if admitted then do
    let eqQueue ← pruneWatched 200 now q.eqQueue
    pure { q with base := base, eqQueue := eqQueue ++ [now] }
  else pure { q with base := base }

def opportunityWatched (q : VCPPacketQueue) (now : Nat) : Except Hazard VCPPacketQueue := do
  let realDqQueue ← pruneWatched 200 now q.realDqQueue
  pure { q with realDqQueue := realDqQueue ++ [now] }

def loadWatched (q : VCPPacketQueue) (sizePackets : Nat) : Except Hazard ℚ := do
  watched (check "real_dq_queue.size() >= 2" (2 ≤ q.realDqQueue.length))
  divWatched (q.eqQueue.length + 0.5 * sizePackets) (0.98 * q.realDqQueue.length)

def setModeWatched (q : VCPPacketQueue) (due : Bool) (now sizePackets : Nat) : Except Hazard VCPPacketQueue := do
  let pl ← q.loadWatched sizePackets
  pure (if due then
    { q with
      lastUpdate := now
      mode := if pl < 0.8 then 0 else if pl > 1.0 then 2 else 1 }
  else q)

def updateModeWatched (q : VCPPacketQueue) (now sizePackets : Nat) : Except Hazard VCPPacketQueue :=
  q.setModeWatched (elapsed 200 now q.lastUpdate) now sizePackets

def leaveWatched (q : VCPPacketQueue) (now : Nat) : Except Hazard (QueuedPacket × VCPPacketQueue) := do
  let (ret, base) ← watched q.base.dequeue
  let sizePackets ← watched base.sizePackets
  let q ← { q with base := base }.updateModeWatched now sizePackets
  pure (ret, q)

def dequeueWatched (q : VCPPacketQueue) (clock : Nat) : Except Hazard (QueuedPacket × VCPPacketQueue) := do
  let now := u32 clock
  let q ← q.opportunityWatched now
  if (← watched q.base.sizePackets) = 0 then pure (⟨ascii "arbit", 0⟩, q)
  else do
    let (ret, q) ← q.leaveWatched now
    if ret.contents.length < 3 then throw .outOfBounds
    else pure ({ ret with contents := raise (q.modeDropSensitive now) ret.contents }, q)

structure Consistent (q : VCPPacketQueue) : Prop where
  realDq : q.realDqQueue ≠ []
  eq : q.eqQueue ≠ []

def stepWatched (q : VCPPacketQueue) : Call → Except Hazard (Option QueuedPacket × VCPPacketQueue)
  | .enqueue p clock => do
    let q ← q.enqueueWatched p clock
    pure (none, q)
  | .dequeue clock => do
    let (ret, q) ← q.dequeueWatched clock
    pure (some ret, q)

/-- The call of the queue. -/
def ofCall : Call → Op
  | .enqueue p clock => .enqueue p clock
  | .dequeue clock => .dequeue clock

/-- Nothing is added up. -/
instance : AveragingQueue VCPPacketQueue where
  Initial q := ∃ packets bytes, ofArgs packets bytes = .ok q
  base q := q.base
  step q call := q.step (ofCall call)
  stepWatched := stepWatched
  Fits _ _ := True
  Consistent := Consistent

section

variable {q : VCPPacketQueue} {now : Nat}

theorem opportunityWatched_ok (h : Consistent q) (now : Nat) : q.opportunityWatched now = .ok (q.opportunity now) := by
  unfold opportunityWatched
  rw [pruneWatched_ok h.realDq]
  rfl

theorem Consistent.opportunity (h : Consistent q) (now : Nat) :
    Consistent (q.opportunity now) ∧ 2 ≤ (q.opportunity now).realDqQueue.length := by
  have hreal : 2 ≤ (q.opportunity now).realDqQueue.length := two_le_recorded h.realDq
  exact ⟨⟨List.length_pos_iff.1 (by omega), h.eq⟩, hreal⟩

theorem setModeWatched_ok (h : Consistent q) (hreal : 2 ≤ q.realDqQueue.length) (due : Bool) (now sizePackets : Nat) :
    q.setModeWatched due now sizePackets = .ok (q.setMode due now sizePackets) ∧ Consistent (q.setMode due now sizePackets) ∧
      (q.setMode due now sizePackets).base = q.base := by
  have hlen : (0.98 : ℚ) * q.realDqQueue.length ≠ 0 := mul_ne_zero (by norm_num) (Nat.cast_ne_zero.2 (by omega))
  have hload : q.loadWatched sizePackets = .ok (q.load sizePackets) := by
    unfold loadWatched
    rw [decide_eq_true hreal, check_true, watched_ok, Run.ok_bind, divWatched_ok hlen]
    rfl
  unfold setModeWatched
  rw [hload, Run.ok_bind]
  cases due with
  | true => exact ⟨rfl, ⟨h.realDq, h.eq⟩, rfl⟩
  | false => exact ⟨rfl, h, rfl⟩

theorem updateModeWatched_ok (h : Consistent q) (hreal : 2 ≤ q.realDqQueue.length) (now sizePackets : Nat) :
    q.updateModeWatched now sizePackets = .ok (q.updateMode now sizePackets) ∧ Consistent (q.updateMode now sizePackets) ∧
      (q.updateMode now sizePackets).base = q.base := by
  unfold updateModeWatched updateMode
  exact setModeWatched_ok h hreal _ now sizePackets

theorem settled {last : Nat} (h : Consistent q) (hpast : Past last q.base) : Settled last q := ⟨h, hpast⟩

theorem leaveWatched_ok {last : Nat} (h : Consistent q) (hreal : 2 ≤ q.realDqQueue.length) (hpast : Past last q.base)
    (hle : last ≤ now) :
    q.leaveWatched now = watched (q.leave now) ∧ ∀ ret q', q.leave now = .ok (ret, q') → Settled now q' := by
  unfold leaveWatched leave
  cases hd : q.base.dequeue with
  | error e => exact ⟨rfl, fun ret q' h => by cases h⟩
  | ok popped =>
    obtain ⟨p, base⟩ := popped
    obtain ⟨-, hpast'⟩ := hpast.dequeue hle hd
    have hbase : Consistent { q with base := base } := ⟨h.realDq, h.eq⟩
    rw [watched_ok, Run.ok_bind, Run.ok_bind]
    dsimp only
    cases base.sizePackets with
    | error e => exact ⟨rfl, fun ret q' h => by cases h⟩
    | ok sizePackets =>
      obtain ⟨hmode, hconsistent, hunder⟩ := updateModeWatched_ok hbase hreal now sizePackets
      rw [watched_ok, Run.ok_bind, Run.ok_bind, hmode]
      -- the mode is not looked at
      generalize { q with base := base }.updateMode now sizePackets = q₁ at hconsistent hunder ⊢
      have hpast₁ : Past now q₁.base := by
        rw [hunder]
        exact hpast'
      have hsettled := settled hconsistent hpast₁
      refine ⟨rfl, fun ret q' h => ?_⟩
      cases h
      exact hsettled

theorem enqueueWatched_ok {last clock : Nat} {p : QueuedPacket} (h : Consistent q) (hpast : Past last q.base)
    (htimed : (Call.enqueue p clock).Timed last) :
    q.enqueueWatched p clock = watched (q.enqueue p clock) ∧ ∀ q', q.enqueue p clock = .ok q' → Settled clock q' := by
  unfold enqueueWatched enqueue
  cases ha : q.base.admission p with
  | error e => exact ⟨rfl, fun q' h => by cases h⟩
  | ok admission =>
    obtain ⟨admitted, base⟩ := admission
    have hpast' := hpast.admission htimed.later (htimed.arrival p clock rfl) ha
    rw [watched_ok, Run.ok_bind, Run.ok_bind]
    dsimp only
    rw [pruneWatched_ok h.eq]
    cases admitted with
    | false =>
      refine ⟨rfl, fun q' hs => ?_⟩
      cases hs
      exact ⟨⟨h.realDq, h.eq⟩, hpast'⟩
    | true =>
      refine ⟨rfl, fun q' hs => ?_⟩
      cases hs
      exact ⟨⟨h.realDq, List.append_ne_nil_of_right_ne_nil _ (List.cons_ne_nil (u32 clock) [])⟩, hpast'⟩

theorem dequeueWatched_ok {last clock : Nat} (h : Consistent q) (hpast : Past last q.base) (hle : last ≤ clock)
    (hnow : clock < 2 ^ 32) :
    q.dequeueWatched clock = q.dequeue clock ∧ ∀ ret q', q.dequeue clock = .ok (ret, q') → Settled clock q' := by
  obtain ⟨hopportunity, hreal⟩ := h.opportunity clock
  obtain ⟨hleave, hleft⟩ := leaveWatched_ok hopportunity hreal hpast hle
  unfold dequeueWatched dequeue
  rw [u32_eq hnow]
  dsimp only
  rw [opportunityWatched_ok h, Run.ok_bind, hleave]
  refine ⟨rfl, fun ret q' hd => ?_⟩
  obtain ⟨n, -, hd⟩ := Run.bind_ok hd
  split at hd
  · cases hd
    exact ⟨hopportunity, fun p hp => (hpast p hp).trans hle⟩
  · obtain ⟨⟨p, q₂⟩, hl, hd⟩ := Run.bind_ok hd
    have hsettled := hleft p q₂ (watched_eq_ok hl)
    dsimp only at hd
    split at hd
    · cases hd
    · cases hd
      exact hsettled

theorem steps : Steps VCPPacketQueue := by
  rintro last q call ⟨h, hpast⟩ htimed -
  cases call with
  | enqueue p clock =>
    obtain ⟨hwatched, hok⟩ := enqueueWatched_ok h hpast htimed
    exact enqueue_step hwatched hok
  | dequeue clock =>
    obtain ⟨hwatched, hok⟩ := dequeueWatched_ok h hpast htimed.later htimed.fits
    exact dequeue_step hwatched hok

theorem staysConsistent : StaysConsistent VCPPacketQueue := by
  rintro q₀ calls ⟨packets, bytes, hq₀⟩ htimed halong
  obtain ⟨base, hbase, hq₀⟩ := Run.bind_ok hq₀
  cases hq₀
  exact run_settled steps ⟨⟨List.cons_ne_nil 0 [], List.cons_ne_nil 0 []⟩, past_ofArgs hbase⟩ htimed halong

end

end VCPPacketQueue

/-! ## All three -/

/-- In every run of an RCP, an XCP or a VCP queue the windows stay consistent: none is empty when it is read
or pruned, the values are as many as the times, no round-trip time and no mean of them is below 100, and
no divisor is zero. -/
theorem averaging_windows : StaysConsistent RCPPacketQueue ∧ StaysConsistent XCPPacketQueue ∧ StaysConsistent VCPPacketQueue :=
  ⟨RCPPacketQueue.staysConsistent, XCPPacketQueue.staysConsistent, VCPPacketQueue.staysConsistent⟩

namespace XCPPacketQueue

theorem initial_idle : AveragingQueue.Initial idle := by
  refine ⟨10, 0, 40, 20, ?_⟩
  unfold ofArgs
  rw [show DroppingPacketQueue.ofArgs 10 0 = .ok idle.base from rfl, Run.ok_bind, if_neg (by norm_num)]
  rfl

/-- The router when a packet of 300 bytes has arrived. -/
def holding : XCPPacketQueue :=
  { idle with
    base := { packetLimit := 10, byteLimit := 0, queueSizeInBytes := 300, queueSizeInPackets := 1,
              internalQueue := [⟨List.replicate 300 0, 0⟩] }
    eqQueue := [0, 0] }

/-- A packet that waits for 30 ms. -/
def promptCalls : List Call := [.enqueue ⟨List.replicate 300 0, 0⟩ 0, .dequeue 30]

theorem fits_prompt : Run.Along AveragingQueue.step Call.Fits idle promptCalls := by
  refine ⟨trivial, fun out q hs => ⟨?_, fun _ _ _ => trivial⟩⟩
  have hholding : AveragingQueue.step idle (.enqueue ⟨List.replicate 300 0, 0⟩ 0) = .ok (none, holding) := by decide +kernel
  rw [hholding] at hs
  cases hs
  refine ⟨fun p rest hqueue => ?_, fun p rest hqueue => ?_⟩
  · obtain ⟨rfl, rfl⟩ := List.cons.inj hqueue
    decide
  · obtain ⟨rfl, rfl⟩ := List.cons.inj hqueue
    decide +kernel

theorem averaging_windows_small : Run.Along AveragingQueue.step Safe idle promptCalls := by
  have htimed : Timed 0 promptCalls := by
    refine ⟨⟨le_rfl, by decide, ?_⟩, ⟨by decide, by decide, fun p clock h => by cases h⟩, trivial⟩
    rintro p clock h
    cases h
    exact le_rfl
  exact (averaging_windows.2.1 idle promptCalls initial_idle htimed fits_prompt).1

/-- Two packets that wait for 2 ^ 32 ms less 100. -/
def lateCalls : List Call :=
  [.enqueue ⟨List.replicate 28 0, 0⟩ 0, .enqueue ⟨List.replicate 28 0, 1⟩ 1, .dequeue (2 ^ 32 - 100), .dequeue (2 ^ 32 - 99)]

theorem timed_late : Timed 0 lateCalls := by
  refine ⟨⟨le_rfl, by decide, ?_⟩, ⟨by decide, by decide, ?_⟩, ⟨by decide, by decide, ?_⟩, ⟨by decide, by decide, ?_⟩, trivial⟩
  · rintro p clock h
    cases h
    exact le_rfl
  · rintro p clock h
    cases h
    exact le_rfl
  · rintro p clock h
    cases h
  · rintro p clock h
    cases h

/-- Their round-trip times wrap around to zero, and so the mean that is divided by is zero. -/
theorem late_mean_zero : Timed 0 lateCalls ∧ AveragingQueue.Initial idle ∧
    (∃ outs q, Run.steps AveragingQueue.step idle lateCalls = .ok (outs, q) ∧ q.rttAvg = [0, 0] ∧ q.avgRtt = 0) ∧
    Run.steps AveragingQueue.stepWatched idle lateCalls = .error (.fault (.assertion "avg_rtt >= 100")) := by
  have hrun : (fun r => (r.2.rttAvg, r.2.avgRtt)) <$> Run.steps AveragingQueue.step idle lateCalls = .ok ([0, 0], 0) := by
    decide +kernel
  have hwatched : Run.steps AveragingQueue.stepWatched idle lateCalls = .error (.fault (.assertion "avg_rtt >= 100")) := by
    decide +kernel
  refine ⟨timed_late, initial_idle, ?_, hwatched⟩
  obtain ⟨⟨outs, q⟩, hq, hvalues⟩ := Run.map_eq_ok hrun
  exact ⟨outs, q, hq, congrArg Prod.fst hvalues, congrArg Prod.snd hvalues⟩

end XCPPacketQueue

end AbcMahimahi.Packet
