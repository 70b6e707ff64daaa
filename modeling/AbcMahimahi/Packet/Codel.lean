/-
`CODELPacketQueue` (codel_packet_queue.cc): drop at the head, in a loop, once packets have waited
too long. The control law divides by a square root in doubles; that quotient is a parameter.
-/
import AbcMahimahi.Packet.Dropping

namespace AbcMahimahi.Packet

open Bytes

structure CODELPacketQueue where
  base : DroppingPacketQueue
  target : Nat
  interval : Nat
  firstAboveTime : Nat := 0
  dropNext : Nat := 0
  count : Nat := 0
  lastcount : Nat := 0
  dropping : Bool := false
  deriving DecidableEq, Repr

structure DodequeueResult where
  p : QueuedPacket
  okToDrop : Bool
  deriving DecidableEq, Repr

namespace CODELPacketQueue

def packetSize : Nat := 1504

/-- The constructor, from the values `get_arg` reads. -/
def ofArgs (packets bytes target interval : Nat) : Except Fault CODELPacketQueue := do
  let base ← DroppingPacketQueue.ofArgs packets bytes
  if target = 0 ∨ interval = 0 then
    throw (.runtimeError (ascii "CoDel queue must have target and interval arguments."))
  else
    pure { base := base, target := target, interval := interval }

def enqueue (q : CODELPacketQueue) (p : QueuedPacket) : Except Fault CODELPacketQueue := do
  pure { q with base := ← q.base.acceptIfGood p }

/-- Pop a packet and say whether it may be dropped. -/
def dodequeue (q : CODELPacketQueue) (now : Nat) : Except Fault (DodequeueResult × CODELPacketQueue) := do
  let (p, base) ← q.base.dequeue
  let q := { q with base := base }
  if base.empty then
    pure (⟨p, false⟩, { q with firstAboveTime := 0 })
  else
    let sojournTime := sub64 now p.arrivalTime
    if sojournTime < q.target ∨ (← base.sizeBytes) ≤ packetSize then
      pure (⟨p, false⟩, { q with firstAboveTime := 0 })
    else if q.firstAboveTime = 0 then
      pure (⟨p, false⟩, { q with firstAboveTime := u64 (now + q.interval) })
    else
      pure (⟨p, decide (now ≥ q.firstAboveTime)⟩, q)

section

/- `(uint64_t)( interval_ / sqrt( count ) )`, computed in doubles. -/
variable (sqrtQuotient : Nat → Nat → Nat)

def controlLaw (q : CODELPacketQueue) (t count : Nat) : Nat := u64 (t + sqrtQuotient q.interval count)

/-- The loop of `dequeue`. A turn pops a packet, so there are at most as many turns as packets: one
more finds the queue empty. -/
def dropLoop (now : Nat) : Nat → CODELPacketQueue → Except Fault CODELPacketQueue
  | 0, q =>
    if now ≥ q.dropNext ∧ q.dropping then throw (.assertion "not internal_queue_.empty()") else pure q
  | packets + 1, q =>
    if now ≥ q.dropNext ∧ q.dropping then do
      let (r, q) ← q.dodequeue now
      let q := { q with count := u32 (q.count + 1) }
      dropLoop now packets
        (if !r.okToDrop then { q with dropping := false }
          else { q with dropNext := q.controlLaw sqrtQuotient q.dropNext q.count })
    else pure q

def dequeue (q : CODELPacketQueue) (now : Nat) : Except Fault (QueuedPacket × CODELPacketQueue) := do
  let (r, q) ← q.dodequeue now
  if q.dropping then
    let q := if !r.okToDrop then { q with dropping := false } else q
    let q ← dropLoop sqrtQuotient now q.base.internalQueue.length q
    pure (r.p, q)
  else if r.okToDrop then
    -- the packet popped here is discarded, not the first one
    let (_, q) ← q.dodequeue now
    let delta := sub32 q.count q.lastcount
    let count := if delta > 1 ∧ sub64 now q.dropNext < u32 (16 * q.interval) then delta else 1
    pure (r.p, { q with
      dropping := true
      count := count
      dropNext := q.controlLaw sqrtQuotient now count
      lastcount := count })
  else
    pure (r.p, q)

/-- A call on the queue, with the clock a `dequeue` reads. -/
inductive Op where
  | enqueue (p : QueuedPacket)
  | dequeue (clock : Nat)
  deriving DecidableEq, Repr

/-- One call and the packet it returns. -/
def step (q : CODELPacketQueue) : Op → Except Fault (Option QueuedPacket × CODELPacketQueue)
  | .enqueue p => do pure (none, ← q.enqueue p)
  | .dequeue clock => do
    let (ret, q') ← q.dequeue sqrtQuotient clock
    pure (some ret, q')

end

/-! ## What the calls do to the queue underneath -/

open DroppingPacketQueue

section

variable {q : CODELPacketQueue} {p : QueuedPacket} {rest : List QueuedPacket}

/-- `dodequeue` on a represented queue pops its head; it lets the packet be dropped only if the
queue is not empty then. -/
theorem dodequeue_spec (h : Rep q.base) (hq : q.base.internalQueue = p :: rest) (now : Nat) :
    ∃ r q', q.dodequeue now = .ok (r, q') ∧ r.p = p ∧ Rep q'.base ∧ q'.base.internalQueue = rest ∧
      (r.okToDrop = true → rest ≠ []) := by
  obtain ⟨base, hd, hrep, hrest⟩ := h.dequeue hq
  unfold dodequeue
  rw [hd, Run.ok_bind]
  dsimp only
  rw [hrep.sizeBytes, Run.ok_bind]
  by_cases hempty : base.empty = true
  · rw [if_pos hempty]
    exact ⟨_, _, rfl, rfl, hrep, hrest, fun h => nomatch h⟩
  · have hne : rest ≠ [] := by
      rintro rfl
      exact hempty (by rw [DroppingPacketQueue.empty, hrest]; rfl)
    rw [if_neg hempty]
    split
    · exact ⟨_, _, rfl, rfl, hrep, hrest, fun h => nomatch h⟩
    · split
      · exact ⟨_, _, rfl, rfl, hrep, hrest, fun h => nomatch h⟩
      · exact ⟨_, _, rfl, rfl, hrep, hrest, fun _ => hne⟩

/-- The loop never pops an empty queue and takes packets off the front only. -/
theorem dropLoop_spec (sqrtQuotient : Nat → Nat → Nat) (now : Nat) :
    ∀ (packets : Nat) {q : CODELPacketQueue}, Rep q.base → q.base.internalQueue.length ≤ packets →
      (q.dropping = true → q.base.internalQueue ≠ []) →
      ∃ lost q', dropLoop sqrtQuotient now packets q = .ok q' ∧ Rep q'.base ∧
        q.base.internalQueue = lost ++ q'.base.internalQueue
  | 0, q, h, hlen, hdrop => by
    refine ⟨[], q, ?_, h, rfl⟩
    unfold dropLoop
    rw [if_neg]
    · rfl
    · rintro ⟨-, hd⟩
      exact hdrop hd (List.length_eq_zero_iff.1 (by omega))
  | packets + 1, q, h, hlen, hdrop => by
    unfold dropLoop
    split
    · rename_i hcond
      obtain ⟨p, rest, hq⟩ := List.exists_cons_of_ne_nil (hdrop hcond.2)
      obtain ⟨r, q₁, hd, -, hrep, hrest, hok⟩ := dodequeue_spec h hq now
      rw [hd]
      simp only [Run.ok_bind]
      have hsplit : ∀ {lost left : List QueuedPacket}, q₁.base.internalQueue = lost ++ left →
          q.base.internalQueue = p :: lost ++ left := by
        intro lost left hl
        rw [hq, ← hrest, hl]; rfl
      have hlen₁ : rest.length ≤ packets := by rw [hq, List.length_cons] at hlen; omega
      generalize u32 (q₁.count + 1) = count
      cases hr : r.okToDrop with
      | true =>
        simp only [Bool.not_true, Bool.false_eq_true, if_false]
        generalize controlLaw sqrtQuotient _ _ _ = dropNext
        obtain ⟨lost, q', hl, hrep', hq'⟩ := dropLoop_spec sqrtQuotient now packets
          (q := { q₁ with count := count, dropNext := dropNext }) hrep
          (by simp only [hrest]; exact hlen₁) (fun _ => by simp only [hrest]; exact hok hr)
        exact ⟨p :: lost, q', hl, hrep', hsplit hq'⟩
      | false =>
        simp only [Bool.not_false, if_true]
        obtain ⟨lost, q', hl, hrep', hq'⟩ := dropLoop_spec sqrtQuotient now packets
          (q := { q₁ with count := count, dropping := false }) hrep (by simp only [hrest]; exact hlen₁) (by simp)
        exact ⟨p :: lost, q', hl, hrep', hsplit hq'⟩
    · exact ⟨[], q, rfl, h, rfl⟩

/-- `dequeue` returns the head and discards any number of packets behind it. -/
theorem dequeue_spec (sqrtQuotient : Nat → Nat → Nat) (h : Rep q.base) (hq : q.base.internalQueue = p :: rest)
    (now : Nat) :
    ∃ q', q.dequeue sqrtQuotient now = .ok (p, q') ∧ Rep q'.base ∧
      LossyFifo.Step q.base.internalQueue none (some p) q'.base.internalQueue := by
  obtain ⟨r, q₁, hd, rfl, hrep, hrest, hok⟩ := dodequeue_spec h hq now
  have hstep : ∀ lost left : List QueuedPacket, rest = lost ++ left →
      LossyFifo.Step q.base.internalQueue none (some r.p) left := by
    rintro lost left rfl
    rw [hq]; exact .take _ _ _
  unfold dequeue
  rw [hd]
  simp only [Run.ok_bind]
  split
  · cases hr : r.okToDrop with
    | true =>
      obtain ⟨lost, q', hl, hrep', hq'⟩ := dropLoop_spec sqrtQuotient now q₁.base.internalQueue.length hrep (le_refl _)
        (fun _ => by rw [hrest]; exact hok hr)
      refine ⟨q', ?_, hrep', hstep _ _ (hrest.symm.trans hq')⟩
      simp only [Bool.not_true, Bool.false_eq_true, if_false, hl, Run.ok_bind, Run.pure_ok]
    | false =>
      obtain ⟨lost, q', hl, hrep', hq'⟩ := dropLoop_spec sqrtQuotient now q₁.base.internalQueue.length
        (q := { q₁ with dropping := false }) hrep (le_refl _) (by simp)
      refine ⟨q', ?_, hrep', hstep _ _ (hrest.symm.trans hq')⟩
      simp only [Bool.not_false, if_true, hl, Run.ok_bind, Run.pure_ok]
  · split
    · rename_i hr
      obtain ⟨p₂, rest₂, hq₂⟩ := List.exists_cons_of_ne_nil (hok hr)
      obtain ⟨r₂, q₂, hd₂, -, hrep₂, hrest₂, -⟩ := dodequeue_spec hrep (hrest.trans hq₂) now
      rw [hd₂]
      refine ⟨_, rfl, hrep₂, hstep [p₂] _ ?_⟩
      simp only [hrest₂]; exact hq₂
    · exact ⟨q₁, rfl, hrep, hstep [] _ hrest.symm⟩

end

end CODELPacketQueue

end AbcMahimahi.Packet
