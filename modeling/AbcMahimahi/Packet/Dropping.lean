/-
`DroppingPacketQueue` (dropping_packet_queue.cc): a FIFO of packets with a packet and a byte
limit and separately kept counters, the base of every bounded queue discipline, and
`DropTailPacketQueue` (drop_tail_packet_queue.hh). `Rep` is the representation invariant: the
counters are the length and the total size of the queue, and the limits are met.
-/
import AbcMahimahi.Lib.Run
import AbcMahimahi.Lib.LossyFifo
import AbcMahimahi.Lib.SlidingWindow
import AbcMahimahi.Util.Fault

namespace AbcMahimahi.Packet

open Bytes

/-- `QueuedPacket`: the bytes of a packet and when it arrived (ms). -/
structure QueuedPacket where
  contents : Bytes
  arrivalTime : Nat
  deriving DecidableEq, Repr

structure DroppingPacketQueue where
  packetLimit : Nat
  byteLimit : Nat
  queueSizeInBytes : Int := 0
  queueSizeInPackets : Int := 0
  internalQueue : List QueuedPacket := []
  deriving DecidableEq, Repr

namespace DroppingPacketQueue

/-- The constructor, from the values `get_arg` reads for `packets` and `bytes`. -/
def ofArgs (packets bytes : Nat) : Except Fault DroppingPacketQueue :=
  if packets = 0 ∧ bytes = 0 then
    throw (.runtimeError (ascii "Dropping queue must have a byte or packet limit."))
  else
    pure { packetLimit := packets, byteLimit := bytes }

def empty (q : DroppingPacketQueue) : Bool := q.internalQueue.isEmpty

def sizeBytes (q : DroppingPacketQueue) : Except Fault Nat := do
  check "queue_size_in_bytes_ >= 0" (0 ≤ q.queueSizeInBytes)
  pure q.queueSizeInBytes.toNat

def sizePackets (q : DroppingPacketQueue) : Except Fault Nat := do
  check "queue_size_in_packets_ >= 0" (0 ≤ q.queueSizeInPackets)
  pure q.queueSizeInPackets.toNat

def goodWith (q : DroppingPacketQueue) (sizeInBytes sizeInPackets : Nat) : Bool :=
  (q.byteLimit == 0 || decide (sizeInBytes ≤ q.byteLimit)) &&
    (q.packetLimit == 0 || decide (sizeInPackets ≤ q.packetLimit))

def good (q : DroppingPacketQueue) : Except Fault Bool := do
  pure (q.goodWith (← q.sizeBytes) (← q.sizePackets))

/-- Put a packet on the back of the queue. -/
def accept (q : DroppingPacketQueue) (p : QueuedPacket) : DroppingPacketQueue :=
  { q with
    queueSizeInBytes := cInt (q.queueSizeInBytes + p.contents.length)
    queueSizeInPackets := cInt (q.queueSizeInPackets + 1)
    internalQueue := q.internalQueue ++ [p] }

def dequeue (q : DroppingPacketQueue) : Except Fault (QueuedPacket × DroppingPacketQueue) :=
  match q.internalQueue with
  | [] => throw (.assertion "not internal_queue_.empty()")
  | ret :: rest => do
    let q' := { q with
      internalQueue := rest
      queueSizeInBytes := cInt (q.queueSizeInBytes - ret.contents.length)
      queueSizeInPackets := cInt (q.queueSizeInPackets - 1) }
    check "good()" (← q'.good)
    pure (ret, q')

/-- The test every discipline makes before it accepts: are the limits met with `p` added? -/
def goodWithPacket (q : DroppingPacketQueue) (p : QueuedPacket) : Except Fault Bool := do
  pure (q.goodWith (u32 ((← q.sizeBytes) + p.contents.length)) (u32 ((← q.sizePackets) + 1)))

/-- `to_string`, of a discipline of that `type()`. -/
def toString (type : Bytes) (q : DroppingPacketQueue) : Bytes :=
  type ++ ascii " [" ++
    (if q.byteLimit ≠ 0 then ascii "bytes=" ++ ascii q.byteLimit.repr else []) ++
    (if q.packetLimit ≠ 0 then
      (if q.byteLimit ≠ 0 then ascii ", " else []) ++ ascii "packets=" ++ ascii q.packetLimit.repr
    else []) ++
    ascii "]"

/-- The sum of the sizes of the packets of a queue. -/
def totalBytes (l : List QueuedPacket) : Nat := (l.map (·.contents.length)).sum

@[simp] theorem totalBytes_nil : totalBytes [] = 0 := rfl

@[simp] theorem totalBytes_cons (p : QueuedPacket) (l : List QueuedPacket) :
    totalBytes (p :: l) = p.contents.length + totalBytes l := by
  simp [totalBytes]

@[simp] theorem totalBytes_append (l m : List QueuedPacket) : totalBytes (l ++ m) = totalBytes l + totalBytes m := by
  simp [totalBytes]

theorem length_le_totalBytes : ∀ {l : List QueuedPacket}, (∀ p ∈ l, 28 ≤ p.contents.length) → l.length ≤ totalBytes l
  | [], _ => by simp
  | p :: l, h => by
    have := h p (List.mem_cons_self ..)
    have := length_le_totalBytes (l := l) (fun r hr => h r (List.mem_cons_of_mem _ hr))
    simp only [List.length_cons, totalBytes_cons]; omega

/-- The counters are the length and the total size of the queue, which meets the limits and holds
less than `2 ^ 31` bytes in packets of at least 28. -/
structure Rep (q : DroppingPacketQueue) : Prop where
  bytes : q.queueSizeInBytes = totalBytes q.internalQueue
  packets : q.queueSizeInPackets = q.internalQueue.length
  limits : q.goodWith (totalBytes q.internalQueue) q.internalQueue.length = true
  fits : totalBytes q.internalQueue < 2 ^ 31
  sizes : ∀ p ∈ q.internalQueue, 28 ≤ p.contents.length

section

variable {q q' : DroppingPacketQueue} {p : QueuedPacket}

theorem Rep.length_lt (h : Rep q) : q.internalQueue.length < 2 ^ 31 :=
  lt_of_le_of_lt (length_le_totalBytes h.sizes) h.fits

theorem Rep.sizeBytes (h : Rep q) : q.sizeBytes = .ok (totalBytes q.internalQueue) := by
  simp [DroppingPacketQueue.sizeBytes, h.bytes]

theorem Rep.sizePackets (h : Rep q) : q.sizePackets = .ok q.internalQueue.length := by
  simp [DroppingPacketQueue.sizePackets, h.packets]

/-- The invariant implies the check made after every operation. -/
theorem Rep.good (h : Rep q) : q.good = .ok true := by
  unfold DroppingPacketQueue.good
  rw [h.sizeBytes, h.sizePackets]
  simp [h.limits]

theorem goodWith_mono {a b c d : Nat} (h : q.goodWith c d = true) (hac : a ≤ c) (hbd : b ≤ d) :
    q.goodWith a b = true := by
  simp only [goodWith, Bool.and_eq_true, Bool.or_eq_true, beq_iff_eq, decide_eq_true_eq] at *
  omega

/-- A new queue is represented: the limits hold of the empty queue whatever they are. -/
theorem rep_ofArgs {packets bytes : Nat} (h : ofArgs packets bytes = .ok q) :
    Rep q ∧ q.internalQueue = [] ∧ q.packetLimit = packets ∧ q.byteLimit = bytes := by
  unfold ofArgs at h
  split at h
  · cases h
  · cases h
    exact ⟨⟨rfl, rfl, by simp [goodWith], by simp, by simp⟩, rfl, rfl, rfl⟩

/-- What `dequeue` does when it returns. -/
theorem dequeue_ok (h : q.dequeue = .ok (p, q')) :
    q.internalQueue = p :: q'.internalQueue ∧ q'.packetLimit = q.packetLimit ∧ q'.byteLimit = q.byteLimit := by
  unfold dequeue at h
  split at h
  · cases h
  · rename_i ret rest hq
    obtain ⟨g, -, h⟩ := Run.bind_ok h
    obtain ⟨u, -, h⟩ := Run.bind_ok h
    cases h
    exact ⟨hq, rfl, rfl⟩

/-- `dequeue` on a represented queue that is not empty never fails and keeps it represented. -/
theorem Rep.dequeue (h : Rep q) {rest : List QueuedPacket} (hq : q.internalQueue = p :: rest) :
    ∃ q', q.dequeue = .ok (p, q') ∧ Rep q' ∧ q'.internalQueue = rest := by
  have hb := h.bytes
  have hn := h.packets
  have hl := h.limits
  have hf := h.fits
  have hlen := h.length_lt
  have hs := h.sizes
  rw [hq] at hb hn hl hf hlen hs
  simp only [totalBytes_cons, List.length_cons] at hb hn hl hf hlen
  have hrep : Rep { q with
      internalQueue := rest
      queueSizeInBytes := cInt (q.queueSizeInBytes - p.contents.length)
      queueSizeInPackets := cInt (q.queueSizeInPackets - 1) } := by
    refine ⟨?_, ?_, ?_, ?_, fun r hr => hs r (List.mem_cons_of_mem _ hr)⟩
    · simp only; rw [hb]; push_cast; rw [cInt_eq] <;> omega
    · simp only; rw [hn]; push_cast; rw [cInt_eq] <;> omega
    · exact goodWith_mono (q := q) hl (by simp only; omega) (by simp only; omega)
    · simp only; omega
  refine ⟨_, ?_, hrep, rfl⟩
  unfold DroppingPacketQueue.dequeue
  rw [hq]
  simp only [hrep.good, Run.ok_bind, check_true, Run.pure_ok]

/-- The test before an accept, on a represented queue with room in the counters. -/
theorem Rep.goodWithPacket (h : Rep q) (hroom : totalBytes q.internalQueue + p.contents.length < 2 ^ 31) :
    q.goodWithPacket p = .ok (q.goodWith (totalBytes q.internalQueue + p.contents.length)
      (q.internalQueue.length + 1)) := by
  have := h.length_lt
  unfold DroppingPacketQueue.goodWithPacket
  rw [h.sizeBytes, h.sizePackets]
  simp only [Run.ok_bind, Run.pure_ok]
  rw [u32_eq (by omega), u32_eq (by omega)]

/-- A packet that passed the test is accepted without breaking the invariant. -/
theorem Rep.accept (h : Rep q) (hp : 28 ≤ p.contents.length)
    (hroom : totalBytes q.internalQueue + p.contents.length < 2 ^ 31)
    (hgood : q.goodWith (totalBytes q.internalQueue + p.contents.length) (q.internalQueue.length + 1) = true) :
    Rep (q.accept p) := by
  have hlen := h.length_lt
  have hle := length_le_totalBytes h.sizes
  unfold DroppingPacketQueue.accept
  refine ⟨?_, ?_, ?_, ?_, ?_⟩
  · simp only [totalBytes_append, totalBytes_cons, totalBytes_nil, h.bytes]
    push_cast; rw [cInt_eq] <;> omega
  · simp only [List.length_append, List.length_singleton, h.packets]
    push_cast; rw [cInt_eq] <;> omega
  · simpa [goodWith] using hgood
  · simp only [totalBytes_append, totalBytes_cons, totalBytes_nil]; omega
  · intro r hr
    simp only [List.mem_append, List.mem_singleton] at hr
    rcases hr with hr | rfl
    · exact h.sizes r hr
    · exact hp

/-- A packet of at least 28 bytes, with room for it in the byte counter. -/
def Room (q : DroppingPacketQueue) (p : QueuedPacket) : Prop :=
  28 ≤ p.contents.length ∧ totalBytes q.internalQueue + p.contents.length < 2 ^ 31

/-- The test passes exactly when the queue with the packet accepted is represented. -/
theorem Rep.accept_of_good (h : Rep q) (hroom : Room q p) :
    ∃ g, q.goodWithPacket p = .ok g ∧ (g = true → Rep (q.accept p)) :=
  ⟨_, h.goodWithPacket hroom.2, fun hg => h.accept hroom.1 hroom.2 hg⟩

theorem accept_internalQueue (q : DroppingPacketQueue) (p : QueuedPacket) :
    (q.accept p).internalQueue = q.internalQueue ++ [p] := rfl

end

/-- The `enqueue` of the disciplines that drop at the tail only: keep the packet if the limits
stay met. -/
def acceptIfGood (q : DroppingPacketQueue) (p : QueuedPacket) : Except Fault DroppingPacketQueue := do
  let q' := if ← q.goodWithPacket p then q.accept p else q
  check "good()" (← q'.good)
  pure q'

theorem Rep.acceptIfGood {q : DroppingPacketQueue} {p : QueuedPacket} (h : Rep q) (hroom : Room q p) :
    ∃ q', q.acceptIfGood p = .ok q' ∧ Rep q' ∧
      LossyFifo.Step q.internalQueue (some p) none q'.internalQueue := by
  obtain ⟨g, hg, hrep⟩ := h.accept_of_good hroom
  unfold DroppingPacketQueue.acceptIfGood
  rw [hg]
  cases g with
  | true =>
    have h' := hrep rfl
    refine ⟨q.accept p, ?_, h', .keep _ _⟩
    simp only [Run.ok_bind, if_true, h'.good, check_true, Run.pure_ok]
  | false =>
    refine ⟨q, ?_, h, .refuse _ _⟩
    simp only [Run.ok_bind, Bool.false_eq_true, if_false, h.good, check_true, Run.pure_ok]

end DroppingPacketQueue

/-! ## Drop-tail -/

/-- `DropTailPacketQueue`. -/
structure DropTailPacketQueue extends DroppingPacketQueue
  deriving DecidableEq, Repr

namespace DropTailPacketQueue

open DroppingPacketQueue

/-- A call on the queue. -/
inductive Op where
  | enqueue (p : QueuedPacket)
  | dequeue
  deriving DecidableEq, Repr

def enqueue (q : DroppingPacketQueue) (p : QueuedPacket) : Except Fault DroppingPacketQueue := q.acceptIfGood p

/-- One call and the packet it returns. -/
def step (q : DroppingPacketQueue) : Op → Except Fault (Option QueuedPacket × DroppingPacketQueue)
  | .enqueue p => do pure (none, ← enqueue q p)
  | .dequeue => do
    let (ret, q') ← q.dequeue
    pure (some ret, q')

end DropTailPacketQueue

/-! ## Enqueues that return -/

section

open DroppingPacketQueue

/-- A packet of a size that an `int` holds. -/
structure Sized (p : QueuedPacket) : Prop where
  low : 28 ≤ p.contents.length
  high : p.contents.length < 2 ^ 31

instance (p : QueuedPacket) : Decidable (Sized p) :=
  decidable_of_iff (28 ≤ p.contents.length ∧ p.contents.length < 2 ^ 31) ⟨fun h => ⟨h.1, h.2⟩, fun h => ⟨h.low, h.high⟩⟩

/-- The check after an accept fails when the byte counter overflows. -/
theorem room_of_good {q : DroppingPacketQueue} {p : QueuedPacket} {b : Bool} (h : Rep q) (hp : Sized p)
    (hgood : (q.accept p).good = .ok b) : Room q p := by
  obtain ⟨n, hn, -⟩ := Run.bind_ok hgood
  obtain ⟨u, hu, -⟩ := Run.bind_ok hn
  cases u
  have hnonneg := check_ok hu
  have hbytes : (q.accept p).queueSizeInBytes = cInt (totalBytes q.internalQueue + p.contents.length) := by
    simp only [accept, h.bytes]
  rw [hbytes, decide_eq_true_eq] at hnonneg
  have hfits := h.fits
  have hhigh := hp.high
  refine ⟨hp.low, ?_⟩
  by_contra hover
  unfold cInt at hnonneg
  rw [Int.bmod_def] at hnonneg
  split at hnonneg <;> omega

/-- The queue after an enqueue that returned: the packet is at its back, or it is as before. -/
structure Enqueued (q q' : DroppingPacketQueue) (p : QueuedPacket) : Prop where
  rep : Rep q'
  queue : q'.internalQueue = q.internalQueue ++ [p] ∨ q'.internalQueue = q.internalQueue

theorem enqueued_of_accept {q : DroppingPacketQueue} {p : QueuedPacket} {b : Bool} (h : Rep q) (hp : Sized p)
    (hpass : q.goodWithPacket p = .ok true) (hgood : (q.accept p).good = .ok b) : Enqueued q (q.accept p) p := by
  obtain ⟨g, hg, hrep⟩ := h.accept_of_good (room_of_good h hp hgood)
  rw [hpass] at hg
  cases hg
  exact ⟨hrep rfl, Or.inl rfl⟩

end

/-- The part of `enqueue` that the disciplines share that refuse a packet before they look at it: was it
accepted? -/
def DroppingPacketQueue.admission (q : DroppingPacketQueue) (p : QueuedPacket) : Except Fault (Bool × DroppingPacketQueue) := do
  if !(← q.goodWithPacket p) then
    -- internal queue is full: the packet is dropped
    pure (false, q)
  else
    check "good()" (← (q.accept p).good)
    pure (true, q.accept p)

theorem admit_rep {q q' : DroppingPacketQueue} {p : QueuedPacket} {admitted : Bool} (h : q.Rep) (hp : Sized p)
    (ha : q.admission p = .ok (admitted, q')) : q'.Rep := by
  unfold DroppingPacketQueue.admission at ha
  obtain ⟨g, hg, ha⟩ := Run.bind_ok ha
  cases g with
  | false =>
    cases ha
    exact h
  | true =>
    obtain ⟨b, hb, ha⟩ := Run.bind_ok ha
    obtain ⟨_, -, ha⟩ := Run.bind_ok ha
    cases ha
    exact (enqueued_of_accept h hp hg hb).rep

/-! ## Windows of times -/

/-- The loop that takes times more than `limit` ms old off the front of a `uint32_t` window. -/
def prune (limit now : Nat) (window : List Nat) : List Nat :=
  SlidingWindow.prune (fun now t => decide (sub32 now t > limit)) now window

/-- What is left of a list that loses as many from the front as the window did. -/
def pruneWith (window kept values : List Nat) : List Nat := values.drop (window.length - kept.length)

end AbcMahimahi.Packet
