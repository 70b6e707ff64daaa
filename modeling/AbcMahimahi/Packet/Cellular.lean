/-
`CELLULARPacketQueue` (cellular_packet_queue.cc), the ABC router: a token bucket filled at half
the target rate over the observed dequeue rate decides which ECT packets leave with CE. Doubles
are exact rationals.
-/
import AbcMahimahi.Packet.Dropping

namespace AbcMahimahi.Packet

open Bytes

/-! ## The IP header of a packet -/

/-- `iph->tos`: the header starts behind the four bytes of the TUN prefix. -/
def tos (contents : Bytes) : UInt8 := contents.getD 5 0

def iptosEcnMask : UInt8 := 3
def iptosEcnNotEct : UInt8 := 0
def iptosEcnCe : UInt8 := 3

/-- `iph->tos & IPTOS_ECN_MASK`. -/
def ecn (contents : Bytes) : UInt8 := tos contents &&& iptosEcnMask

/-- `iph->ihl<<2`. -/
def headerLength (contents : Bytes) : Nat := (contents.getD 4 0 &&& 15).toNat * 4

/-- The sum of the 16-bit words, read in the byte order of the machine (little-endian). -/
def sumWords : Bytes → Nat
  | a :: b :: rest => a.toNat + 256 * b.toNat + sumWords rest
  | [a] => a.toNat
  | [] => 0

/-- The loop that folds the carries in. A turn takes 16 bits off a 64-bit sum, so it ends within
five. -/
def foldCarry : Nat → Nat → Nat
  | 0, sum => sum
  | turns + 1, sum => if sum / 2 ^ 16 ≠ 0 then foldCarry turns (sum % 2 ^ 16 + sum / 2 ^ 16) else sum

/-- `in_cksum`: the one's complement of the one's complement sum. -/
def inCksum (header : Bytes) : Nat := 2 ^ 16 - 1 - foldCarry 5 (sumWords header) % 2 ^ 16

/-- `iph->check = sum`. -/
def setCheck (contents : Bytes) (sum : Nat) : Bytes :=
  (contents.set 14 (UInt8.ofNat (sum % 256))).set 15 (UInt8.ofNat (sum / 256))

/-- Set both ECN bits and write the checksum of the new header. -/
def markCe (contents : Bytes) : Bytes :=
  let contents := contents.set 5 (tos contents ||| iptosEcnCe)
  let contents := setCheck contents 0
  setCheck contents (inCksum ((contents.drop 4).take (headerLength contents)))

/-! ## The queue -/

structure CELLULARPacketQueue where
  base : DroppingPacketQueue
  qdelayRef : Nat
  delta : ℚ
  dqQueue : List Nat := [0]
  linkCapacityQueue : List Nat := [0]
  tokens : ℚ := 5
  tokenLimit : ℚ := 5

namespace CELLULARPacketQueue

open DroppingPacketQueue

/-- The constructor, from the values `get_arg` reads. -/
def ofArgs (packets bytes qdelayRef delta : Nat) : Except Fault CELLULARPacketQueue := do
  let base ← DroppingPacketQueue.ofArgs packets bytes
  if qdelayRef = 0 ∨ delta = 0 then
    throw (.runtimeError (ascii "CELLULAR AQM queue must have qdelay_ref, delta"))
  else
    pure { base := base, qdelayRef := qdelayRef, delta := delta }

def enqueue (q : CELLULARPacketQueue) (p : QueuedPacket) : Except Fault CELLULARPacketQueue := do
  if !(← q.base.goodWithPacket p) then
    -- internal queue is full: the packet is dropped
    pure q
  else
    let base := q.base.accept p
    check "good()" (← base.good)
    pure { q with base := base }

/-- The loop that takes old times off the front of a window. -/
def prune (now : Nat) : List Nat → List Nat
  | t₀ :: t₁ :: rest =>
    if sub32 now t₀ > 20 ∧ now > t₁ then prune now (t₁ :: rest) else t₀ :: t₁ :: rest
  | window => window

/-- Prune a window and record `now`. -/
def record (now : Nat) (window : List Nat) : List Nat := prune now window ++ [now]

/-- The packets per millisecond a window stands for. -/
def rate (window : List Nat) : ℚ := (1.0 * (window.length - 1 : Nat)) / 20.0

/-- `credit_prob_`, what one packet adds to `tokens`. -/
def creditProb (q : CELLULARPacketQueue) (sizePackets : Nat) : ℚ :=
  let linkCapacity := rate q.linkCapacityQueue
  let observedDqRate := rate q.dqQueue
  let currentQdelay := (sizePackets + 1 : Nat) / linkCapacity
  let targetRate := 0.98 * observedDqRate + (linkCapacity / q.delta) * min 0 (q.qdelayRef - currentQdelay)
  min 1 (max 0 (targetRate / observedDqRate * 0.5))

/-- Both windows after an ECT packet leaves at `now`. -/
def recordDequeue (q : CELLULARPacketQueue) (now : Nat) : CELLULARPacketQueue :=
  { q with linkCapacityQueue := record now q.linkCapacityQueue, dqQueue := record now q.dqQueue }

/-- Spend a token on the packet or mark it. -/
def spend (q : CELLULARPacketQueue) (ret : QueuedPacket) : QueuedPacket × CELLULARPacketQueue :=
  let (ret, tokens) :=
    if q.tokens > 1 then
      (ret, if ecn ret.contents ≠ iptosEcnCe then q.tokens - 1 else q.tokens)
    else
      (if ret.contents.length > 4 then { ret with contents := markCe ret.contents } else ret, q.tokens)
  (ret, { q with tokens := if tokens > q.tokenLimit then q.tokenLimit else tokens })

/-- `dequeue`, when `timestamp()` reads `clock`. -/
def dequeue (q : CELLULARPacketQueue) (clock : Nat) : Except Fault (QueuedPacket × CELLULARPacketQueue) := do
  let now := u32 clock
  if q.base.empty then
    pure (⟨ascii "arbit", 0⟩,
      { q with linkCapacityQueue := q.linkCapacityQueue ++ [now], tokens := q.tokens + 0.49 })
  else
    let (ret, base) ← q.base.dequeue
    let q := { q with base := base }
    if ecn ret.contents = iptosEcnNotEct then
      pure (ret, q)
    else
      let q := q.recordDequeue now
      let q := { q with tokens := q.tokens + q.creditProb (← q.base.sizePackets) }
      pure (q.spend ret)

/-! ## Runs -/

/-- A call on the queue. -/
inductive Op where
  | enqueue (p : QueuedPacket)
  | dequeue (clock : Nat)
  deriving DecidableEq, Repr

/-- What a `dequeue` call popped (nothing from an empty queue), what it returned and the credit it
added. -/
structure Left where
  popped : Option QueuedPacket
  returned : QueuedPacket
  credit : ℚ

/-- The credit the next `dequeue` adds: `credit_prob_` for an ECT packet, else none. -/
def nextCredit (q : CELLULARPacketQueue) (clock : Nat) : ℚ :=
  match q.base.dequeue with
  | .ok (p, base) =>
    if ecn p.contents = iptosEcnNotEct then 0
    else ({ q with base := base }.recordDequeue (u32 clock)).creditProb base.queueSizeInPackets.toNat
  | .error _ => 0

def step (q : CELLULARPacketQueue) : Op → Except Fault (Option Left × CELLULARPacketQueue)
  | .enqueue p => do pure (none, ← q.enqueue p)
  | .dequeue clock => do
    let (ret, q') ← q.dequeue clock
    pure (some ⟨q.base.internalQueue.head?, ret, q.nextCredit clock⟩, q')

/-- Some constructed queue. -/
def Initial (q : CELLULARPacketQueue) : Prop :=
  ∃ packets bytes qdelayRef delta, ofArgs packets bytes qdelayRef delta = .ok q

end CELLULARPacketQueue

end AbcMahimahi.Packet
