/-
`LinkQueue` (link_queue.cc): the emulated link. It catches up with the clock one delivery
opportunity at a time, each good for 1504 bytes, from any queue behind the virtual interface of
abstract_packet_queue.hh. `rationalize` also returns its history: the state in which each
opportunity was used, the bytes it sent and the packets it completed.
-/
import AbcMahimahi.Packet.Dropping

namespace AbcMahimahi

open Bytes Packet

/-- The virtual interface of `AbstractPacketQueue`. A discipline that reads the clock itself has the readings in its
state: `LinkQueue` hands no time on. -/
class AbstractPacketQueue (Q : Type) where
  enqueue : Q → QueuedPacket → Except Fault Q
  dequeue : Q → Except Fault (QueuedPacket × Q)
  empty : Q → Bool
  toString : Q → Bytes

/-- `InfinitePacketQueue`. -/
structure InfinitePacketQueue where
  internalQueue : List QueuedPacket := []
  deriving DecidableEq, Repr

namespace InfinitePacketQueue

def dequeue (q : InfinitePacketQueue) : Except Fault (QueuedPacket × InfinitePacketQueue) :=
  match q.internalQueue with
  | [] => throw (.assertion "not internal_queue_.empty()")
  | ret :: rest => pure (ret, ⟨rest⟩)

instance : AbstractPacketQueue InfinitePacketQueue where
  enqueue q p := .ok ⟨q.internalQueue ++ [p]⟩
  dequeue q := q.dequeue
  empty q := q.internalQueue.isEmpty
  toString _ := ascii "infinite"

end InfinitePacketQueue

instance : AbstractPacketQueue DropTailPacketQueue where
  enqueue q p := DropTailPacketQueue.mk <$> DropTailPacketQueue.enqueue q.toDroppingPacketQueue p
  dequeue q := (fun r => (r.1, ⟨r.2⟩)) <$> q.toDroppingPacketQueue.dequeue
  empty q := q.empty
  toString q := q.toDroppingPacketQueue.toString (ascii "droptail")

namespace Frontend

def packetSize : Nat := 1504

/-- A line of the log. -/
inductive LogLine where
  | arrival (time size : Nat)
  | opportunity (time size : Nat)
  | departure (time size delay src dst : Nat)
  deriving DecidableEq, Repr

structure LinkQueue (Q : Type) where
  nextDelivery : Nat := 0
  schedule : List Nat
  baseTimestamp : Nat
  packetQueue : Q
  packetInTransit : QueuedPacket := ⟨[], 0⟩
  packetInTransitBytesLeft : Nat := 0
  outputQueue : List Bytes := []
  log : Option (List LogLine) := none
  repeats : Bool
  finished : Bool := false

/-- How one delivery opportunity was used. -/
structure Service (Q : Type) where
  before : LinkQueue Q
  time : Nat
  sent : Nat
  pushed : List Bytes

namespace LinkQueue

variable {Q : Type}

def logLine (q : LinkQueue Q) (l : LogLine) : LinkQueue Q := { q with log := q.log.map (· ++ [l]) }

def recordArrival (q : LinkQueue Q) (arrivalTime pktSize : Nat) : LinkQueue Q :=
  q.logLine (.arrival arrivalTime pktSize)

def nextDeliveryTime (q : LinkQueue Q) : Except Fault Nat :=
  if q.finished then pure (2 ^ 64 - 1)
  else
    match q.schedule[q.nextDelivery]? with
    | some ms => pure (u64 (ms + q.baseTimestamp))
    | none => throw .outOfRange

def recordDepartureOpportunity (q : LinkQueue Q) : Except Fault (LinkQueue Q) := do
  pure (q.logLine (.opportunity (← q.nextDeliveryTime) packetSize))

/-- `_parse_ports`. -/
def parsePorts (s : Bytes) : Nat × Nat :=
  ((s.getD 0 0).toNat * 256 + (s.getD 1 0).toNat, (s.getD 2 0).toNat * 256 + (s.getD 3 0).toNat)

def recordDeparture (q : LinkQueue Q) (departureTime : Nat) (packet : QueuedPacket) : Except Fault (LinkQueue Q) :=
  match substr packet.contents 24 4 with
  | some ports =>
    let (src, dst) := parsePorts ports
    pure (q.logLine
      (.departure departureTime packet.contents.length (sub64 departureTime packet.arrivalTime) src dst))
  | none => throw .outOfRange

def useADeliveryOpportunity (q : LinkQueue Q) : Except Fault (LinkQueue Q) := do
  let q ← q.recordDepartureOpportunity
  let q := { q with nextDelivery := u32 (q.nextDelivery + 1) % q.schedule.length }
  if q.nextDelivery = 0 then
    if q.repeats then
      pure { q with baseTimestamp := u64 (q.baseTimestamp + q.schedule.getLastD 0) }
    else
      pure { q with finished := true }
  else
    pure q

section

variable [AbstractPacketQueue Q]

/-- The disciplines that are told of an unused opportunity. -/
def dequeuesWhenEmpty (q : Q) : Bool :=
  let name := (AbstractPacketQueue.toString q).take 3
  name = ascii "cel" || name = ascii "xcp" || name = ascii "wei" || name = ascii "rcp" || name = ascii "vcp"

/-- Have a packet in transit: is there one? -/
def fetch (q : LinkQueue Q) : Except Fault (Bool × LinkQueue Q) :=
  if q.packetInTransitBytesLeft ≠ 0 then pure (true, q)
  else if AbstractPacketQueue.empty q.packetQueue then
    if dequeuesWhenEmpty q.packetQueue then do
      let (_, packetQueue) ← AbstractPacketQueue.dequeue q.packetQueue
      pure (false, { q with packetQueue := packetQueue })
    else pure (false, q)
  else do
    let (p, packetQueue) ← AbstractPacketQueue.dequeue q.packetQueue
    pure (true, { q with
      packetQueue := packetQueue
      packetInTransit := p
      packetInTransitBytesLeft := u32 p.contents.length })

end

/-- The packet in transit has been sent: log it and push it. -/
def depart (q : LinkQueue Q) (thisDeliveryTime : Nat) : Except Fault (LinkQueue Q) := do
  let q ← q.recordDeparture thisDeliveryTime q.packetInTransit
  pure { q with
    outputQueue := q.outputQueue ++ [q.packetInTransit.contents]
    packetInTransit := { q.packetInTransit with contents := [] } }

/-- `write_packets`: what goes to the descriptor. -/
def writePackets (q : LinkQueue Q) : List Bytes × LinkQueue Q := (q.outputQueue, { q with outputQueue := [] })

/-- Send that many bytes of the packet in transit. -/
def send (q : LinkQueue Q) (thisDeliveryTime amountToSend : Nat) : Except Fault (LinkQueue Q) :=
  let q := { q with packetInTransitBytesLeft := q.packetInTransitBytesLeft - amountToSend }
  if q.packetInTransitBytesLeft = 0 then q.depart thisDeliveryTime else pure q

section

variable [AbstractPacketQueue Q]

/-- The inner loop of `rationalize`: the bytes left in this delivery and the link. A turn sends at
least one byte. -/
def serve (thisDeliveryTime : Nat) : Nat → Nat → LinkQueue Q → Except Fault (Nat × LinkQueue Q)
  | 0, bytesLeft, q => pure (bytesLeft, q)
  | turns + 1, bytesLeft, q =>
    if bytesLeft = 0 then pure (bytesLeft, q)
    else do
      let (found, q) ← q.fetch
      if !found then pure (bytesLeft, q)
      else do
        check "packet_in_transit_.arrival_time <= this_delivery_time" (q.packetInTransit.arrivalTime ≤ thisDeliveryTime)
        check "packet_in_transit_bytes_left_ <= PACKET_SIZE" (q.packetInTransitBytesLeft ≤ packetSize)
        check "packet_in_transit_bytes_left_ > 0" (q.packetInTransitBytesLeft > 0)
        check "packet_in_transit_bytes_left_ <= packet_in_transit_.contents.size()"
          (q.packetInTransitBytesLeft ≤ q.packetInTransit.contents.length)
        let amountToSend := min bytesLeft q.packetInTransitBytesLeft
        let q ← q.send thisDeliveryTime amountToSend
        serve thisDeliveryTime turns (bytesLeft - amountToSend) q

/-- One turn of the outer loop: burn a delivery opportunity. -/
def deliver (q : LinkQueue Q) : Except Fault (Service Q × LinkQueue Q) := do
  let thisDeliveryTime ← q.nextDeliveryTime
  let q₁ ← q.useADeliveryOpportunity
  let (bytesLeft, q₂) ← serve thisDeliveryTime packetSize packetSize q₁
  pure (⟨q, thisDeliveryTime, packetSize - bytesLeft, q₂.outputQueue.drop q.outputQueue.length⟩, q₂)

/-- The outer loop. Each pass through the schedule moves the base by at least one, so it is past
`now` within `now + 1` passes. -/
def rationalizeLoop (now : Nat) : Nat → LinkQueue Q → Except Fault (List (Service Q) × LinkQueue Q)
  | 0, q => do if (← q.nextDeliveryTime) ≤ now then throw .endless else pure ([], q)
  | turns + 1, q => do
    if (← q.nextDeliveryTime) ≤ now then
      let (s, q) ← q.deliver
      let (ss, q) ← rationalizeLoop now turns q
      pure (s :: ss, q)
    else pure ([], q)

def rationalize (q : LinkQueue Q) (now : Nat) : Except Fault (List (Service Q) × LinkQueue Q) :=
  rationalizeLoop now ((now + 1) * q.schedule.length) q

def readPacket (q : LinkQueue Q) (contents : Bytes) (now : Nat) : Except Fault (List (Service Q) × LinkQueue Q) := do
  if contents.length > packetSize then throw (.runtimeError (ascii "packet size is greater than maximum"))
  let (ss, q) ← q.rationalize now
  let q := q.recordArrival now contents.length
  pure (ss, { q with packetQueue := ← AbstractPacketQueue.enqueue q.packetQueue ⟨contents, now⟩ })

def waitTime (q : LinkQueue Q) (now : Nat) : Except Fault (Nat × List (Service Q) × LinkQueue Q) := do
  let (ss, q) ← q.rationalize now
  let next ← q.nextDeliveryTime
  pure (if next ≤ now then 0 else u32 (sub64 next now), ss, q)

/-- A call on the link, with what the clock reads. -/
inductive Op where
  | readPacket (contents : Bytes) (now : Nat)
  | waitTime (now : Nat)
  | writePackets
  deriving DecidableEq, Repr

/-- One call and the opportunities it used. -/
def step (q : LinkQueue Q) : Op → Except Fault (List (Service Q) × LinkQueue Q)
  | .readPacket contents now => q.readPacket contents now
  | .waitTime now => do
    let (_, ss, q) ← q.waitTime now
    pure (ss, q)
  | .writePackets => pure ([], q.writePackets.2)

end

end LinkQueue

end Frontend

end AbcMahimahi
