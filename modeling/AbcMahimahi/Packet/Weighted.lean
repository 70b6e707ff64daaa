/-
`WEIGHTEDPacketQueue` (weighted_packet_queue.cc): a drop-tail queue and an ABC router side by side.
A packet goes to one of them by its source port; a weighted draw decides which one a `dequeue`
takes from, and the weight follows the rates of the ports through a water-filling. Doubles are
exact rationals; what is computed for the other weight modes or only printed is left out.
-/
import AbcMahimahi.Packet.Cellular

namespace AbcMahimahi.Packet

open Bytes DroppingPacketQueue

structure WEIGHTEDPacketQueue where
  base : DroppingPacketQueue
  weight : ℚ := 0.5
  weightCredits : ℚ := 5
  category1 : List (Nat × ℚ) := []
  category2 : List (Nat × ℚ) := []
  zombie1 : List ℚ := [1.0]
  zombie2 : List ℚ := [1.0]
  actualDeque : ℚ := 0.5
  queue1 : DroppingPacketQueue
  queue2 : CELLULARPacketQueue

namespace WEIGHTEDPacketQueue

/-- The constructor, from the values `get_arg` reads. -/
def ofArgs (packets bytes qdelayRef beta delta : Nat) : Except Fault WEIGHTEDPacketQueue := do
  let base ← DroppingPacketQueue.ofArgs packets bytes
  let queue1 ← DroppingPacketQueue.ofArgs packets bytes
  let queue2 ← CELLULARPacketQueue.ofArgs packets bytes qdelayRef delta
  if qdelayRef = 0 ∨ (beta : ℚ) / 100.0 = 0 then
    throw (.runtimeError (ascii "WEIGHTED AQM queue must have qdelay_ref, beta"))
  else
    pure { base := base, queue1 := queue1, queue2 := queue2 }

/-- `_parse_ports`. -/
def parsePorts (s : Bytes) : Nat × Nat :=
  ((s.getD 0 0).toNat * 256 + (s.getD 1 0).toNat, (s.getD 2 0).toNat * 256 + (s.getD 3 0).toNat)

/-- `M`. -/
def zombies : Nat := 1000

def prob : ℚ := 0.25

def alpha : ℚ := prob / zombies

/-! ## The rates of the ports -/

/-- Add `alpha` to the rate of a port of the map, whose ports are in order. -/
def addAlpha (src : Nat) : List (Nat × ℚ) → List (Nat × ℚ)
  | [] => [(src, alpha)]
  | (port, rate) :: rest =>
    if src < port then (src, alpha) :: (port, rate) :: rest
    else if src = port then (port, rate + alpha) :: rest
    else (port, rate) :: addAlpha src rest

/-- The update of a list of zombies, on the draws `rand()` and, where it is called again, `rand()`. -/
def updateZombies (zombie : List ℚ) (src draw draw' : Nat) : List ℚ :=
  let zombie := zombie.set 0 ((1 - alpha) * zombie.getD 0 0)
  let random := draw % zombies + 1
  if zombie.length ≤ zombies then
    let zombie := zombie ++ [(src : ℚ)]
    zombie.set 0 (zombie.getD 0 0 + alpha)
  else if zombie.getD random 0 = src then
    zombie.set 0 (zombie.getD 0 0 + alpha)
  else if ((draw' % zombies : Nat) : ℚ) < zombies * prob then
    zombie.set random src
  else zombie

/-- The packets with such a source port go to `queue1`. -/
def toQueue1 (src : Nat) : Bool := src < 5200

def enqueue1 (q : WEIGHTEDPacketQueue) (p : QueuedPacket) (src draw draw' : Nat) : Except Fault WEIGHTEDPacketQueue := do
  let queue1 ← DropTailPacketQueue.enqueue q.queue1 p
  pure { q with
    category1 := addAlpha src q.category1
    zombie1 := updateZombies q.zombie1 src draw draw'
    queue1 := queue1 }

def enqueue2 (q : WEIGHTEDPacketQueue) (p : QueuedPacket) (src draw draw' : Nat) : Except Fault WEIGHTEDPacketQueue := do
  let queue2 ← q.queue2.enqueue p
  pure { q with
    category2 := addAlpha src q.category2
    zombie2 := updateZombies q.zombie2 src draw draw'
    queue2 := queue2 }

def enqueue (q : WEIGHTEDPacketQueue) (p : QueuedPacket) (draw draw' : Nat) : Except Fault WEIGHTEDPacketQueue := do
  let ports ← orOutOfRange (substr p.contents 24 4)
  let src := (parsePorts ports).1
  let q ← (if toQueue1 src then q.enqueue1 p src draw draw' else q.enqueue2 p src draw draw')
  check "good()" (← q.base.good)
  pure q

/-! ## The weight -/

/-- What a port asks for, in `v3`. -/
def demand (port : Nat) (rate : ℚ) : ℚ := if port < 5197 then rate else rate * 1.1

/-- The loop that finds the level `alpha_water`, from the indices left. -/
def waterLoop (v3 v4 : List ℚ) (actualDequeOverall : ℚ) : List Nat → ℚ → ℚ
  | [], alphaWater => alphaWater
  | i :: is, _ =>
    if v4.getD i 0 + v3.getD i 0 * (v3.length - i : Nat) > actualDequeOverall then
      (actualDequeOverall - v4.getD i 0) / (v3.length - i : Nat)
    else waterLoop v3 v4 actualDequeOverall is (v3.getD i 0)

/-- `alpha_water`, of the demands and the rates of both categories. -/
def alphaWater (category1 category2 : List (Nat × ℚ)) : ℚ :=
  let v3 := ((category1 ++ category2).map fun c => demand c.1 c.2).mergeSort
  let v4 := v3.scanl (· + ·) 0
  waterLoop v3 v4 ((category1 ++ category2).map (·.2)).sum (List.range v3.length) 0

/-- `rand1` and `rand2`: the share of a category. -/
def share (alphaWater : ℚ) (category : List (Nat × ℚ)) : ℚ :=
  (category.map fun c => if c.1 < 5197 then c.2 else min (c.2 * 1.1) alphaWater).sum

/-- `weight`, before it is clamped to what was used lately and to what is allowed. -/
def clampWeight (actualDeque weight : ℚ) : ℚ :=
  min 0.95 (max 0.05 (min (1.2 * actualDeque) (max (0.8 * actualDeque) weight)))

/-- The rates of all ports decay. -/
def decay (q : WEIGHTEDPacketQueue) : WEIGHTEDPacketQueue :=
  { q with
    category1 := q.category1.map fun c => (c.1, c.2 * (1 - alpha))
    category2 := q.category2.map fun c => (c.1, c.2 * (1 - alpha)) }

/-- The weight for the rates there are. -/
def nextWeight (q : WEIGHTEDPacketQueue) : ℚ :=
  let level := alphaWater q.category1 q.category2
  let rand1 := share level q.category1
  let rand2 := share level q.category2
  clampWeight q.actualDeque (rand1 / (rand1 + rand2))

def setWeight (q : WEIGHTEDPacketQueue) (weight : ℚ) : WEIGHTEDPacketQueue :=
  { q with
    weight := weight
    weightCredits := q.weightCredits + weight
    actualDeque := q.actualDeque * (1 - alpha) }

/-! ## The draw -/

def empty (q : WEIGHTEDPacketQueue) : Bool := q.queue1.empty && q.queue2.base.empty

/-- The branch for `queue1`: an opportunity that `queue2` would have had, had it a packet, is recorded
there. -/
def dequeue1 (q : WEIGHTEDPacketQueue) (below : Bool) (clock : Nat) : Except Fault (QueuedPacket × WEIGHTEDPacketQueue) := do
  let (ret, queue1) ← q.queue1.dequeue
  let q := { q with
    weightCredits := q.weightCredits - 1
    queue1 := queue1
    actualDeque := q.actualDeque + alpha }
  if q.queue2.base.empty && !below then do
    let (_, queue2) ← q.queue2.dequeue clock
    pure (ret, { q with queue2 := queue2 })
  else pure (ret, q)

/-- The branch for `queue2`. -/
def dequeue2 (q : WEIGHTEDPacketQueue) (clock : Nat) : Except Fault (QueuedPacket × WEIGHTEDPacketQueue) := do
  let (ret, queue2) ← q.queue2.dequeue clock
  pure (ret, { q with queue2 := queue2 })

/-- The part of `dequeue` from the draw on. -/
def pick (q : WEIGHTEDPacketQueue) (clock draw : Nat) : Except Fault (QueuedPacket × WEIGHTEDPacketQueue) := do
  let random := draw % 1000
  let below : Bool := (random : ℚ) < q.weight * 1000
  let (ret, q) ← (if q.queue2.base.empty || (below && !q.queue1.empty) then q.dequeue1 below clock else q.dequeue2 clock)
  pure (ret, { q with weightCredits := min 10.0 (max (-10.0) q.weightCredits) })

/-- `dequeue`, with some weight in place of the one computed. -/
def dequeueAt (q : WEIGHTEDPacketQueue) (weight : ℚ) (clock draw : Nat) : Except Fault (QueuedPacket × WEIGHTEDPacketQueue) :=
  if q.empty then q.dequeue2 clock else (q.decay.setWeight weight).pick clock draw

def dequeue (q : WEIGHTEDPacketQueue) (clock draw : Nat) : Except Fault (QueuedPacket × WEIGHTEDPacketQueue) :=
  q.dequeueAt q.decay.nextWeight clock draw

/-! ## Runs -/

/-- A call on the queue, with what `timestamp()` and `rand()` return in it and, in a `dequeue`, the
weight. -/
inductive Op where
  | enqueue (p : QueuedPacket) (draw draw' : Nat)
  | dequeue (weight : ℚ) (clock draw : Nat)

/-- What a call did: the packet it was given and whether it was admitted, or the packet it
returned and whether `empty()` was false before. -/
inductive Outcome where
  | offered (p : QueuedPacket) (admitted : Bool)
  | returned (ret : QueuedPacket) (held : Bool)

/-- The packets in the two queues. -/
def size (q : WEIGHTEDPacketQueue) : Nat := q.queue1.internalQueue.length + q.queue2.base.internalQueue.length

def step (q : WEIGHTEDPacketQueue) : Op → Except Fault (Outcome × WEIGHTEDPacketQueue)
  | .enqueue p draw draw' => do
    let q' ← q.enqueue p draw draw'
    pure (.offered p (q.size < q'.size), q')
  | .dequeue weight clock draw => do
    let (ret, q') ← q.dequeueAt weight clock draw
    pure (.returned ret (!q.empty), q')

/-- Some constructed queue. -/
def Initial (q : WEIGHTEDPacketQueue) : Prop :=
  ∃ packets bytes qdelayRef beta delta, ofArgs packets bytes qdelayRef beta delta = .ok q

end WEIGHTEDPacketQueue

end AbcMahimahi.Packet
