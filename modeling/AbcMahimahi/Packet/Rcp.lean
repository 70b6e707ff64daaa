/-
`RCPPacketQueue` (rcp_packet_queue.cc): a router that tells the senders a rate, in the payload of the packets
it forwards. The rate is a number of twenty bits in pairs of bytes at the end of the packet, and a router that
has a lower one to give writes it over.

Nobody makes the pairs of a packet even. Where the bytes of a pair are an odd number apart they never meet, and
where they are 254 apart they meet when they should be moved apart.

The rate is computed in doubles and cut to an `int`. What the `int` is, if it is one, is a parameter of
`dequeueWith`; `dequeue` takes it from the rate as an exact rational.
-/
import AbcMahimahi.Lib.PairedBits
import AbcMahimahi.Packet.Dropping

namespace AbcMahimahi.Packet

open Bytes PairedBits

structure RCPPacketQueue where
  base : DroppingPacketQueue
  qdelayRef : Nat
  alpha : ℚ
  beta : ℚ
  dqQueue : List Nat := [0]
  realDqQueue : List Nat := [0]
  realDqQueueOurScheme : List Nat := [0]
  eqQueue : List Nat := [0]
  rttAvg : List Nat := [100]
  avgRtt : Nat := 100
  lastUpdate : Nat := 0
  targetRate : ℚ := 0.5
  mode : Nat
  deriving DecidableEq

namespace RCPPacketQueue

/-- The constructor, from the values `get_arg` reads. -/
def ofArgs (packets bytes qdelayRef alpha beta mode : Nat) : Except Fault RCPPacketQueue := do
  let base ← DroppingPacketQueue.ofArgs packets bytes
  if qdelayRef = 0 ∨ (alpha : ℚ) / 100.0 = 0 ∨ (beta : ℚ) / 100.0 = 0 ∨ mode = 0 then
    throw (.runtimeError (ascii "RCP AQM queue must have qdelay_ref, alpha, beta, mode"))
  else
    pure { base := base, qdelayRef := qdelayRef, alpha := alpha / 100.0, beta := beta / 100.0, mode := mode }

/-- `enqueue`, when `timestamp()` reads `clock`. -/
def enqueue (q : RCPPacketQueue) (p : QueuedPacket) (clock : Nat) : Except Fault RCPPacketQueue := do
  let now := u32 clock
  let q := { q with eqQueue := prune 100 now q.eqQueue ++ [now] }
  let (_, base) ← q.base.admission p
  pure { q with base := base }

/-! ## The rate of a router -/

/-- An opportunity to send is recorded, used or not. -/
def opportunity (q : RCPPacketQueue) (now : Nat) : RCPPacketQueue :=
  { q with
    realDqQueue := prune 100 now q.realDqQueue ++ [now]
    realDqQueueOurScheme := prune 20 now q.realDqQueueOurScheme ++ [now] }

/-- The windows after a packet has left. -/
def recordDequeue (q : RCPPacketQueue) (now : Nat) (ret : QueuedPacket) : RCPPacketQueue :=
  let kept := prune q.avgRtt now q.dqQueue
  { q with
    dqQueue := kept ++ [now]
    rttAvg := pruneWith q.dqQueue kept q.rttAvg ++ [u32 (100 + sub64 now ret.arrivalTime)] }

/-- The rate in mode 3. Where `avg_rtt` is zero the sum is minus infinity or not a number. -/
def rcpRate (q : RCPPacketQueue) (avgRtt sizePackets : Nat) : ℚ :=
  if avgRtt = 0 then 0.05
  else
    let eta : ℚ := 0.95
    let realDqRate : ℚ := (1.0 * (q.realDqQueue.length - 1 : Nat)) / 100.0
    let eqRate : ℚ := (1.0 * (q.eqQueue.length - 1 : Nat)) / 100.0
    max 0.05 (q.targetRate * (1.0 + (100.0 / avgRtt) *
      ((q.alpha * (eta * realDqRate - eqRate) - q.beta * (sizePackets / (1.0 * avgRtt))) / (eta * realDqRate))))

/-- The rate in mode 1. -/
def ourRate (q : RCPPacketQueue) (sizePackets : Nat) : ℚ :=
  let realDqRate : ℚ := (1.0 * (q.realDqQueueOurScheme.length - 1 : Nat)) / 20.0
  let currentQdelay : ℚ := (sizePackets + 1 : Nat) / ((q.realDqQueueOurScheme.length - 1 : Nat) / 20.0)
  let delta : ℚ := 100.0
  max 0.01 (0.98 * realDqRate + q.beta * (realDqRate / delta) * min 0 (q.qdelayRef - currentQdelay))

/-- Once in 100 ms the round-trip time is averaged, and in mode 3 the rate follows. -/
def updateRtt (q : RCPPacketQueue) (now sizePackets : Nat) : RCPPacketQueue :=
  if now > u32 (q.lastUpdate + 100) then
    let avgRtt := u32 q.rttAvg.sum / q.dqQueue.length
    { q with
      avgRtt := avgRtt
      targetRate := if q.mode = 3 then q.rcpRate avgRtt sizePackets else q.targetRate
      lastUpdate := now }
  else q

def updateRate (q : RCPPacketQueue) (now sizePackets : Nat) : RCPPacketQueue :=
  let q := q.updateRtt now sizePackets
  if q.mode = 1 then { q with targetRate := q.ourRate sizePackets } else q

/-- A packet leaves, and `target_rate` is computed. -/
def leave (q : RCPPacketQueue) (now : Nat) : Except Fault (QueuedPacket × RCPPacketQueue) := do
  let (ret, base) ← q.base.dequeue
  let sizePackets ← base.sizePackets
  pure (ret, ({ q with base := base }.recordDequeue now ret).updateRate now sizePackets)

/-! ## The rate in a packet -/

def pairs (c : Bytes) : List Pair := (List.range 20).map fun i => ⟨c.length - (i * 3 + 1), c.length - (i + 1) * 3⟩

/-- `current_pkts`. -/
def decode (c : Bytes) : Int := readBits 0 (pairs c) c

/-- Write `target_pkts` over a larger number. -/
def rewrite (targetPkts : Int) (c : Bytes) : Except Hazard Bytes :=
  if targetPkts < decode c then
    match writeBits (pairs c) targetPkts.toNat c with
    | none => throw (.fault .endless)
    | some c => pure c
  else pure c

/-- `dequeue`, when `timestamp()` reads `clock` and `targetPkts` is what the doubles come to once the packet has
left: an `int`, or nothing that is one. -/
def dequeueWith (targetPkts : RCPPacketQueue → Except Hazard Int) (q : RCPPacketQueue) (clock : Nat) :
    Except Hazard (QueuedPacket × RCPPacketQueue) := do
  let now := u32 clock
  let q := q.opportunity now
  if (← watched q.base.sizePackets) = 0 then pure (⟨ascii "arbit", 0⟩, q)
  else do
    let (ret, q) ← watched (q.leave now)
    if ret.contents.length < 100 then pure (ret, q)
    else do
      let targetPkts ← targetPkts q
      let contents ← rewrite targetPkts ret.contents
      pure ({ ret with contents := contents }, q)

def exactTarget (q : RCPPacketQueue) : Except Hazard Int := toInt (q.targetRate * 1000)

/-- `dequeue` with doubles that are exact. -/
def dequeue (q : RCPPacketQueue) (clock : Nat) : Except Hazard (QueuedPacket × RCPPacketQueue) :=
  q.dequeueWith exactTarget clock

/-! ## Runs -/

/-- A call on the queue, with what it reads from the clock and what the doubles come to. -/
inductive Op where
  | enqueue (p : QueuedPacket) (clock : Nat)
  | dequeue (clock : Nat) (targetPkts : RCPPacketQueue → Except Hazard Int)

/-- One call and the packet it returns. -/
def step (q : RCPPacketQueue) : Op → Except Hazard (Option QueuedPacket × RCPPacketQueue)
  | .enqueue p clock => do
    let q ← watched (q.enqueue p clock)
    pure (none, q)
  | .dequeue clock targetPkts => do
    let (ret, q) ← q.dequeueWith targetPkts clock
    pure (some ret, q)

/-- What a run offers: packets of a size that an `int` holds. -/
def Op.Sized : Op → Prop
  | .enqueue p _ => Packet.Sized p
  | .dequeue _ _ => True

/-- A queue that some run of calls has led to from its construction, whatever the doubles came to on the way. -/
def Reached (q : RCPPacketQueue) : Prop :=
  ∃ packets bytes qdelayRef alpha beta mode q₀ ops outs, ofArgs packets bytes qdelayRef alpha beta mode = .ok q₀ ∧
    (∀ op ∈ ops, Op.Sized op) ∧ Run.steps step q₀ ops = .ok (outs, q)

/-! ## What runs keep -/

open DroppingPacketQueue

section

variable {q q' : RCPPacketQueue} {targetPkts : RCPPacketQueue → Except Hazard Int}

theorem updateRate_base (q : RCPPacketQueue) (now sizePackets : Nat) : (q.updateRate now sizePackets).base = q.base := by
  unfold updateRate updateRtt
  simp only [apply_ite RCPPacketQueue.base, ite_self]

/-- A packet leaves a queue that has one. -/
theorem leave_spec {p : QueuedPacket} {rest : List QueuedPacket} (h : Rep q.base) (hq : q.base.internalQueue = p :: rest)
    (now : Nat) : ∃ q', q.leave now = .ok (p, q') ∧ Rep q'.base := by
  obtain ⟨base, hd, hrep, -⟩ := h.dequeue hq
  unfold leave
  rw [hd, Run.ok_bind]
  dsimp only
  rw [hrep.sizePackets]
  refine ⟨_, rfl, ?_⟩
  rw [updateRate_base]
  exact hrep

/-- What `dequeueWith` does with a packet that has room for the rate. -/
theorem dequeueWith_eq {c : Bytes} {arrival : Nat} {rest : List QueuedPacket} (h : Rep q.base)
    (hq : q.base.internalQueue = ⟨c, arrival⟩ :: rest) (hlen : 100 ≤ c.length)
    (targetPkts : RCPPacketQueue → Except Hazard Int) (clock : Nat) :
    ∃ q', (q.opportunity (u32 clock)).leave (u32 clock) = .ok (⟨c, arrival⟩, q') ∧
      q.dequeueWith targetPkts clock = targetPkts q' >>= fun v => (fun c' => (⟨c', arrival⟩, q')) <$> rewrite v c := by
  have hopportunity : Rep (q.opportunity (u32 clock)).base := h
  obtain ⟨q', hl, -⟩ := leave_spec hopportunity hq (u32 clock)
  have hsize : (q.opportunity (u32 clock)).base.sizePackets = .ok (rest.length + 1) := by
    have hpackets := h.sizePackets
    rw [hq] at hpackets
    exact hpackets
  refine ⟨q', hl, ?_⟩
  unfold dequeueWith
  dsimp only
  rw [hsize, watched_ok, Run.ok_bind, if_neg (Nat.succ_ne_zero _), hl, watched_ok, Run.ok_bind]
  dsimp only
  rw [if_neg (by omega)]
  refine Run.bind_congr fun v _ => ?_
  cases rewrite v c <;> rfl

theorem dequeueWith_rep {ret : QueuedPacket} {clock : Nat} (h : Rep q.base)
    (hd : q.dequeueWith targetPkts clock = .ok (ret, q')) : Rep q'.base := by
  unfold dequeueWith at hd
  obtain ⟨n, hn, hd⟩ := Run.bind_ok hd
  split at hd
  · cases hd
    exact h
  · obtain ⟨⟨p, q₁⟩, hl, hd⟩ := Run.bind_ok hd
    have hrep : Rep q₁.base := by
      have hl := watched_eq_ok hl
      obtain ⟨⟨p', base⟩, hpop, -⟩ := Run.bind_ok hl
      obtain ⟨hq, -⟩ := dequeue_ok hpop
      obtain ⟨q₂, hl₂, hrep⟩ := leave_spec (q := q.opportunity (u32 clock)) h hq (u32 clock)
      rw [hl] at hl₂
      cases hl₂
      exact hrep
    dsimp only at hd
    split at hd
    · cases hd
      exact hrep
    · obtain ⟨v, -, hd⟩ := Run.bind_ok hd
      obtain ⟨c, -, hd⟩ := Run.bind_ok hd
      cases hd
      exact hrep

theorem step_rep {op : Op} {out : Option QueuedPacket} (h : Rep q.base) (hop : op.Sized) (hs : q.step op = .ok (out, q')) :
    Rep q'.base := by
  cases op with
  | enqueue p clock =>
    obtain ⟨q₁, he, hs⟩ := Run.bind_ok hs
    cases hs
    obtain ⟨⟨admitted, base⟩, ha, he⟩ := Run.bind_ok (watched_eq_ok he)
    cases he
    exact admit_rep h hop ha
  | dequeue clock targetPkts =>
    obtain ⟨⟨ret, q₁⟩, hd, hs⟩ := Run.bind_ok hs
    cases hs
    exact dequeueWith_rep h hd

theorem Reached.rep (h : Reached q) : Rep q.base := by
  obtain ⟨packets, bytes, qdelayRef, alpha, beta, mode, q₀, ops, outs, hq₀, hops, hrun⟩ := h
  have hstart : Rep q₀.base := by
    obtain ⟨base, hbase, hq₀⟩ := Run.bind_ok hq₀
    split at hq₀
    · cases hq₀
    · cases hq₀
      exact (rep_ofArgs hbase).1
  exact Run.steps_inv (P := fun q : RCPPacketQueue => Rep q.base) (G := fun _ op => Op.Sized op)
    (fun _ _ _ _ hrep hop hs => step_rep hrep hop hs) hstart (Run.along_of_forall (fun _ => hops) q₀) hrun

end

/-! ## The rate that is written -/

theorem pairs_eq (c : Bytes) : pairs c = (List.range 20).map (pairAt c.length) := by
  unfold pairs pairAt
  simp only [Nat.add_mul, Nat.one_mul]

theorem placed_pairs {c : Bytes} (h : 100 ≤ c.length) : Placed (pairs c) c := by
  rw [pairs_eq]
  refine placed_pairAt (fun j hj => ?_) List.pairwise_lt_range
  have := List.mem_range.1 hj
  omega

theorem length_pairs (c : Bytes) : (pairs c).length = 20 := by simp [pairs]

/-- A rate that is written over is the one that is read then, if the pairs can be brought to its bits. -/
theorem rewrite_iff {c : Bytes} {v : Int} (hlen : 100 ≤ c.length) (hlt : v < decode c) :
    (∃ c', rewrite v c = .ok c' ∧ decode c' = v ∧ Outside (pairs c) c c') ↔ 0 ≤ v ∧ Writable (pairs c) v.toNat c := by
  -- no more than twenty bits are read, so a lower rate has no more either
  have hbound : decode c < 2 ^ 20 := by
    have hbits := readBits_lt (c := c) (pairs c)
    rw [length_pairs] at hbits
    unfold decode
    omega
  have hpairs : ∀ c', Outside (pairs c) c c' → pairs c' = pairs c := fun c' hout => by rw [pairs_eq, pairs_eq, hout.length]
  have hwrites := writeBits_iff (n := v.toNat) (placed_pairs hlen) (by rw [length_pairs]; omega)
  unfold rewrite
  rw [if_pos hlt]
  -- the code either goes on for ever in a pair or returns what it has written
  constructor
  · rintro ⟨c', hbits, hdecode, hout⟩
    unfold decode at hdecode
    rw [hpairs c' hout] at hdecode
    refine ⟨by omega, hwrites.1 ⟨c', ?_, by omega, hout⟩⟩
    generalize writeBits (pairs c) v.toNat c = written at hbits ⊢
    cases written with
    | none => cases hbits
    | some c₁ =>
      cases hbits
      rfl
  · rintro ⟨hnonneg, hwritable⟩
    obtain ⟨c', hbits, hread, hout⟩ := hwrites.2 hwritable
    refine ⟨c', ?_, ?_, hout⟩
    · rw [hbits]
      rfl
    · unfold decode
      rw [hpairs c' hout, hread]
      omega

/-- In any state that a run has come to, and whatever the doubles come to, `dequeue` returns the packet at the
head with the lower of its rate and that of the router, and unchanged elsewhere, exactly when the rate of the
router is an `int` and either is not lower than that of the packet, or is not negative and finds every pair of bytes
where it can be brought to its bit. -/
theorem writes_minimum_iff {q : RCPPacketQueue} {c : Bytes} {arrival clock : Nat} {rest : List QueuedPacket}
    {target : Except Hazard Int} (hq : Reached q) (hhead : q.base.internalQueue = ⟨c, arrival⟩ :: rest)
    (hlen : 100 ≤ c.length) :
    (∃ targetPkts c' q', target = .ok targetPkts ∧ q.dequeueWith (fun _ => target) clock = .ok (⟨c', arrival⟩, q') ∧
      decode c' = min targetPkts (decode c) ∧ Outside (pairs c) c c') ↔
    ∃ targetPkts, target = .ok targetPkts ∧
      (decode c ≤ targetPkts ∨ 0 ≤ targetPkts ∧ Writable (pairs c) targetPkts.toNat c) := by
  obtain ⟨q', -, hd⟩ := dequeueWith_eq hq.rep hhead hlen (fun _ => target) clock
  rcases target with e | v
  · simp
  rw [Run.ok_bind] at hd
  -- a lower rate is written, a higher one leaves the packet as it is
  rcases lt_or_ge v (decode c) with hlt | hge
  · have hrewrite := rewrite_iff hlen hlt
    constructor
    · rintro ⟨w, c', q₁, hw, hdequeue, hdecode, hout⟩
      cases hw
      rw [min_eq_left hlt.le] at hdecode
      refine ⟨v, rfl, Or.inr (hrewrite.1 ⟨c', ?_, hdecode, hout⟩)⟩
      rw [hd] at hdequeue
      generalize rewrite v c = written at hdequeue ⊢
      cases written with
      | error e => cases hdequeue
      | ok c₁ =>
        cases hdequeue
        rfl
    · rintro ⟨w, hw, hcond⟩
      cases hw
      obtain ⟨c', hok, hdecode, hout⟩ := hrewrite.2 (hcond.resolve_left (by omega))
      refine ⟨v, c', q', rfl, ?_, ?_, hout⟩
      · rw [hd, hok]
        rfl
      · rw [min_eq_left hlt.le, hdecode]
  · have hsame : rewrite v c = .ok c := if_neg (by omega)
    rw [hsame] at hd
    constructor
    · rintro -
      exact ⟨v, rfl, Or.inl hge⟩
    · rintro -
      exact ⟨v, c, q', rfl, hd, (min_eq_right hge).symm, .refl _ _⟩

/-- A router in mode 1 with one packet of 100 bytes, and how it was before that arrived. -/
def idle : RCPPacketQueue := { base := { packetLimit := 10, byteLimit := 0 }, qdelayRef := 50, alpha := 100 / 100.0, beta := 100 / 100.0, mode := 1 }

def holding (c : Bytes) : RCPPacketQueue :=
  { idle with
    base := { packetLimit := 10, byteLimit := 0, queueSizeInBytes := 100, queueSizeInPackets := 1, internalQueue := [⟨c, 0⟩] }
    eqQueue := [0, 0] }

theorem reached_holding {c : Bytes} (hlen : c.length = 100) : Reached (holding c) := by
  refine ⟨10, 0, 50, 100, 100, 1, idle, [.enqueue ⟨c, 0⟩ 0], [none], ?_, ?_, ?_⟩
  · unfold ofArgs
    rw [show DroppingPacketQueue.ofArgs 10 0 = .ok idle.base from rfl, Run.ok_bind, if_neg (by norm_num)]
    rfl
  · intro op hop
    obtain rfl := List.mem_singleton.1 hop
    exact ⟨by dsimp only; omega, by dsimp only; omega⟩
  · have hadmission : idle.base.admission ⟨c, 0⟩ = .ok (true, (holding c).base) := by
      unfold DroppingPacketQueue.admission DroppingPacketQueue.goodWithPacket DroppingPacketQueue.accept
      dsimp only
      rw [hlen]
      rfl
    refine Run.steps_cons (show step idle _ = .ok (none, holding c) from ?_) rfl
    unfold step enqueue
    dsimp only
    rw [show ({ idle with eqQueue := prune 100 (u32 0) idle.eqQueue ++ [u32 0] } : RCPPacketQueue).base = idle.base from rfl, hadmission]
    rfl

/-- With all bytes equal the packet gives the highest rate, and leaves with that of the router. -/
theorem writes_minimum_small :
    ∃ c' q', (holding (List.replicate 100 0)).dequeueWith (fun _ => .ok 49) 100 = .ok (⟨c', 0⟩, q') ∧ decode c' = 49 := by
  have hzero : ∀ i, (List.replicate 100 (0 : UInt8)).getD i 0 = 0 := by
    intro i
    rw [List.getD_eq_getElem?_getD, List.getElem?_replicate]
    split <;> rfl
  have hdifference : ∀ p : Pair, p.difference (List.replicate 100 0) = 0 := fun p => by
    unfold Pair.difference
    rw [hzero, hzero]
    rfl
  obtain ⟨targetPkts, c', q', htarget, hd, hdecode, -⟩ := (@writes_minimum_iff _ (List.replicate 100 0) 0 100 [] (.ok 49)
    (reached_holding List.length_replicate) rfl (by rw [List.length_replicate])).2
      ⟨49, rfl, Or.inr ⟨by decide, fun i p _ => by rw [hdifference]; split <;> decide⟩⟩
  cases htarget
  refine ⟨c', q', hd, hdecode.trans ?_⟩
  unfold decode
  rw [pairs_eq, List.length_replicate]
  decide +kernel

/-- The last byte is one more than the byte before the last, and the rate of the router is odd: the two are moved
towards each other for ever. -/
theorem odd_pair_endless :
    Reached (holding (List.replicate 99 0 ++ [1])) ∧
    (holding (List.replicate 99 0 ++ [1])).dequeueWith (fun _ => .ok 49) 100 = .error (.fault .endless) ∧
    (holding (List.replicate 99 0 ++ [1])).dequeue 100 = .error (.fault .endless) ∧
    ∀ turns, (pairAt 100 0).equalise turns (List.replicate 99 0 ++ [1]) = none := by
  have hlen : (List.replicate 99 (0 : UInt8) ++ [1]).length = 100 := by
    rw [List.length_append, List.length_replicate, List.length_singleton]
  have hpairs : pairs (List.replicate 99 0 ++ [1]) = pairAt 100 0 :: (List.range' 1 19).map (pairAt 100) := by
    rw [pairs_eq, hlen]
    rfl
  have hendless : ∀ turns, (pairAt 100 0).equalise turns (List.replicate 99 0 ++ [1]) = none := by
    refine fun turns => Pair.equalise_odd turns ⟨?_, ?_, by decide⟩ (by decide +kernel)
    · rw [hlen]
      decide
    · rw [hlen]
      decide
  have hrewrite : rewrite 49 (List.replicate 99 0 ++ [1]) = .error (.fault .endless) := by
    have hlow : 49 < decode (List.replicate 99 0 ++ [1]) := by
      unfold decode
      rw [hpairs]
      decide +kernel
    have hwrite : writeBits (pairs (List.replicate 99 0 ++ [1])) (49 : Int).toNat (List.replicate 99 0 ++ [1]) = none := by
      rw [hpairs]
      unfold writeBits writeBit
      rw [if_pos (by decide), hendless]
      rfl
    unfold rewrite
    rw [if_pos hlow, hwrite]
    rfl
  have hdequeue := fun targetPkts => @dequeueWith_eq (holding (List.replicate 99 0 ++ [1])) (List.replicate 99 0 ++ [1]) 0 []
    (reached_holding hlen).rep rfl hlen.ge targetPkts 100
  refine ⟨reached_holding hlen, ?_, ?_, hendless⟩
  · obtain ⟨q', -, hd⟩ := hdequeue fun _ => .ok 49
    rw [hd, Run.ok_bind, hrewrite]
    rfl
  · obtain ⟨q', hleave, hd⟩ := hdequeue exactTarget
    have htarget : (fun r => exactTarget r.2) <$>
        ((holding (List.replicate 99 0 ++ [1])).opportunity (u32 100)).leave (u32 100) = .ok (.ok 49) := by decide +kernel
    rw [hleave] at htarget
    replace htarget : exactTarget q' = .ok 49 := Except.ok.inj htarget
    unfold dequeue
    rw [hd, htarget, Run.ok_bind, hrewrite]
    rfl

end RCPPacketQueue

end AbcMahimahi.Packet
