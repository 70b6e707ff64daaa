/-
`XCPPacketQueue` (xcp_packet_queue.cc): a router that tells the senders how to change their windows, in the
payload of the packets it forwards. The feedback is a signed number of twenty bits, and a packet carries the
least that any router on its path has given.

The twenty bits and the sign are pairs of bytes at the end of the packet. A router that writes a zero, or a
minus, moves the bytes of a pair apart by two, so the differences stay even and the pairs can be made equal
again, and after fewer than 127 routers none has come round to zero. Doubles are exact rationals.
-/
import AbcMahimahi.Lib.PairedBits
import AbcMahimahi.Packet.Dropping

namespace AbcMahimahi.Packet

open Bytes PairedBits

structure XCPPacketQueue where
  base : DroppingPacketQueue
  alpha : ℚ
  beta : ℚ
  dqQueue : List Nat := [0]
  dqQueue2 : List Nat := [0]
  realDqQueue : List Nat := [0]
  eqQueue : List Nat := [0]
  rttAvg : List Nat := [100]
  qsizeAvg : List Nat := [0]
  avgRtt : Nat := 100
  avgQsize : Nat := 0
  /-- None where it is not a number. -/
  eta : Option ℚ := some 0.5
  deriving DecidableEq

namespace XCPPacketQueue

/-- The constructor, from the values `get_arg` reads. -/
def ofArgs (packets bytes alpha beta : Nat) : Except Fault XCPPacketQueue := do
  let base ← DroppingPacketQueue.ofArgs packets bytes
  if (alpha : ℚ) / 100.0 = 0 ∨ (beta : ℚ) / 100.0 = 0 then
    throw (.runtimeError (ascii "XCP AQM queue must have qdelay_ref, alpha, beta, mode"))
  else
    pure { base := base, alpha := alpha / 100.0, beta := beta / 100.0 }

/-- `enqueue`, when `timestamp()` reads `clock`. -/
def enqueue (q : XCPPacketQueue) (p : QueuedPacket) (clock : Nat) : Except Fault XCPPacketQueue := do
  let now := u32 clock
  let q := { q with eqQueue := prune q.avgRtt now q.eqQueue ++ [now] }
  let (_, base) ← q.base.admission p
  pure { q with base := base }

/-! ## The feedback of a router -/

/-- An opportunity to send is recorded, used or not. -/
def opportunity (q : XCPPacketQueue) (now : Nat) : XCPPacketQueue :=
  { q with realDqQueue := prune q.avgRtt now q.realDqQueue ++ [now] }

/-- The windows after a packet has left. -/
def recordDequeue (q : XCPPacketQueue) (now : Nat) (ret : QueuedPacket) (sizePackets : Nat) : XCPPacketQueue :=
  let kept := prune q.avgRtt now q.dqQueue
  let kept2 := prune 100 now q.dqQueue2
  { q with
    dqQueue := kept ++ [now]
    dqQueue2 := kept2 ++ [now]
    rttAvg := pruneWith q.dqQueue kept q.rttAvg ++ [u32 (100 + sub64 now ret.arrivalTime)]
    qsizeAvg := pruneWith q.dqQueue2 kept2 q.qsizeAvg ++ [sizePackets] }

/-- `eta`, which is not a number where `avg_rtt` is zero. -/
def updateEta (q : XCPPacketQueue) : XCPPacketQueue :=
  let avgRtt := u32 q.rttAvg.sum / q.dqQueue.length
  let avgQsize := q.qsizeAvg.foldl min (q.qsizeAvg.headD 0)
  let delta : ℚ := avgRtt
  let realDqRate : ℚ := (1.0 * (q.realDqQueue.length - 1 : Nat)) / avgRtt
  let eqRate : ℚ := (1.0 * (q.eqQueue.length - 1 : Nat)) / avgRtt
  let phi := q.alpha * delta * (realDqRate - eqRate) - q.beta * avgQsize
  { q with
    avgRtt := avgRtt
    avgQsize := avgQsize
    eta := if avgRtt = 0 then none else some (phi / q.dqQueue.length) }

/-- A packet leaves, and `eta` is computed. -/
def leave (q : XCPPacketQueue) (now : Nat) : Except Fault (QueuedPacket × XCPPacketQueue) := do
  let (ret, base) ← q.base.dequeue
  let sizePackets ← base.sizePackets
  pure (ret, ({ q with base := base }.recordDequeue now ret sizePackets).updateEta)

/-- `int(eta*1000)`. -/
def feedback (q : XCPPacketQueue) : Except Hazard Int :=
  match q.eta with
  | none => throw .conversion
  | some eta => toInt (eta * 1000)

/-! ## The feedback in a packet -/

def signPair (c : Bytes) : Pair := ⟨c.length - 1, c.length - 3⟩

def bitPairs (c : Bytes) : List Pair := (List.range 20).map fun i => ⟨c.length - ((1 + i) * 3 + 1), c.length - ((1 + i) * 3 + 3)⟩

/-- `incoming_target_pkts`. -/
def decode (c : Bytes) : Int :=
  if (signPair c).Equal c then (readBits 0 (bitPairs c) c : Int) else -(readBits 0 (bitPairs c) c : Int)

/-- Write `target_pkts` in its place. -/
def rewrite (targetPkts : Int) (c : Bytes) : Except Hazard Bytes :=
  if targetPkts = -2 ^ 31 then throw .overflow
  else
    let c := if targetPkts < 0 then (signPair c).move 1 c else c
    match writeBits (bitPairs c) targetPkts.natAbs c with
    | none => throw (.fault .endless)
    | some c => pure c

/-- `dequeue`, when `timestamp()` reads `clock`. -/
def dequeue (q : XCPPacketQueue) (clock : Nat) : Except Hazard (QueuedPacket × XCPPacketQueue) := do
  let now := u32 clock
  let q := q.opportunity now
  if (← watched q.base.sizePackets) = 0 then pure (⟨ascii "arbit", 0⟩, q)
  else do
    let (ret, q) ← watched (q.leave now)
    if ret.contents.length < 300 then pure (ret, q)
    else do
      let targetPkts ← q.feedback
      let contents ← rewrite (min targetPkts (decode ret.contents)) ret.contents
      pure ({ ret with contents := contents }, q)

/-- The feedback that the next `dequeue` computes. -/
def nextFeedback (q : XCPPacketQueue) (clock : Nat) : Except Hazard Int := do
  let (_, q) ← watched ((q.opportunity (u32 clock)).leave (u32 clock))
  q.feedback

/-! ## Runs -/

/-- A call on the queue, with what it reads from the clock. -/
inductive Op where
  | enqueue (p : QueuedPacket) (clock : Nat)
  | dequeue (clock : Nat)
  deriving DecidableEq, Repr

/-- One call and the packet it returns. -/
def step (q : XCPPacketQueue) : Op → Except Hazard (Option QueuedPacket × XCPPacketQueue)
  | .enqueue p clock => do
    let q ← watched (q.enqueue p clock)
    pure (none, q)
  | .dequeue clock => do
    let (ret, q) ← q.dequeue clock
    pure (some ret, q)

/-- What a run offers: packets of a size that an `int` holds. -/
def Op.Sized : Op → Prop
  | .enqueue p _ => Packet.Sized p
  | .dequeue _ => True

/-- A queue that some run of calls has led to from its construction. -/
def Reached (q : XCPPacketQueue) : Prop :=
  ∃ packets bytes alpha beta q₀ ops outs, ofArgs packets bytes alpha beta = .ok q₀ ∧ (∀ op ∈ ops, Op.Sized op) ∧
    Run.steps step q₀ ops = .ok (outs, q)

/-- A packet goes through routers one after the other, and they compute these values. -/
inductive Path : Bytes → List Int → Bytes → Prop
  | nil (c : Bytes) : Path c [] c
  | hop {c c' c'' : Bytes} {v : Int} {vs : List Int} {q q' : XCPPacketQueue} {clock arrival : Nat} {rest : List QueuedPacket}
      (hq : Reached q) (hhead : q.base.internalQueue = ⟨c, arrival⟩ :: rest) (hv : q.nextFeedback clock = .ok v)
      (hd : q.dequeue clock = .ok (⟨c', arrival⟩, q')) (hrest : Path c' vs c'') : Path c (v :: vs) c''

/-! ## One router -/

section

variable {c c' : Bytes}

/-- The sign and the bits. -/
def pairs (c : Bytes) : List Pair := signPair c :: bitPairs c

theorem pairs_eq (c : Bytes) : pairs c = (List.range 21).map (pairAt c.length) := rfl

theorem pairs_of_length (h : c'.length = c.length) : pairs c' = pairs c := by
  rw [pairs_eq, pairs_eq, h]

theorem placed_pairs (h : 300 ≤ c.length) : Placed (pairs c) c := by
  rw [pairs_eq]
  refine placed_pairAt (fun j hj => ?_) List.pairwise_lt_range
  have := List.mem_range.1 hj
  omega

theorem length_bitPairs (c : Bytes) : (bitPairs c).length = 20 := by simp [bitPairs]

/-- A packet that has gone through `k` routers at most: the differences are even, and the sign is that of the
number. -/
structure Carried (k : Nat) (c : Bytes) : Prop where
  long : 300 ≤ c.length
  even : ∀ p ∈ pairs c, p.difference c % 2 = 0 ∧ p.difference c ≤ 2 * k
  sign : (signPair c).Equal c ↔ 0 ≤ decode c

theorem decode_bound (c : Bytes) : -2 ^ 20 < decode c ∧ decode c < 2 ^ 20 := by
  have hlt := readBits_lt (c := c) (bitPairs c)
  rw [length_bitPairs] at hlt
  unfold decode
  split <;> omega

theorem carried_start (hlen : 300 ≤ c.length) (hequal : ∀ p ∈ pairs c, p.Equal c) : Carried 0 c ∧ decode c = 2 ^ 20 - 1 := by
  have hsign : (signPair c).Equal c := hequal _ (List.mem_cons_self ..)
  have hones : readBits 0 (bitPairs c) c = 2 ^ 20 - 1 := by
    refine (readBits_eq_iff (by rw [length_bitPairs]; decide)).2 fun i p hp => ?_
    have hi : i < 20 := by
      have := (List.getElem?_eq_some_iff.1 hp).1
      rwa [length_bitPairs] at this
    have hbits : ∀ i < 20, (2 ^ 20 - 1) / 2 ^ i % 2 = 1 := by decide
    simp only [hbits i hi, iff_true]
    exact hequal p (List.mem_cons_of_mem _ (List.mem_of_getElem? hp))
  have hdecode : decode c = 2 ^ 20 - 1 := by
    unfold decode
    rw [if_pos hsign, hones]
    rfl
  refine ⟨⟨hlen, fun p hp => ?_, ?_⟩, hdecode⟩
  · have := Pair.equal_iff.1 (hequal p hp)
    omega
  · rw [hdecode]
    simp [hsign]

/-- A router writes the number into the packet, and takes no pair further apart than by two. -/
theorem Carried.rewrite {k : Nat} {target : Int} (h : Carried k c) (hk : k < 126) (hlow : -2 ^ 20 < target)
    (hle : target ≤ decode c) :
    ∃ c', rewrite target c = .ok c' ∧ decode c' = target ∧ Outside (pairs c) c c' ∧ Carried (k + 1) c' := by
  have hplaced := placed_pairs h.long
  have hhigh := (decode_bound c).2
  obtain ⟨hsignWithin, hclear⟩ := hplaced.head
  -- the packet with the sign written
  obtain ⟨c₁, hc₁⟩ : ∃ c₁, c₁ = if target < 0 then (signPair c).move 1 c else c := ⟨_, rfl⟩
  have hout₁ : Outside [signPair c] c c₁ := by
    rw [hc₁]
    split
    · exact Pair.outside_move 1 c
    · exact .refl _ _
  have hsign₁ : (signPair c).difference c₁ % 2 = 0 ∧ (signPair c).difference c₁ ≤ 2 * (k + 1) ∧
      ((signPair c).difference c₁ = 0 ↔ 0 ≤ target) := by
    obtain ⟨heven, hsmall⟩ := h.even _ (List.mem_cons_self ..)
    rw [hc₁]
    split
    · have hmove := Pair.difference_move hsignWithin 1
      rw [show (1 : UInt8).toNat = 1 from rfl] at hmove
      omega
    · have hzero := Pair.equal_iff.1 (h.sign.2 (by omega))
      omega
  have hsame : ∀ p ∈ bitPairs c, p.difference c₁ = p.difference c := fun p hp =>
    hout₁.difference fun q hq => by
      rw [List.mem_singleton.1 hq]
      exact (hclear p hp).symm
  have hplaced₁ : Placed (bitPairs c) c₁ := hplaced.tail.of_length hout₁.length
  have hwritable : Writable (bitPairs c) target.natAbs c₁ := by
    intro i p hp
    have hmem := List.mem_of_getElem? hp
    obtain ⟨heven, hsmall⟩ := h.even p (List.mem_cons_of_mem _ hmem)
    rw [hsame p hmem]
    split <;> omega
  obtain ⟨c', hw, hread, hout⟩ := (writeBits_iff hplaced₁ (by rw [length_bitPairs]; omega)).2 hwritable
  obtain ⟨-, hleft⟩ := writeBits_some hplaced₁ hw
  have hout' : Outside (pairs c) c c' := (hout₁.mono (by simp [pairs])).trans (hout.mono fun p hp => List.mem_cons_of_mem _ hp)
  have hpairs := pairs_of_length hout'.length
  have hsignPair : signPair c' = signPair c := (List.cons.inj hpairs).1
  have hbitPairs : bitPairs c' = bitPairs c := (List.cons.inj hpairs).2
  have hsign' : (signPair c).difference c' = (signPair c).difference c₁ := hout.difference hclear
  have hequal : (signPair c).Equal c' ↔ 0 ≤ target := by
    rw [Pair.equal_iff, hsign']
    exact hsign₁.2.2
  have hdecode : decode c' = target := by
    unfold decode
    rw [hsignPair, hbitPairs, hread]
    by_cases hpos : 0 ≤ target
    · rw [if_pos (hequal.2 hpos)]
      omega
    · rw [if_neg (fun heq => hpos (hequal.1 heq))]
      omega
  refine ⟨c', ?_, hdecode, hout', ?_, ?_, ?_⟩
  · unfold XCPPacketQueue.rewrite
    rw [if_neg (by omega), ← hc₁]
    dsimp only
    have hbits₁ : bitPairs c₁ = bitPairs c := (List.cons.inj (pairs_of_length hout₁.length)).2
    rw [hbits₁, hw]
    rfl
  · rw [hout'.length]
    exact h.long
  · intro p hp
    rw [hpairs] at hp
    rcases List.mem_cons.1 hp with rfl | hp
    · rw [hsign']
      omega
    · obtain ⟨i, hi⟩ := List.getElem?_of_mem hp
      have hleft := hleft i p hi
      obtain ⟨heven, hsmall⟩ := h.even p (List.mem_cons_of_mem _ hp)
      rw [hsame p hp] at hleft
      split at hleft <;> omega
  · rw [hsignPair, hequal, hdecode]

end

/-! ## The queue of a router -/

section

open DroppingPacketQueue

variable {q q' : XCPPacketQueue}

theorem enqueue_rep {p : QueuedPacket} {clock : Nat} (h : Rep q.base) (hp : Sized p) (he : q.enqueue p clock = .ok q') :
    Rep q'.base := by
  unfold enqueue at he
  obtain ⟨⟨admitted, base⟩, ha, he⟩ := Run.bind_ok he
  cases he
  exact admit_rep h hp ha

/-- A packet leaves a queue that has one. -/
theorem leave_spec {p : QueuedPacket} {rest : List QueuedPacket} (h : Rep q.base) (hq : q.base.internalQueue = p :: rest)
    (now : Nat) : ∃ q', q.leave now = .ok (p, q') ∧ Rep q'.base := by
  obtain ⟨base, hd, hrep, -⟩ := h.dequeue hq
  unfold leave
  rw [hd, Run.ok_bind]
  dsimp only
  rw [hrep.sizePackets]
  exact ⟨_, rfl, hrep⟩

/-- What `dequeue` does with a packet that has room for the feedback. -/
theorem dequeue_eq {c : Bytes} {arrival : Nat} {rest : List QueuedPacket} (h : Rep q.base)
    (hq : q.base.internalQueue = ⟨c, arrival⟩ :: rest) (hlen : 300 ≤ c.length) (clock : Nat) :
    ∃ q', Rep q'.base ∧ q.nextFeedback clock = q'.feedback ∧
      q.dequeue clock = q'.feedback >>= fun v => (fun c' => (⟨c', arrival⟩, q')) <$> rewrite (min v (decode c)) c := by
  obtain ⟨q', hl, hrep⟩ := leave_spec (q := q.opportunity (u32 clock)) h hq (u32 clock)
  have hsize : (q.opportunity (u32 clock)).base.sizePackets = .ok (rest.length + 1) := by
    have hpackets := h.sizePackets
    rw [hq] at hpackets
    exact hpackets
  refine ⟨q', hrep, ?_, ?_⟩
  · unfold nextFeedback
    rw [hl]
    rfl
  · unfold dequeue
    dsimp only
    rw [hsize, watched_ok, Run.ok_bind, if_neg (Nat.succ_ne_zero _), hl, watched_ok, Run.ok_bind]
    dsimp only
    rw [if_neg (by omega)]
    cases q'.feedback with
    | error e => rfl
    | ok v => rw [Run.ok_bind, Run.ok_bind]; cases rewrite (min v (decode c)) c <;> rfl

theorem dequeue_rep {ret : QueuedPacket} {clock : Nat} (h : Rep q.base) (hd : q.dequeue clock = .ok (ret, q')) : Rep q'.base := by
  unfold dequeue at hd
  obtain ⟨n, hn, hd⟩ := Run.bind_ok hd
  split at hd
  · cases hd
    exact h
  · obtain ⟨⟨p, q₁⟩, hl, hd⟩ := Run.bind_ok hd
    have hrep : Rep q₁.base := by
      have hl := watched_eq_ok hl
      obtain ⟨⟨p', base⟩, hpop, -⟩ := Run.bind_ok hl
      obtain ⟨hq, -⟩ := dequeue_ok hpop
      obtain ⟨q₂, hl₂, hrep⟩ := leave_spec (q := q.opportunity (u32 clock)) h hq (u32 clock)
      rw [hl] at hl₂
      cases hl₂
      exact hrep
    dsimp only at hd
    split at hd
    · cases hd
      exact hrep
    · obtain ⟨v, -, hd⟩ := Run.bind_ok hd
      obtain ⟨c, -, hd⟩ := Run.bind_ok hd
      cases hd
      exact hrep

theorem step_rep {op : Op} {out : Option QueuedPacket} (h : Rep q.base) (hop : op.Sized) (hs : q.step op = .ok (out, q')) :
    Rep q'.base := by
  cases op with
  | enqueue p clock =>
    obtain ⟨q₁, he, hs⟩ := Run.bind_ok hs
    cases hs
    exact enqueue_rep h hop (watched_eq_ok he)
  | dequeue clock =>
    obtain ⟨⟨ret, q₁⟩, hd, hs⟩ := Run.bind_ok hs
    cases hs
    exact dequeue_rep h hd

theorem Reached.rep (h : Reached q) : Rep q.base := by
  obtain ⟨packets, bytes, alpha, beta, q₀, ops, outs, hq₀, hops, hrun⟩ := h
  have hstart : Rep q₀.base := by
    obtain ⟨base, hbase, hq₀⟩ := Run.bind_ok hq₀
    split at hq₀
    · cases hq₀
    · cases hq₀
      exact (rep_ofArgs hbase).1
  exact Run.steps_inv (G := fun _ op => Op.Sized op) (P := fun q => Rep q.base)
    (fun _ _ _ _ hrep hop hs => step_rep hrep hop hs) hstart (Run.along_of_forall (fun _ => hops) q₀) hrun

end

/-! ## A path of routers -/

theorem Path.carried {c c' : Bytes} {vs : List Int} (h : Path c vs c') : ∀ {k : Nat}, Carried k c → k + vs.length ≤ 126 →
    (∀ v ∈ vs, -2 ^ 20 < v ∧ v < 2 ^ 20) →
    Carried (k + vs.length) c' ∧ decode c' = vs.foldl min (decode c) ∧ Outside (pairs c) c c' := by
  induction h with
  | nil c =>
    intro k hc _ _
    exact ⟨hc, rfl, .refl _ _⟩
  | @hop c c₁ c' v vs q q' clock arrival rest hq hhead hv hd _ ih =>
    intro k hc hk hvs
    obtain ⟨q₁, -, hfeedback, hdequeue⟩ := dequeue_eq hq.rep hhead hc.long clock
    rw [hfeedback] at hv
    rw [hv, Run.ok_bind] at hdequeue
    have hvbound := hvs v (List.mem_cons_self ..)
    have hbound := decode_bound c
    rw [List.length_cons] at hk
    obtain ⟨c₂, hrewrite, hdecode, hout, hcarried⟩ := hc.rewrite (by omega) (by omega)
      (min_le_right v (decode c))
    rw [hrewrite, hd] at hdequeue
    cases hdequeue
    obtain ⟨hcarried', hdecode', hout'⟩ := ih hcarried (by omega) (fun w hw => hvs w (List.mem_cons_of_mem _ hw))
    rw [pairs_of_length hout.length] at hout'
    refine ⟨?_, ?_, hout.trans hout'⟩
    · rw [List.length_cons, show k + (vs.length + 1) = k + 1 + vs.length by omega]
      exact hcarried'
    · rw [hdecode', hdecode, List.foldl_cons, min_comm]

/-- A packet that has come through at most 126 routers carries the least of what they gave, and has changed in
nothing but the pairs; and while it has come through fewer, the next router that holds it can send it on. -/
theorem feedback_survives {c c' : Bytes} {vs : List Int} (hlen : 300 ≤ c.length) (hequal : ∀ p ∈ pairs c, p.Equal c)
    (hpath : Path c vs c') (hn : vs.length ≤ 126) (hvs : ∀ v ∈ vs, |v| < 2 ^ 20) :
    decode c' = vs.foldl min (2 ^ 20 - 1) ∧ Outside (pairs c) c c' ∧
      (vs.length < 126 → ∀ q clock arrival rest v, Reached q → q.base.internalQueue = ⟨c', arrival⟩ :: rest →
        q.nextFeedback clock = .ok v → |v| < 2 ^ 20 → ∃ c'' q', q.dequeue clock = .ok (⟨c'', arrival⟩, q')) := by
  obtain ⟨hstart, hones⟩ := carried_start hlen hequal
  obtain ⟨hcarried, hdecode, hout⟩ := hpath.carried hstart (by omega) fun v hv => abs_lt.1 (hvs v hv)
  rw [hones] at hdecode
  refine ⟨hdecode, hout, fun hmore q clock arrival rest v hq hhead hv hbound => ?_⟩
  obtain ⟨q', -, hfeedback, hdequeue⟩ := dequeue_eq hq.rep hhead hcarried.long clock
  rw [hfeedback] at hv
  have hvbound := abs_lt.1 hbound
  have hdbound := decode_bound c'
  obtain ⟨c'', hrewrite, -⟩ := hcarried.rewrite (by omega) (by omega) (min_le_right v (decode c'))
  rw [hv, Run.ok_bind, hrewrite] at hdequeue
  exact ⟨c'', q', hdequeue⟩

instance : ∀ op, Decidable (Op.Sized op)
  | .enqueue p _ => inferInstanceAs (Decidable (Sized p))
  | .dequeue _ => inferInstanceAs (Decidable True)

/-- A router that has just been set up. -/
def idle : XCPPacketQueue := { base := { packetLimit := 10, byteLimit := 0 }, alpha := 40 / 100.0, beta := 20 / 100.0 }

/-- After these calls, the first packet, and what the router tells it and makes of it at 4 ms. -/
def served (ops : List Op) : Except Hazard (Option QueuedPacket × Int × QueuedPacket) := do
  let (_, q) ← Run.steps step idle ops
  let v ← q.nextFeedback 4
  let (ret, _) ← q.dequeue 4
  pure (q.base.internalQueue.head?, v, ret)

theorem path_served (ops : List Op) {c c'' : Bytes} (c' : Bytes) {v : Int} {vs : List Int} (hops : ∀ op ∈ ops, op.Sized)
    (h : served ops = .ok (some ⟨c, 0⟩, v, ⟨c', 0⟩)) (hrest : Path c' vs c'') : Path c (v :: vs) c'' := by
  obtain ⟨⟨outs, q⟩, hrun, h⟩ := Run.bind_ok h
  obtain ⟨v', hv, h⟩ := Run.bind_ok h
  obtain ⟨⟨ret, q'⟩, hd, h⟩ := Run.bind_ok h
  have hserved := Except.ok.inj h
  simp only [Prod.mk.injEq] at hserved
  obtain ⟨hhead, rfl, rfl⟩ := hserved
  obtain ⟨rest, hqueue⟩ := List.head?_eq_some_iff.1 hhead
  have hreached : Reached q := by
    refine ⟨10, 0, 40, 20, idle, ops, outs, ?_, hops, hrun⟩
    unfold ofArgs
    rw [show DroppingPacketQueue.ofArgs 10 0 = .ok idle.base from rfl, Run.ok_bind, if_neg (by norm_num)]
    rfl
  exact .hop hreached hqueue hv hd hrest

/-- A packet in which the bytes of each pair are so far from where they met, the pair of the sign being the last. -/
def apart (ds : List UInt8) : Bytes := List.replicate 237 0 ++ ds.flatMap fun d => [-d, 0, d]

/-- Routers have told it 800, and then -400. -/
def told800 : Bytes := apart [1, 1, 1, 1, 1, 1, 1, 1, 1, 1, 0, 0, 1, 1, 0, 1, 1, 1, 1, 1, 0]

def told400 : Bytes := apart [2, 2, 2, 2, 2, 2, 2, 2, 2, 2, 1, 0, 0, 2, 1, 0, 2, 2, 2, 2, 1]

/-- Of two routers on its way the second has too many packets. -/
theorem feedback_survives_small : Path (List.replicate 300 0) [800, -400] told400 ∧ decode told400 = -400 := by
  have hpath : Path (List.replicate 300 0) [800, -400] told400 := by
    refine path_served ((List.range 4).map .dequeue ++ [.enqueue ⟨List.replicate 300 0, 0⟩ 3]) told800 ?_ ?_ <|
      path_served (List.replicate 3 (.enqueue ⟨told800, 0⟩ 3)) _ ?_ ?_ (.nil _)
    all_goals decide +kernel
  have hlen : 300 ≤ (List.replicate 300 (0 : UInt8)).length := by rw [List.length_replicate]
  have hequal : ∀ p ∈ pairs (List.replicate 300 0), p.Equal (List.replicate 300 0) := by decide +kernel
  exact ⟨hpath, (feedback_survives hlen hequal hpath (by decide) (by decide)).1⟩

end XCPPacketQueue

end AbcMahimahi.Packet
