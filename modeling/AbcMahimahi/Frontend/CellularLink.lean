/-
The emulated link over the ABC router. `rationalize` replays a missed opportunity at the time it was
due, but `CELLULARPacketQueue::dequeue` reads the clock itself: the record of a packet that leaves in
a late opportunity is the time of the call, and with it the rates and the marks of later packets.
When every `dequeue` that looks at the clock, for an ECT packet or on an empty queue, reads the millisecond
in which its opportunity is due, the marks depend neither on the polls nor on what else the clock reads.
-/
import AbcMahimahi.Frontend.Polling
import AbcMahimahi.Packet.Conservation

namespace AbcMahimahi

open Bytes Packet

namespace Frontend

open CatchUp

/-- A `CELLULARPacketQueue`, with what `timestamp()` reads in each `dequeue`. -/
structure CellularDiscipline where
  queue : CELLULARPacketQueue
  clock : Nat → Nat
  calls : Nat := 0

instance : AbstractPacketQueue CellularDiscipline where
  enqueue q p := (fun queue => { q with queue := queue }) <$> q.queue.enqueue p
  dequeue q := (fun r => (r.1, { q with queue := r.2, calls := q.calls + 1 })) <$> q.queue.dequeue (q.clock q.calls)
  empty q := q.queue.base.empty
  toString q := q.queue.base.toString (ascii "cellular")

/-- To send that many bytes more, an opportunity takes packets from the front of the queue, in calls of `dequeue`
from that one on. Where it takes an ECT packet or finds the queue empty, the call reads the time given. -/
def ReadsAt (time : Nat) (clock : Nat → Nat) : Nat → Nat → List QueuedPacket → Prop
  | bytes, call, [] => bytes = 0 ∨ u32 (clock call) = u32 time
  | bytes, call, p :: rest => bytes = 0 ∨ (ecn p.contents = iptosEcnNotEct ∨ u32 (clock call) = u32 time) ∧
      ReadsAt time clock (bytes - u32 p.contents.length) (call + 1) rest

instance decidableReadsAt (time : Nat) (clock : Nat → Nat) : ∀ (bytes call : Nat) (queue : List QueuedPacket),
    Decidable (ReadsAt time clock bytes call queue)
  | bytes, call, [] => inferInstanceAs (Decidable (bytes = 0 ∨ u32 (clock call) = u32 time))
  | bytes, call, p :: rest =>
    have := decidableReadsAt time clock (bytes - u32 p.contents.length) (call + 1) rest
    inferInstanceAs (Decidable (bytes = 0 ∨ (ecn p.contents = iptosEcnNotEct ∨ u32 (clock call) = u32 time) ∧
      ReadsAt time clock (bytes - u32 p.contents.length) (call + 1) rest))

namespace CellularDiscipline

/-- The same queue, where the clock reads other times. -/
def reading (q : CellularDiscipline) (clock : Nat → Nat) (calls : Nat) : CellularDiscipline :=
  { q with clock := clock, calls := calls }

/-- Before an opportunity is good for that many bytes more, the queue will read its time. -/
def Reads (q : CellularDiscipline) (time bytes : Nat) : Prop :=
  ReadsAt time q.clock bytes q.calls q.queue.base.internalQueue

end CellularDiscipline

/-- Only the time in milliseconds of 32 bits counts, and none at all for a Not-ECT packet. -/
theorem dequeue_congr {q : CELLULARPacketQueue} {clock clock' : Nat}
    (h : ∀ p rest, q.base.internalQueue = p :: rest → ecn p.contents = iptosEcnNotEct ∨ u32 clock = u32 clock')
    (hempty : q.base.internalQueue = [] → u32 clock = u32 clock') : q.dequeue clock = q.dequeue clock' := by
  unfold CELLULARPacketQueue.dequeue
  cases hqueue : q.base.internalQueue with
  | nil => rw [hempty hqueue]
  | cons p rest =>
    have hsome : q.base.empty = false := by
      unfold DroppingPacketQueue.empty
      rw [hqueue]
      rfl
    rw [hsome]
    simp only [Bool.false_eq_true, if_false]
    refine Run.bind_congr fun r hr => ?_
    obtain ⟨ret, base⟩ := r
    obtain ⟨hcons, -, -⟩ := DroppingPacketQueue.dequeue_ok hr
    rw [hqueue] at hcons
    obtain ⟨rfl, -⟩ := List.cons.inj hcons
    rcases h p rest hqueue with hnotEct | hclock
    · simp only [if_pos hnotEct]
    · rw [hclock]

/-- What the router returns from a queue with packets is the first one, but for a mark. -/
theorem dequeue_front {q q' : CELLULARPacketQueue} {clock : Nat} {p ret : QueuedPacket} {rest : List QueuedPacket}
    (hqueue : q.base.internalQueue = p :: rest) (h : q.dequeue clock = .ok (ret, q')) :
    ret.contents.length = p.contents.length ∧ q'.base.internalQueue = rest := by
  rcases CELLULARPacketQueue.dequeue_cases h with ⟨hnil, -, -⟩ | ⟨p', base, hbase, hcases⟩
  · rw [hqueue] at hnil
    cases hnil
  · obtain ⟨hcons, -, -⟩ := DroppingPacketQueue.dequeue_ok hbase
    rw [hqueue] at hcons
    obtain ⟨rfl, rfl⟩ := List.cons.inj hcons
    rcases hcases with ⟨-, rfl, rfl⟩ | ⟨-, hspend⟩
    · exact ⟨rfl, rfl⟩
    · obtain ⟨hsame, hbase'⟩ := CELLULARPacketQueue.spend_same
        { ({ q with base := base }.recordDequeue (u32 clock)) with tokens := q.tokens + q.nextCredit clock } p
      rw [← hspend] at hsame hbase'
      dsimp only at hsame hbase'
      exact ⟨hsame.length, congrArg DroppingPacketQueue.internalQueue hbase'⟩

variable {time bytes : Nat}

/-- Two queues that are the same but for the clock, and read the same time, return the same. -/
theorem dequeue_reading {q q' : CellularDiscipline} {p : QueuedPacket} {clock : Nat → Nat} {calls : Nat} (hbytes : bytes ≠ 0)
    (hq : q.Reads time bytes) (hr : (q.reading clock calls).Reads time bytes)
    (h : AbstractPacketQueue.dequeue q = .ok (p, q')) :
    AbstractPacketQueue.dequeue (q.reading clock calls) = .ok (p, q'.reading clock (calls + 1)) ∧
      (AbstractPacketQueue.empty q = false → q'.Reads time (bytes - u32 p.contents.length) ∧
        (q'.reading clock (calls + 1)).Reads time (bytes - u32 p.contents.length)) := by
  obtain ⟨⟨ret, queue⟩, hdequeue, heq⟩ := Run.map_eq_ok (x := q.queue.dequeue (q.clock q.calls)) h
  cases heq
  replace hq : ReadsAt time q.clock bytes q.calls q.queue.base.internalQueue := hq
  replace hr : ReadsAt time clock bytes calls q.queue.base.internalQueue := hr
  constructor
  -- the router sees the same time of either clock, or a packet it does not mark
  · have hsame : q.queue.dequeue (clock calls) = q.queue.dequeue (q.clock q.calls) := by
      refine dequeue_congr (fun p rest hqueue => ?_) (fun hqueue => ?_)
      · rw [hqueue] at hq hr
        rcases (hq.resolve_left hbytes).1 with hnotEct | hclock
        · exact Or.inl hnotEct
        · exact (hr.resolve_left hbytes).1.imp id fun hclock' => hclock'.trans hclock.symm
      · rw [hqueue] at hq hr
        exact (hr.resolve_left hbytes).trans (hq.resolve_left hbytes).symm
    show (fun r => (r.1, _)) <$> q.queue.dequeue (clock calls) = _
    rw [hsame, hdequeue]
    rfl
  · intro hsome
    -- what is left of the opportunity is less by the packet
    cases hqueue : q.queue.base.internalQueue with
    | nil =>
      replace hsome : q.queue.base.internalQueue.isEmpty = false := hsome
      rw [hqueue] at hsome
      cases hsome
    | cons p rest =>
      obtain ⟨hlen, hrest⟩ := dequeue_front hqueue hdequeue
      rw [hqueue] at hq hr
      unfold CellularDiscipline.Reads CellularDiscipline.reading
      dsimp only
      rw [hlen, hrest]
      exact ⟨(hq.resolve_left hbytes).2, (hr.resolve_left hbytes).2⟩

namespace LinkQueue

/-- The same link, where the clock reads other times. -/
def reading (q : LinkQueue CellularDiscipline) (clock : Nat → Nat) (calls : Nat) : LinkQueue CellularDiscipline :=
  { q with packetQueue := q.packetQueue.reading clock calls }

/-- The opportunity due at that time is used on time, as far as the queue looks at the clock. -/
def OnTime (q : LinkQueue CellularDiscipline) (time : Nat) : Prop :=
  q.packetQueue.Reads time (packetSize - q.packetInTransitBytesLeft)

instance (q : LinkQueue CellularDiscipline) (time : Nat) : Decidable (OnTime q time) := decidableReadsAt _ _ _ _ _

/-- Two links that are the same but for the clock of the queue. -/
def Alike (q r : LinkQueue CellularDiscipline) : Prop := ∃ clock calls, r = q.reading clock calls

/-- The same opportunity, used in the same way. -/
structure ServedAlike (s s' : Service CellularDiscipline) : Prop where
  before : Alike s.before s'.before
  time : s'.time = s.time
  sent : s'.sent = s.sent
  pushed : s'.pushed = s.pushed

variable {q q' : LinkQueue CellularDiscipline} {clock : Nat → Nat} {calls : Nat}

theorem fetch_reading {found : Bool} (hbytes : bytes ≠ 0) (hq : q.packetQueue.Reads time (bytes - q.packetInTransitBytesLeft))
    (hr : (q.packetQueue.reading clock calls).Reads time (bytes - q.packetInTransitBytesLeft)) (h : q.fetch = .ok (found, q')) :
    ∃ calls', (q.reading clock calls).fetch = .ok (found, q'.reading clock calls') ∧
      (found = true → q'.packetQueue.Reads time (bytes - q'.packetInTransitBytesLeft) ∧
        (q'.packetQueue.reading clock calls').Reads time (bytes - q'.packetInTransitBytesLeft)) := by
  have hname : dequeuesWhenEmpty (q.packetQueue.reading clock calls) = dequeuesWhenEmpty q.packetQueue := rfl
  have hempty' : AbstractPacketQueue.empty (q.packetQueue.reading clock calls) = AbstractPacketQueue.empty q.packetQueue := rfl
  unfold fetch at h ⊢
  unfold reading
  dsimp only
  rw [hempty', hname]
  -- with a packet in transit the clock is not read
  by_cases h0 : q.packetInTransitBytesLeft ≠ 0
  · rw [if_pos h0] at h ⊢
    cases h
    exact ⟨calls, rfl, fun _ => ⟨hq, hr⟩⟩
  · rw [if_neg h0] at h ⊢
    rw [not_not] at h0
    rw [h0, Nat.sub_zero] at hq hr
    cases hempty : AbstractPacketQueue.empty q.packetQueue with
    | true =>
      rw [hempty, if_pos rfl] at h
      rw [if_pos rfl]
      -- on an empty queue the router looks at the clock all the same
      by_cases hname : dequeuesWhenEmpty q.packetQueue = true
      · rw [if_pos hname] at h ⊢
        obtain ⟨⟨p, packetQueue⟩, hdequeue, h⟩ := Run.bind_ok h
        cases h
        obtain ⟨hdequeue', -⟩ := dequeue_reading hbytes hq hr hdequeue
        rw [hdequeue']
        exact ⟨calls + 1, rfl, fun hfound => absurd hfound Bool.false_ne_true⟩
      · rw [if_neg hname] at h ⊢
        cases h
        exact ⟨calls, rfl, fun hfound => absurd hfound Bool.false_ne_true⟩
    | false =>
      rw [hempty, if_neg Bool.false_ne_true] at h
      rw [if_neg Bool.false_ne_true]
      obtain ⟨⟨p, packetQueue⟩, hdequeue, h⟩ := Run.bind_ok h
      cases h
      obtain ⟨hdequeue', hreads⟩ := dequeue_reading hbytes hq hr hdequeue
      rw [hdequeue']
      exact ⟨calls + 1, rfl, fun _ => hreads hempty⟩

theorem use_reading (h : q.useADeliveryOpportunity = .ok q') :
    (q.reading clock calls).useADeliveryOpportunity = .ok (q'.reading clock calls) := by
  obtain ⟨q₁, hrecord, h⟩ := Run.bind_ok h
  obtain ⟨due, hdue, hrecord⟩ := Run.bind_ok hrecord
  cases hrecord
  have hdue' : (q.reading clock calls).nextDeliveryTime = .ok due := hdue
  unfold useADeliveryOpportunity recordDepartureOpportunity
  rw [hdue']
  by_cases hwrap : u32 (q.nextDelivery + 1) % q.schedule.length = 0
  · replace h := (if_pos hwrap).symm.trans h
    refine (if_pos hwrap).trans ?_
    by_cases hrepeats : q.repeats = true
    · replace h := (if_pos hrepeats).symm.trans h
      cases h
      exact if_pos hrepeats
    · replace h := (if_neg hrepeats).symm.trans h
      cases h
      exact if_neg hrepeats
  · replace h := (if_neg hwrap).symm.trans h
    cases h
    exact if_neg hwrap

theorem send_reading {amount : Nat} (h : q.send time amount = .ok q') :
    (q.reading clock calls).send time amount = .ok (q'.reading clock calls) := by
  unfold send depart recordDeparture at h ⊢
  by_cases hdone : q.packetInTransitBytesLeft - amount = 0
  · replace h := (if_pos hdone).symm.trans h
    refine (if_pos hdone).trans ?_
    dsimp only [reading] at h ⊢
    cases hports : substr q.packetInTransit.contents 24 4 with
    | none =>
      rw [hports] at h
      cases h
    | some ports =>
      rw [hports] at h
      cases h
      rfl
  · replace h := (if_neg hdone).symm.trans h
    cases h
    exact if_neg hdone

theorem serve_reading : ∀ {turns bytes left : Nat} {q q' : LinkQueue CellularDiscipline} {calls : Nat},
    q.packetQueue.Reads time (bytes - q.packetInTransitBytesLeft) →
    (q.packetQueue.reading clock calls).Reads time (bytes - q.packetInTransitBytesLeft) →
    serve time turns bytes q = .ok (left, q') →
    ∃ calls', serve time turns bytes (q.reading clock calls) = .ok (left, q'.reading clock calls')
  | 0, _, _, _, _, calls, _, _, h => by
    cases h
    exact ⟨calls, rfl⟩
  | turns + 1, bytes, left, q, q', calls, hq, hr, h => by
    unfold serve at h ⊢
    by_cases hbytes : bytes = 0
    · rw [if_pos hbytes] at h ⊢
      cases h
      exact ⟨calls, rfl⟩
    · rw [if_neg hbytes] at h ⊢
      obtain ⟨⟨found, q₁⟩, hfetch, h⟩ := Run.bind_ok h
      obtain ⟨calls₁, hfetch', hreads⟩ := fetch_reading hbytes hq hr hfetch
      rw [hfetch', Run.ok_bind]
      dsimp only at h ⊢
      cases found with
      | false =>
        cases h
        exact ⟨calls₁, rfl⟩
      | true =>
        obtain ⟨hq₁, hr₁⟩ := hreads rfl
        simp only [Bool.not_true, Bool.false_eq_true, if_false] at h ⊢
        obtain ⟨_, harrived, h⟩ := Run.bind_ok h
        obtain ⟨_, hsize, h⟩ := Run.bind_ok h
        obtain ⟨_, hpos, h⟩ := Run.bind_ok h
        obtain ⟨_, hcontents, h⟩ := Run.bind_ok h
        obtain ⟨q₂, hsend, h⟩ := Run.bind_ok h
        obtain ⟨-, hleft, hqueue⟩ := send_ok hsend
        -- what is left of the delivery and of the packet in transit shrinks alike
        have hless : bytes - min bytes q₁.packetInTransitBytesLeft - q₂.packetInTransitBytesLeft =
            bytes - q₁.packetInTransitBytesLeft := by omega
        obtain ⟨calls', hrest⟩ := serve_reading (by rw [hless, hqueue]; exact hq₁) (by rw [hless, hqueue]; exact hr₁) h
        exact ⟨calls', Run.bind_eq_ok harrived (Run.bind_eq_ok hsize (Run.bind_eq_ok hpos (Run.bind_eq_ok hcontents
          (Run.bind_eq_ok (send_reading hsend) hrest))))⟩

/-- While both are on time, links that are alike use their opportunities alike. -/
theorem lockstep : Lockstep nextDeliveryTime deliver OnTime Alike ServedAlike where
  ready := by
    rintro q r ⟨clock, calls, rfl⟩
    rfl
  step := by
    rintro q r t s q' ⟨clock, calls, rfl⟩ hdue hq hr h
    obtain ⟨due, hdue', h⟩ := Run.bind_ok h
    rw [hdue] at hdue'
    cases hdue'
    obtain ⟨q₁, huse, h⟩ := Run.bind_ok h
    obtain ⟨⟨left, q₂⟩, hserve, h⟩ := Run.bind_ok h
    cases h
    obtain ⟨-, hleft, hqueue⟩ := use_ok huse
    obtain ⟨calls', hserve'⟩ := @serve_reading t clock _ _ _ _ _ calls (by rw [hleft, hqueue]; exact hq)
      (by rw [hleft, hqueue]; exact hr) hserve
    refine ⟨⟨q.reading clock calls, t, packetSize - left, q'.outputQueue.drop q.outputQueue.length⟩,
      q'.reading clock calls', ?_, ⟨⟨clock, calls, rfl⟩, rfl, rfl, rfl⟩, clock, calls', rfl⟩
    have hdue' : (q.reading clock calls).nextDeliveryTime = .ok t := hdue
    unfold deliver
    rw [hdue', Run.ok_bind, use_reading huse, Run.ok_bind, hserve']
    rfl

theorem takes_alike : Takes Alike := by
  rintro q r contents t packetQueue ⟨clock, calls, rfl⟩ h
  obtain ⟨queue, hqueue, rfl⟩ := Run.map_eq_ok (x := q.packetQueue.queue.enqueue ⟨contents, t⟩) h
  refine ⟨({ q.packetQueue with queue := queue } : CellularDiscipline).reading clock calls, ?_, clock, calls, rfl⟩
  show (fun queue => _) <$> q.packetQueue.queue.enqueue ⟨contents, t⟩ = _
  rw [hqueue]
  rfl

/-- When every opportunity that a call of either run comes to is on time for what the queue then reads of the
clock, runs with the same arrivals go alike, whatever the polls: when one returns so does the other, each
opportunity pushes the same packets with the same marks, and the links at the end differ in the clock at most. -/
theorem ce_marks_alike {schedule : List Nat} {base : Nat} {queue : CELLULARPacketQueue} {clock clock' : Nat → Nat}
    {log : Option (List LogLine)} {repeats : Bool} {ops ops' : List Op} {now : Nat} (hschedule : schedule ≠ [])
    (hbase : base < 2 ^ 64) (horder : InOrder ops now) (horder' : InOrder ops' now)
    (harrivals : ops.filterMap Op.arrival = ops'.filterMap Op.arrival)
    (hon : Run.Along step (Meets OnTime)
      { schedule := schedule, baseTimestamp := base, packetQueue := ⟨queue, clock, 0⟩, log := log, repeats := repeats }
      (ops ++ [.waitTime now]))
    (hon' : Run.Along step (Meets OnTime)
      { schedule := schedule, baseTimestamp := base, packetQueue := ⟨queue, clock', 0⟩, log := log, repeats := repeats }
      (ops' ++ [.waitTime now]))
    {ss : List (Service CellularDiscipline)} {q : LinkQueue CellularDiscipline}
    (hrun : emulate
      { schedule := schedule, baseTimestamp := base, packetQueue := ⟨queue, clock, 0⟩, log := log, repeats := repeats }
      ops now = .ok (ss, q)) :
    ∃ ss' q', emulate
      { schedule := schedule, baseTimestamp := base, packetQueue := ⟨queue, clock', 0⟩, log := log, repeats := repeats }
      ops' now = .ok (ss', q') ∧ List.Forall₂ ServedAlike ss ss' ∧ Alike q q' := by
  have hindex : 0 < schedule.length := List.length_pos_iff.2 hschedule
  refine emulate_lockstep lockstep takes_alike ?_ ?_ horder horder' harrivals hon hon' ⟨clock', 0, rfl⟩ hrun
  · exact ⟨hindex, hbase⟩
  · exact ⟨hindex, hbase⟩

/-- An ECT packet of 28 bytes, and a Not-ECT packet that fills an opportunity. -/
def ectPacket : Bytes := [0, 0, 8, 0, 69, 1] ++ List.replicate 22 0

def notEctPacket : Bytes := [0, 0, 8, 0, 69, 0] ++ List.replicate 1498 0

/-- A link with opportunities at 30 and 61 ms over an ABC router that aims at a delay of 4 ms. -/
def abcLink (clock : Nat → Nat) : LinkQueue CellularDiscipline :=
  { schedule := [30, 61]
    baseTimestamp := 0
    packetQueue := { queue := { base := { packetLimit := 100, byteLimit := 0 }, qdelayRef := 4, delta := 1 }, clock := clock }
    repeats := true }

/-- A computation of `Meets OnTime`. -/
def onTimeCheck (q : LinkQueue CellularDiscipline) (op : Op) : Bool :=
  op.time.all fun now => alwaysCheck nextDeliveryTime deliver OnTime now 8 q

theorem meets_of_check (q : LinkQueue CellularDiscipline) (op : Op) (h : onTimeCheck q op = true) : Meets OnTime q op := by
  intro now hnow
  rw [Option.mem_def] at hnow
  unfold onTimeCheck at h
  rw [hnow] at h
  exact always_of_check h

/-- The Not-ECT packet leaves at 30 ms, or at 45 ms for want of a poll; the ECT packet leaves at 61 ms. -/
theorem ce_marks_alike_small : ∃ ss q ss' q',
    (abcLink fun call => if call = 0 then 30 else 61).emulate
      [.readPacket notEctPacket 0, .readPacket ectPacket 0, .waitTime 30, .waitTime 45] 61 = .ok (ss, q) ∧
    (abcLink fun call => if call = 0 then 45 else 61).emulate
      [.readPacket notEctPacket 0, .readPacket ectPacket 0, .waitTime 45] 61 = .ok (ss', q') ∧
    List.Forall₂ ServedAlike ss ss' ∧ Alike q q' := by
  obtain ⟨⟨ss, q⟩, hrun⟩ := Run.ok_of_isOk (x := (abcLink fun call => if call = 0 then 30 else 61).emulate
    [.readPacket notEctPacket 0, .readPacket ectPacket 0, .waitTime 30, .waitTime 45] 61) (by decide +kernel)
  obtain ⟨ss', q', hrun', halike⟩ := @ce_marks_alike _ _ _ _ (fun call => if call = 0 then 45 else 61) _ _
    [.readPacket notEctPacket 0, .readPacket ectPacket 0, .waitTime 30, .waitTime 45]
    [.readPacket notEctPacket 0, .readPacket ectPacket 0, .waitTime 45] 61 (by decide) (by decide) ⟨by simp, by decide⟩
    ⟨by simp, by decide⟩ rfl (Run.along_of_check meets_of_check (by decide +kernel))
    (Run.along_of_check meets_of_check (by decide +kernel)) ss q hrun
  exact ⟨ss, q, ss', q', hrun, hrun', halike⟩

/-- Every `dequeue` in the call reads the time of the call. -/
def Prompt (q : LinkQueue CellularDiscipline) (op : Op) : Prop :=
  ∀ now ∈ op.time, ∀ ss q', q.step op = .ok (ss, q') →
    ∀ i ∈ List.range' q.packetQueue.calls (q'.packetQueue.calls - q.packetQueue.calls), q.packetQueue.clock i = now

/-- The ECN fields of the packets pushed in a run. -/
def ecnFields (r : List (Service CellularDiscipline) × LinkQueue CellularDiscipline) : List UInt8 :=
  (r.1.flatMap (·.pushed)).map ecn

/-- A computation of `Prompt`. -/
def promptCheck (q : LinkQueue CellularDiscipline) (op : Op) : Bool :=
  op.time.all fun now =>
    match q.step op with
    | .ok (_, q') => (List.range' q.packetQueue.calls (q'.packetQueue.calls - q.packetQueue.calls)).all
        fun i => q.packetQueue.clock i = now
    | .error _ => true

theorem prompt_of_check (q : LinkQueue CellularDiscipline) (op : Op) (h : promptCheck q op = true) : Prompt q op := by
  intro now hnow ss q' hstep i hi
  rw [Option.mem_def] at hnow
  unfold promptCheck at h
  rw [hnow, hstep] at h
  exact of_decide_eq_true (List.all_eq_true.1 h i hi)

/-- Five packets arrive at the start and one at 60 ms, and every `dequeue` reads the time of its call. A poll at
30 ms records the first five when they leave, and the last one is marked; without it they are recorded at 60 ms,
and it is not. -/
theorem ce_marks_depend_on_polls :
    InOrder (List.replicate 5 (.readPacket ectPacket 0) ++ [.waitTime 30, .readPacket ectPacket 60]) 61 ∧
    InOrder (List.replicate 5 (.readPacket ectPacket 0) ++ [.readPacket ectPacket 60]) 61 ∧
    Run.Along step Prompt (abcLink fun call => if call < 6 then 30 else 61)
      (List.replicate 5 (.readPacket ectPacket 0) ++ [.waitTime 30, .readPacket ectPacket 60] ++ [.waitTime 61]) ∧
    Run.Along step Prompt (abcLink fun call => if call < 6 then 60 else 61)
      (List.replicate 5 (.readPacket ectPacket 0) ++ [.readPacket ectPacket 60] ++ [.waitTime 61]) ∧
    ((abcLink fun call => if call < 6 then 30 else 61).emulate
      (List.replicate 5 (.readPacket ectPacket 0) ++ [.waitTime 30, .readPacket ectPacket 60]) 61).map ecnFields =
        .ok [1, 1, 1, 1, 1, 3] ∧
    ((abcLink fun call => if call < 6 then 60 else 61).emulate
      (List.replicate 5 (.readPacket ectPacket 0) ++ [.readPacket ectPacket 60]) 61).map ecnFields =
        .ok [1, 1, 1, 1, 1, 1] :=
  ⟨⟨by decide, by decide⟩, ⟨by decide, by decide⟩, Run.along_of_check prompt_of_check (by decide +kernel),
    Run.along_of_check prompt_of_check (by decide +kernel), by decide +kernel, by decide +kernel⟩

end LinkQueue

end Frontend

end AbcMahimahi
