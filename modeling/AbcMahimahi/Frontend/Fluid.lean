/-
The link over an infinite queue serves bytes like a work-conserving fluid link: each delivery
opportunity sends all there is up to 1504 bytes, and the packets completed are the longest
prefix of the packets read that fits in the bytes sent. No assertion fails and no call runs on
forever.

The invariant has two halves: the packets in flight are what was read and not completed, with the
bytes of them not yet sent; and they all arrived before the next opportunity is due.
-/
import AbcMahimahi.Frontend.LinkQueue

namespace AbcMahimahi.Frontend

open Bytes Packet

/-! ## The fluid link -/

/-- The bytes in a list of packets. -/
def total (l : List Bytes) : Nat := (l.map List.length).sum

@[simp] theorem total_nil : total [] = 0 := rfl

@[simp] theorem total_cons (p : Bytes) (l : List Bytes) : total (p :: l) = p.length + total l := by simp [total]

@[simp] theorem total_append (l m : List Bytes) : total (l ++ m) = total l + total m := by simp [total]

/-- `l` is the longest prefix of `reads` of at most that many bytes. -/
structure LongestPrefix (l reads : List Bytes) (bytes : Nat) : Prop where
  isPrefix : l <+: reads
  fits : total l ≤ bytes
  longest : ∀ l', l' <+: reads → total l' ≤ bytes → l'.length ≤ l.length

/-- A prefix is the longest one that fits if the packet after it does not. -/
theorem longestPrefix_of_next {l rest : List Bytes} {bytes : Nat} (hfits : total l ≤ bytes)
    (hnext : ∀ p ∈ rest.head?, bytes < total l + p.length) : LongestPrefix l (l ++ rest) bytes := by
  refine ⟨List.prefix_append l rest, hfits, fun l' hl' hb => ?_⟩
  by_contra hlong
  have hlen := hl'.length_le
  cases rest with
  | nil => rw [List.append_nil] at hlen; omega
  | cons p rest =>
    -- a longer prefix holds the next packet too
    have hsub : l ++ [p] <+: l' := by
      have hnext : l ++ [p] <+: l ++ p :: rest := ⟨rest, by simp⟩
      exact List.prefix_of_prefix_length_le hnext hl' (by simp; omega)
    obtain ⟨more, rfl⟩ := hsub
    have := hnext p rfl
    simp only [total_append, total_cons, total_nil] at hb
    omega

namespace LinkQueue

/-- The packets read and not completed yet. -/
def inFlight (q : LinkQueue InfinitePacketQueue) : List Bytes :=
  (if q.packetInTransitBytesLeft = 0 then [] else [q.packetInTransit.contents]) ++
    q.packetQueue.internalQueue.map (·.contents)

/-- The unsent remainder of the packet in transit and the bytes queued. -/
def backlog (q : LinkQueue InfinitePacketQueue) : Nat :=
  q.packetInTransitBytesLeft + total (q.packetQueue.internalQueue.map (·.contents))

/-- The services of a fluid link that has sent `sent` bytes and completed `pushed`, of the packets
`reads`: each opportunity sends what there is, up to its size, and at any time the packets
completed are the longest prefix that fits in the bytes sent. -/
def Fluid (reads : List Bytes) : Nat → List Bytes → List (Service InfinitePacketQueue) → Prop
  | sent, pushed, [] => LongestPrefix pushed reads sent
  | sent, pushed, s :: ss =>
    LongestPrefix pushed reads sent ∧ s.sent = min packetSize (backlog s.before) ∧
      Fluid reads (sent + s.sent) (pushed ++ s.pushed) ss

/-! ## The packets in flight -/

/-- A packet the link takes, that arrived by the time `t`. -/
structure Taken (t : Nat) (p : QueuedPacket) : Prop where
  low : 28 ≤ p.contents.length
  high : p.contents.length ≤ packetSize
  arrived : p.arrivalTime ≤ t

/-- The packets in flight all arrived by the time `t`. -/
structure InFlight (t : Nat) (q : LinkQueue InfinitePacketQueue) : Prop where
  left : q.packetInTransitBytesLeft ≤ q.packetInTransit.contents.length
  transit : q.packetInTransitBytesLeft ≠ 0 → Taken t q.packetInTransit
  queued : ∀ p ∈ q.packetQueue.internalQueue, Taken t p

theorem InFlight.mono {t t' : Nat} {q : LinkQueue InfinitePacketQueue} (h : InFlight t q) (ht : t ≤ t') :
    InFlight t' q := by
  have hp : ∀ p, Taken t p → Taken t' p := fun p hp => ⟨hp.low, hp.high, hp.arrived.trans ht⟩
  exact ⟨h.left, fun h0 => hp _ (h.transit h0), fun p hq => hp p (h.queued p hq)⟩

/-- The packets completed fit in the bytes sent, and one more would not. -/
theorem InFlight.longestPrefix {t sent : Nat} {pushed more : List Bytes} {q : LinkQueue InfinitePacketQueue}
    (h : InFlight t q) (hsent : sent + backlog q = total (pushed ++ inFlight q)) (hmore : ∀ p ∈ more, p ≠ []) :
    LongestPrefix pushed (pushed ++ inFlight q ++ more) sent := by
  rw [List.append_assoc]
  unfold backlog inFlight at hsent
  have hleft := h.left
  by_cases h0 : q.packetInTransitBytesLeft = 0
  · rw [h0, if_pos rfl] at hsent
    simp only [List.nil_append, total_append] at hsent
    refine longestPrefix_of_next (by omega) (fun p hp => ?_)
    have hpos : 0 < p.length := by
      unfold inFlight at hp
      rw [if_pos h0, List.nil_append] at hp
      cases hq : q.packetQueue.internalQueue with
      | nil =>
        rw [hq] at hp
        exact List.length_pos_iff.2 (hmore p (List.mem_of_mem_head? hp))
      | cons r rest =>
        rw [hq] at hp
        obtain rfl : r.contents = p := by simpa using hp
        have := (h.queued r (by rw [hq]; exact List.mem_cons_self ..)).low
        omega
    omega
  · rw [if_neg h0] at hsent
    simp only [total_append, total_cons, total_nil] at hsent
    refine longestPrefix_of_next (by omega) (fun p hp => ?_)
    unfold inFlight at hp
    rw [if_neg h0] at hp
    cases hp
    omega

/-! ## One opportunity -/

/-- Serving packets leaves the schedule and its clock alone. -/
structure SameClock (q q' : LinkQueue InfinitePacketQueue) : Prop where
  nextDelivery : q'.nextDelivery = q.nextDelivery
  schedule : q'.schedule = q.schedule
  baseTimestamp : q'.baseTimestamp = q.baseTimestamp
  repeats : q'.repeats = q.repeats
  finished : q'.finished = q.finished

theorem SameClock.refl (q : LinkQueue InfinitePacketQueue) : SameClock q q := ⟨rfl, rfl, rfl, rfl, rfl⟩

theorem SameClock.trans {q q' q'' : LinkQueue InfinitePacketQueue} (h : SameClock q q') (h' : SameClock q' q'') :
    SameClock q q'' :=
  ⟨h'.1.trans h.1, h'.2.trans h.2, h'.3.trans h.3, h'.4.trans h.4, h'.5.trans h.5⟩

theorem fetch_idle {q : LinkQueue InfinitePacketQueue} (h : backlog q = 0) {t : Nat} (hq : InFlight t q) :
    q.fetch = .ok (false, q) := by
  unfold backlog at h
  have hempty : q.packetQueue.internalQueue = [] := by
    cases hl : q.packetQueue.internalQueue with
    | nil => rfl
    | cons p rest =>
      have := (hq.queued p (by rw [hl]; exact List.mem_cons_self ..)).low
      rw [hl] at h
      simp only [List.map_cons, total_cons] at h
      omega
  have h0 : q.packetInTransitBytesLeft = 0 := by omega
  have hname : dequeuesWhenEmpty q.packetQueue = false := rfl
  unfold fetch
  rw [if_neg (by simp [h0]), hname]
  simp [AbstractPacketQueue.empty, hempty]

/-- A fetch on a link with a backlog puts a packet in transit and moves nothing else. -/
theorem fetch_spec {q : LinkQueue InfinitePacketQueue} {t : Nat} (hq : InFlight t q) (h : backlog q ≠ 0) :
    ∃ q', q.fetch = .ok (true, q') ∧ InFlight t q' ∧ q'.packetInTransitBytesLeft ≠ 0 ∧ backlog q' = backlog q ∧
      inFlight q' = inFlight q ∧ q'.outputQueue = q.outputQueue ∧ SameClock q q' := by
  unfold fetch
  by_cases h0 : q.packetInTransitBytesLeft = 0
  · rw [if_neg (by simp [h0])]
    unfold backlog at h
    cases hl : q.packetQueue.internalQueue with
    | nil => rw [hl, h0] at h; exact absurd rfl h
    | cons p rest =>
      have hp := hq.queued p (by rw [hl]; exact List.mem_cons_self ..)
      have hlow := hp.low
      have hhigh := hp.high
      have hsize : u32 p.contents.length = p.contents.length := u32_eq (by unfold packetSize at hhigh; omega)
      refine ⟨{ q with packetQueue := ⟨rest⟩, packetInTransit := p, packetInTransitBytesLeft := p.contents.length },
        ?_, ⟨le_refl _, fun _ => hp, fun r hr => hq.queued r (by rw [hl]; exact List.mem_cons_of_mem _ hr)⟩,
        by simp only; omega, ?_, ?_, rfl, ⟨rfl, rfl, rfl, rfl, rfl⟩⟩
      · simp [AbstractPacketQueue.empty, AbstractPacketQueue.dequeue, InfinitePacketQueue.dequeue, hl, hsize]
      · simp [backlog, hl, h0]
      · have hne : p.contents.length ≠ 0 := by omega
        unfold inFlight
        simp only [hl, h0, hne, if_false, if_true]
        rfl
  · rw [if_pos h0]
    exact ⟨q, rfl, hq, h0, rfl, rfl, rfl, .refl q⟩

/-- Sending bytes of the packet in transit: the backlog shrinks by that much, and the packet is
pushed when it is done. -/
theorem send_spec {q : LinkQueue InfinitePacketQueue} {t amount : Nat} (hq : InFlight t q)
    (h0 : q.packetInTransitBytesLeft ≠ 0) (hamount : amount ≤ q.packetInTransitBytesLeft) (time : Nat) :
    ∃ q' pushed, q.send time amount = .ok q' ∧ InFlight t q' ∧ backlog q' + amount = backlog q ∧
      inFlight q = pushed ++ inFlight q' ∧ q'.outputQueue = q.outputQueue ++ pushed ∧ SameClock q q' := by
  have hlow := (hq.transit h0).low
  have hleft := hq.left
  unfold send
  dsimp only
  by_cases hdone : q.packetInTransitBytesLeft - amount = 0
  · rw [if_pos hdone]
    unfold depart recordDeparture substr
    dsimp only
    rw [if_pos (by omega)]
    refine ⟨_, [q.packetInTransit.contents], rfl, ⟨by simp only [logLine]; omega, fun h => absurd hdone h, hq.queued⟩,
      ?_, ?_, rfl, ⟨rfl, rfl, rfl, rfl, rfl⟩⟩
    · simp only [backlog, logLine]; omega
    · simp only [inFlight, logLine, if_neg h0, hdone, if_true]; rfl
  · rw [if_neg hdone]
    refine ⟨_, [], rfl, ⟨by simp only; omega, fun _ => hq.transit h0, hq.queued⟩, ?_, ?_, by simp,
      ⟨rfl, rfl, rfl, rfl, rfl⟩⟩
    · simp only [backlog]; omega
    · simp only [inFlight, if_neg h0, if_neg hdone]; rfl

/-- The inner loop sends all there is, up to the bytes left in the delivery. -/
theorem serve_spec (time : Nat) : ∀ (turns bytesLeft : Nat) {q : LinkQueue InfinitePacketQueue}, InFlight time q →
    bytesLeft ≤ turns →
    ∃ q' pushed, serve time turns bytesLeft q = .ok (bytesLeft - min bytesLeft (backlog q), q') ∧ InFlight time q' ∧
      backlog q' + min bytesLeft (backlog q) = backlog q ∧ inFlight q = pushed ++ inFlight q' ∧
      q'.outputQueue = q.outputQueue ++ pushed ∧ SameClock q q'
  | 0, bytesLeft, q, hq, hle => by
    obtain rfl : bytesLeft = 0 := by omega
    exact ⟨q, [], by simp [serve], hq, by simp, rfl, by simp, .refl q⟩
  | turns + 1, bytesLeft, q, hq, hle => by
    by_cases h0 : bytesLeft = 0
    · subst h0
      exact ⟨q, [], by simp [serve], hq, by simp, rfl, by simp, .refl q⟩
    · by_cases hb : backlog q = 0
      · refine ⟨q, [], ?_, hq, by simp [hb], rfl, by simp, .refl q⟩
        unfold serve
        rw [if_neg h0, fetch_idle hb hq]
        simp [hb]
      · obtain ⟨q₁, hf, hq₁, hne, hback₁, hin₁, hout₁, hclock₁⟩ := fetch_spec hq hb
        have htaken := hq₁.transit hne
        have hleft := hq₁.left
        have hhigh := htaken.high
        have hpos : 0 < min bytesLeft q₁.packetInTransitBytesLeft := by omega
        obtain ⟨q₂, pushed, hs, hq₂, hback₂, hin₂, hout₂, hclock₂⟩ :=
          send_spec hq₁ hne (min_le_right bytesLeft q₁.packetInTransitBytesLeft) time
        obtain ⟨q', pushed', hr, hq', hback', hin', hout', hclock'⟩ :=
          serve_spec time turns (bytesLeft - min bytesLeft q₁.packetInTransitBytesLeft) hq₂ (by omega)
        have hsum : min bytesLeft (backlog q) = min bytesLeft q₁.packetInTransitBytesLeft +
            min (bytesLeft - min bytesLeft q₁.packetInTransitBytesLeft) (backlog q₂) := by omega
        refine ⟨q', pushed ++ pushed', ?_, hq', by omega, ?_, ?_, (hclock₁.trans hclock₂).trans hclock'⟩
        · unfold serve
          rw [if_neg h0, hf]
          simp only [Run.ok_bind, Bool.not_true, Bool.false_eq_true, if_false, htaken.arrived, decide_true, check_true,
            hleft, Nat.pos_of_ne_zero hne, gt_iff_lt, hs, hr, hleft.trans hhigh]
          rw [hsum, Nat.sub_sub]
        · rw [← hin₁, hin₂, hin', List.append_assoc]
        · rw [hout', hout₂, hout₁, List.append_assoc]

/-! ## The clock of the opportunities -/

/-- The length of one pass through the schedule. -/
def period (q : LinkQueue InfinitePacketQueue) : Nat := q.schedule.getLastD 0

/-- A trace the constructor accepts: times that never decrease, the last one positive. -/
structure Trace (schedule : List Nat) : Prop where
  sorted : schedule.Pairwise (· ≤ ·)
  last : 0 < schedule.getLastD 0

theorem Trace.le_last {schedule : List Nat} (h : Trace schedule) {i ms : Nat} (hi : schedule[i]? = some ms) :
    ms ≤ schedule.getLastD 0 := by
  obtain ⟨hlt, rfl⟩ := List.getElem?_eq_some_iff.1 hi
  rw [List.getLastD_eq_getLast?, List.getLast?_eq_getElem?]
  rw [List.getElem?_eq_getElem (by omega)]
  rcases Nat.lt_or_ge i (schedule.length - 1) with hlt' | hge
  · exact List.pairwise_iff_getElem.1 h.sorted i (schedule.length - 1) hlt (by omega) hlt'
  · simp only [Option.getD_some]
    have : i = schedule.length - 1 := by omega
    subst this; exact le_refl _

/-- The next opportunity is one of the schedule's and its time does not overflow. -/
structure Clocked (q : LinkQueue InfinitePacketQueue) : Prop where
  trace : Trace q.schedule
  index : q.nextDelivery < q.schedule.length
  narrow : q.nextDelivery < 2 ^ 32
  fits : q.baseTimestamp + period q < 2 ^ 64

/-- When the next opportunity is due. -/
def due (q : LinkQueue InfinitePacketQueue) : Nat :=
  if q.finished then 2 ^ 64 - 1 else q.schedule.getD q.nextDelivery 0 + q.baseTimestamp

theorem Clocked.getElem? {q : LinkQueue InfinitePacketQueue} (h : Clocked q) :
    q.schedule[q.nextDelivery]? = some (q.schedule.getD q.nextDelivery 0) := by
  rw [List.getD_eq_getElem?_getD, List.getElem?_eq_getElem h.index]; rfl

theorem Clocked.nextDeliveryTime {q : LinkQueue InfinitePacketQueue} (h : Clocked q) :
    q.nextDeliveryTime = .ok (due q) := by
  unfold LinkQueue.nextDeliveryTime due
  split
  · rfl
  · have hle := h.trace.le_last h.getElem?
    have hfits := h.fits
    unfold period at hfits
    rw [h.getElem?]
    dsimp only
    rw [u64_eq (by omega)]; rfl

/-- The opportunities at most that can be due by `now`. -/
def remaining (now : Nat) (q : LinkQueue InfinitePacketQueue) : Nat :=
  if q.finished then 0 else (now + 1 - q.baseTimestamp) * q.schedule.length - q.nextDelivery

/-- The index after this one: the next entry, or the first again. -/
theorem Clocked.next {q : LinkQueue InfinitePacketQueue} (h : Clocked q) :
    u32 (q.nextDelivery + 1) % q.schedule.length = 0 ∨
      u32 (q.nextDelivery + 1) % q.schedule.length = q.nextDelivery + 1 ∧ q.nextDelivery + 1 < q.schedule.length ∧
        q.nextDelivery + 1 < 2 ^ 32 := by
  have hi := h.index
  have hn := h.narrow
  unfold u32
  rcases Nat.lt_or_ge (q.nextDelivery + 1) (2 ^ 32) with h32 | h32
  · rw [Nat.mod_eq_of_lt h32]
    rcases Nat.lt_or_ge (q.nextDelivery + 1) q.schedule.length with hl | hl
    · exact Or.inr ⟨Nat.mod_eq_of_lt hl, hl, h32⟩
    · rw [show q.nextDelivery + 1 = q.schedule.length by omega, Nat.mod_self]; exact Or.inl rfl
  · rw [show q.nextDelivery + 1 = 2 ^ 32 by omega, Nat.mod_self, Nat.zero_mod]; exact Or.inl rfl

/-- Using an opportunity that is due: the next one is due no earlier, and fewer remain. -/
theorem use_spec {q : LinkQueue InfinitePacketQueue} {now : Nat} (h : Clocked q) (hdue : due q ≤ now)
    (hnow : now + 2 * period q < 2 ^ 64) :
    ∃ q', q.useADeliveryOpportunity = .ok q' ∧ Clocked q' ∧ q'.schedule = q.schedule ∧ due q ≤ due q' ∧
      remaining now q' < remaining now q ∧ q'.packetQueue = q.packetQueue ∧ q'.packetInTransit = q.packetInTransit ∧
      q'.packetInTransitBytesLeft = q.packetInTransitBytesLeft ∧ q'.outputQueue = q.outputQueue := by
  have hpos : 0 < period q := h.trace.last
  have hfin : q.finished = false := by
    cases hf : q.finished with
    | false => rfl
    | true => unfold due at hdue; rw [hf, if_pos rfl] at hdue; omega
  have hi := h.index
  have hle := h.trace.le_last h.getElem?
  have hperiod : q.schedule.getLastD 0 = period q := rfl
  have hd : due q = q.schedule.getD q.nextDelivery 0 + q.baseTimestamp := by unfold due; rw [hfin]; rfl
  have hpass : q.schedule.length ≤ (now + 1 - q.baseTimestamp) * q.schedule.length :=
    Nat.le_mul_of_pos_left _ (by omega)
  have hrem : remaining now q = (now + 1 - q.baseTimestamp) * q.schedule.length - q.nextDelivery := by
    unfold remaining; rw [hfin]; rfl
  unfold useADeliveryOpportunity recordDepartureOpportunity
  rw [h.nextDeliveryTime]
  simp only [Run.ok_bind, Run.pure_ok, logLine]
  rcases h.next with h0 | ⟨h1, hlt, h32⟩
  · rw [if_pos h0]
    cases hr : q.repeats with
    | true =>
      rw [if_pos rfl, hperiod, u64_eq h.fits]
      refine ⟨_, rfl, ⟨h.trace, by simp only [h0]; omega, by simp only [h0]; omega, ?_⟩, rfl, ?_, ?_, rfl, rfl, rfl, rfl⟩
      · simp only [period] at hnow ⊢; omega
      · unfold due at hd ⊢
        simp only [hfin, Bool.false_eq_true, if_false] at hd ⊢
        omega
      · -- a whole pass is over, and the base has moved by at least one
        have hmul : (now + 1 - (q.baseTimestamp + period q)) * q.schedule.length ≤
            (now + 1 - q.baseTimestamp - 1) * q.schedule.length := Nat.mul_le_mul_right _ (by omega)
        rw [Nat.sub_mul (now + 1 - q.baseTimestamp) 1, Nat.one_mul] at hmul
        rw [hrem]
        unfold remaining
        simp only [hfin, Bool.false_eq_true, if_false, h0]
        omega
    | false =>
      rw [if_neg (by simp)]
      refine ⟨_, rfl, ⟨h.trace, by simp only [h0]; omega, by simp only [h0]; omega, h.fits⟩, rfl, ?_, ?_, rfl, rfl, rfl,
        rfl⟩
      · unfold due
        simp only [hfin, Bool.false_eq_true, if_false, if_true]
        omega
      · rw [hrem]
        unfold remaining
        simp only [if_true]
        omega
  · rw [if_neg (by omega)]
    refine ⟨_, rfl, ⟨h.trace, by simp only [h1]; exact hlt, by simp only [h1]; exact h32, h.fits⟩, rfl, ?_, ?_, rfl, rfl,
      rfl, rfl⟩
    · rw [hd]
      unfold due
      simp only [hfin, Bool.false_eq_true, if_false, h1]
      have hsorted := List.pairwise_iff_getElem.1 h.trace.sorted q.nextDelivery (q.nextDelivery + 1) hi hlt (by omega)
      simp only [List.getD_eq_getElem?_getD, List.getElem?_eq_getElem hi, List.getElem?_eq_getElem hlt, Option.getD_some]
      omega
    · rw [hrem]
      unfold remaining
      simp only [hfin, Bool.false_eq_true, if_false, h1]
      omega

/-! ## The invariant -/

/-- After sending `sent` bytes and completing `pushed` of the packets `reads`. -/
structure Serving (reads : List Bytes) (sent : Nat) (pushed : List Bytes) (q : LinkQueue InfinitePacketQueue) : Prop where
  clocked : Clocked q
  flight : InFlight (due q) q
  packets : pushed ++ inFlight q = reads
  bytes : sent + backlog q = total reads

theorem Serving.longestPrefix {reads more : List Bytes} {sent : Nat} {pushed : List Bytes}
    {q : LinkQueue InfinitePacketQueue} (h : Serving reads sent pushed q) (hmore : ∀ p ∈ more, p ≠ []) :
    LongestPrefix pushed (reads ++ more) sent := by
  rw [← h.packets]
  exact h.flight.longestPrefix (by rw [h.packets]; exact h.bytes) hmore

/-- One opportunity that is due sends what there is, up to its size. -/
theorem deliver_spec {reads : List Bytes} {sent : Nat} {pushed : List Bytes} {q : LinkQueue InfinitePacketQueue}
    {now : Nat} (h : Serving reads sent pushed q) (hdue : due q ≤ now) (hnow : now + 2 * period q < 2 ^ 64) :
    ∃ s q', q.deliver = .ok (s, q') ∧ s.before = q ∧ s.sent = min packetSize (backlog q) ∧
      Serving reads (sent + s.sent) (pushed ++ s.pushed) q' ∧ q'.schedule = q.schedule ∧
      remaining now q' < remaining now q := by
  obtain ⟨q₁, hu, hclocked, hsched, hlater, hrem, hqueue, htransit, hleft, hout⟩ := use_spec h.clocked hdue hnow
  have hback : backlog q₁ = backlog q := by unfold backlog; rw [hqueue, hleft]
  have hin : inFlight q₁ = inFlight q := by unfold inFlight; rw [hqueue, hleft, htransit]
  have hflight : InFlight (due q) q₁ :=
    ⟨by rw [hleft, htransit]; exact h.flight.left, by rw [hleft, htransit]; exact h.flight.transit,
      by rw [hqueue]; exact h.flight.queued⟩
  obtain ⟨q', ps, hs, hflight', hback', hin', hout', hclock⟩ := serve_spec (due q) packetSize packetSize hflight (le_refl _)
  have hdue' : due q' = due q₁ := by
    unfold due; rw [hclock.finished, hclock.schedule, hclock.nextDelivery, hclock.baseTimestamp]
  have hrem' : remaining now q' = remaining now q₁ := by
    unfold remaining; rw [hclock.finished, hclock.schedule, hclock.nextDelivery, hclock.baseTimestamp]
  have hps : q'.outputQueue.drop q.outputQueue.length = ps := by rw [hout', hout, List.drop_left]
  refine ⟨⟨q, due q, min packetSize (backlog q), ps⟩, q', ?_, rfl, rfl, ⟨?_, ?_, ?_, ?_⟩, hclock.schedule.trans hsched,
    by omega⟩
  · unfold deliver
    rw [h.clocked.nextDeliveryTime, Run.ok_bind, hu, Run.ok_bind, hs, Run.ok_bind, hback]
    simp only [hps, Run.pure_ok]
    rw [Nat.sub_sub_self (min_le_left _ _)]
  · exact ⟨by rw [hclock.schedule]; exact hclocked.trace, by rw [hclock.schedule, hclock.nextDelivery]; exact hclocked.index,
      by rw [hclock.nextDelivery]; exact hclocked.narrow,
      by unfold period; rw [hclock.schedule, hclock.baseTimestamp]; exact hclocked.fits⟩
  · rw [hdue']; exact hflight'.mono hlater
  · simp only; rw [List.append_assoc, ← hin', hin, h.packets]
  · have := h.bytes
    simp only; omega

/-! ## Whole calls -/

theorem Fluid.append {reads : List Bytes} : ∀ {ss ts : List (Service InfinitePacketQueue)} {sent : Nat} {pushed : List Bytes},
    Fluid reads sent pushed ss →
    Fluid reads (sent + (ss.map (·.sent)).sum) (pushed ++ ss.flatMap (·.pushed)) ts → Fluid reads sent pushed (ss ++ ts)
  | [], ts, sent, pushed, _, h => by simpa using h
  | s :: ss, ts, sent, pushed, h, h' => by
    refine ⟨h.1, h.2.1, h.2.2.append ?_⟩
    simpa [Nat.add_assoc] using h'

/-- Catching up with the clock ends, and every opportunity it uses is used as the fluid link's. -/
theorem rationalizeLoop_spec {now : Nat} {reads : List Bytes} :
    ∀ (turns : Nat) {sent : Nat} {pushed : List Bytes} {q : LinkQueue InfinitePacketQueue},
      Serving reads sent pushed q → now + 2 * period q < 2 ^ 64 → remaining now q ≤ turns →
      ∃ ss q', rationalizeLoop now turns q = .ok (ss, q') ∧
        Serving reads (sent + (ss.map (·.sent)).sum) (pushed ++ ss.flatMap (·.pushed)) q' ∧ q'.schedule = q.schedule ∧
        now < due q' ∧ ∀ more, (∀ p ∈ more, p ≠ []) → Fluid (reads ++ more) sent pushed ss
  | turns, sent, pushed, q, h, hnow, hrem => by
    by_cases hdue : due q ≤ now
    · obtain ⟨s, q₁, hd, hbefore, hsent, h₁, hsched₁, hless⟩ := deliver_spec h hdue hnow
      cases turns with
      | zero => omega
      | succ turns =>
        obtain ⟨ss, q', hr, h', hsched', hlt, hfluid⟩ := rationalizeLoop_spec turns h₁
          (by unfold period at hnow ⊢; rw [hsched₁]; exact hnow) (by omega)
        refine ⟨s :: ss, q', ?_, by simpa [Nat.add_assoc] using h', hsched'.trans hsched₁, hlt, fun more hmore =>
          ⟨h.longestPrefix hmore, by rw [hbefore]; exact hsent, hfluid more hmore⟩⟩
        unfold rationalizeLoop
        rw [h.clocked.nextDeliveryTime, Run.ok_bind, if_pos hdue, hd, Run.ok_bind]
        dsimp only
        rw [hr]; rfl
    · refine ⟨[], q, ?_, by simpa using h, rfl, by omega, fun more hmore => h.longestPrefix hmore⟩
      cases turns with
      | zero =>
        unfold rationalizeLoop
        rw [h.clocked.nextDeliveryTime, Run.ok_bind, if_neg hdue]; rfl
      | succ turns =>
        unfold rationalizeLoop
        rw [h.clocked.nextDeliveryTime, Run.ok_bind, if_neg hdue]; rfl

theorem rationalize_spec {now : Nat} {reads : List Bytes} {sent : Nat} {pushed : List Bytes}
    {q : LinkQueue InfinitePacketQueue} (h : Serving reads sent pushed q) (hnow : now + 2 * period q < 2 ^ 64) :
    ∃ ss q', q.rationalize now = .ok (ss, q') ∧
      Serving reads (sent + (ss.map (·.sent)).sum) (pushed ++ ss.flatMap (·.pushed)) q' ∧ q'.schedule = q.schedule ∧
      now < due q' ∧ ∀ more, (∀ p ∈ more, p ≠ []) → Fluid (reads ++ more) sent pushed ss := by
  refine rationalizeLoop_spec _ h hnow ?_
  unfold remaining
  split
  · exact Nat.zero_le _
  · have : (now + 1 - q.baseTimestamp) * q.schedule.length ≤ (now + 1) * q.schedule.length :=
      Nat.mul_le_mul_right _ (by omega)
    omega

/-- The packet a call reads. -/
def Op.read : Op → Option Bytes
  | .readPacket contents _ => some contents
  | _ => none

/-- The calls a link of that period is prepared for: packets of 28 to 1504 bytes, at times that
leave room for the sums the schedule makes. -/
def Op.Proper (period : Nat) : Op → Prop
  | .readPacket contents now => 28 ≤ contents.length ∧ contents.length ≤ packetSize ∧ now + 2 * period < 2 ^ 64
  | .waitTime now => now + 2 * period < 2 ^ 64
  | .writePackets => True

/-- One call: it succeeds, and uses its opportunities as the fluid link does. -/
theorem step_spec {reads : List Bytes} {sent : Nat} {pushed : List Bytes} {q : LinkQueue InfinitePacketQueue} {op : Op}
    (h : Serving reads sent pushed q) (hop : op.Proper (period q)) :
    ∃ ss q', q.step op = .ok (ss, q') ∧
      Serving (reads ++ op.read.toList) (sent + (ss.map (·.sent)).sum) (pushed ++ ss.flatMap (·.pushed)) q' ∧
      q'.schedule = q.schedule ∧ ∀ more, (∀ p ∈ more, p ≠ []) → Fluid (reads ++ more) sent pushed ss := by
  cases op with
  | readPacket contents now =>
    obtain ⟨hlow, hhigh, hnow⟩ := hop
    obtain ⟨ss, q', hr, h', hsched, hdue, hfluid⟩ := rationalize_spec h hnow
    refine ⟨ss, { q'.recordArrival now contents.length with
      packetQueue := ⟨q'.packetQueue.internalQueue ++ [⟨contents, now⟩]⟩ }, ?_, ⟨?_, ?_, ?_, ?_⟩, hsched, hfluid⟩
    · unfold step readPacket
      dsimp only
      rw [if_neg (by omega), hr]; rfl
    · exact ⟨h'.clocked.trace, h'.clocked.index, h'.clocked.narrow, h'.clocked.fits⟩
    · refine ⟨h'.flight.left, h'.flight.transit, fun p hp => ?_⟩
      rcases List.mem_append.1 hp with hp | hp
      · exact h'.flight.queued p hp
      · obtain rfl := List.mem_singleton.1 hp
        exact ⟨hlow, hhigh, Nat.le_of_lt hdue⟩
    · have hpackets := h'.packets
      unfold inFlight at hpackets ⊢
      simp only [recordArrival, logLine, List.map_append, List.map_cons, List.map_nil, Op.read, Option.toList_some]
      rw [← hpackets]
      simp only [List.append_assoc]
      rfl
    · have hbytes := h'.bytes
      unfold backlog at hbytes ⊢
      simp only [recordArrival, logLine, List.map_append, List.map_cons, List.map_nil, total_append, total_cons, total_nil,
        Op.read, Option.toList_some]
      omega
  | waitTime now =>
    obtain ⟨ss, q', hr, h', hsched, hdue, hfluid⟩ := rationalize_spec h hop
    refine ⟨ss, q', ?_, by simpa [Op.read] using h', hsched, hfluid⟩
    unfold step waitTime
    dsimp only
    rw [hr, Run.ok_bind]
    dsimp only
    rw [h'.clocked.nextDeliveryTime]; rfl
  | writePackets =>
    refine ⟨[], q.writePackets.2, rfl, ?_, rfl, fun more hmore => h.longestPrefix hmore⟩
    simp only [List.map_nil, List.sum_nil, Nat.add_zero, List.flatMap_nil, List.append_nil, Op.read, Option.toList_none]
    exact ⟨⟨h.clocked.trace, h.clocked.index, h.clocked.narrow, h.clocked.fits⟩,
      ⟨h.flight.left, h.flight.transit, h.flight.queued⟩, h.packets, h.bytes⟩

theorem steps_spec : ∀ {ops : List Op} {reads : List Bytes} {sent : Nat} {pushed : List Bytes}
    {q : LinkQueue InfinitePacketQueue}, Serving reads sent pushed q → (∀ op ∈ ops, op.Proper (period q)) →
    ∃ outs q', Run.steps step q ops = .ok (outs, q') ∧ Fluid (reads ++ ops.filterMap Op.read) sent pushed outs.flatten
  | [], reads, sent, pushed, q, h, _ => ⟨[], q, rfl, h.longestPrefix (by simp)⟩
  | op :: ops, reads, sent, pushed, q, h, hops => by
    obtain ⟨ss, q₁, hs, h₁, hsched, hfluid⟩ := step_spec h (hops op (List.mem_cons_self ..))
    obtain ⟨outs, q', hrun, hrest⟩ := steps_spec h₁ (fun o (ho : o ∈ ops) => by
      unfold period; rw [hsched]; exact hops o (List.mem_cons_of_mem _ ho))
    have hreads : (op :: ops).filterMap Op.read = op.read.toList ++ ops.filterMap Op.read := by
      cases hr : op.read <;> simp [hr]
    refine ⟨ss :: outs, q', Run.steps_cons hs hrun, ?_⟩
    rw [List.flatten_cons, hreads, ← List.append_assoc]
    refine Fluid.append ?_ hrest
    rw [List.append_assoc]
    refine hfluid _ (fun p hp => ?_)
    have hmem : p ∈ (op :: ops).filterMap Op.read := by rw [hreads]; exact hp
    obtain ⟨o, ho, hread⟩ := List.mem_filterMap.1 hmem
    have hproper := hops o ho
    cases o with
    | readPacket contents now =>
      cases hread
      rintro rfl
      exact absurd hproper.1 (by simp)
    | waitTime now => cases hread
    | writePackets => cases hread

/-- A link over an infinite queue, from its construction on, over every sequence of calls at times
whose sums with the schedule stay in range: no call fails or runs on forever, each delivery
opportunity sends all there is up to 1504 bytes, and at any time the packets completed are the
longest prefix of the packets read that fits in the bytes sent. -/
theorem link_serves_fluid {schedule : List Nat} {clock : Nat} {repeats : Bool} {log : Option (List LogLine)}
    {ops : List Op} (htrace : Trace schedule) (hclock : clock + schedule.getLastD 0 < 2 ^ 64)
    (hops : ∀ op ∈ ops, op.Proper (schedule.getLastD 0)) :
    ∃ outs q', Run.steps step { schedule := schedule, baseTimestamp := clock, packetQueue := {}, log := log, repeats := repeats }
        ops = .ok (outs, q') ∧
      Fluid (ops.filterMap Op.read) 0 [] outs.flatten := by
  have hne : schedule ≠ [] := by
    rintro rfl
    exact absurd htrace.last (by simp)
  have hstart : Serving [] 0 [] { schedule := schedule, baseTimestamp := clock, packetQueue := {}, log := log, repeats := repeats } :=
    ⟨⟨htrace, List.length_pos_iff.2 hne, Nat.two_pow_pos 32, hclock⟩, ⟨by simp, by simp, by simp⟩, rfl, rfl⟩
  exact steps_spec hstart hops

theorem link_serves_fluid_small : ∃ outs q',
    Run.steps step { schedule := [1, 2], baseTimestamp := 0, packetQueue := {}, repeats := true }
      [.readPacket (List.replicate 1504 0) 0, .readPacket (List.replicate 28 0) 1, .waitTime 5] = .ok (outs, q') ∧
    Fluid [List.replicate 1504 0, List.replicate 28 0] 0 [] outs.flatten := by
  refine link_serves_fluid ⟨by decide, by decide⟩ (by decide) ?_
  intro op hop
  fin_cases hop
  · exact ⟨by rw [List.length_replicate]; decide, by rw [List.length_replicate]; decide, by decide⟩
  · exact ⟨by decide, by decide, by decide⟩
  · exact (by decide : 5 + 2 * 2 < 2 ^ 64)

end LinkQueue

end AbcMahimahi.Frontend
