/-
The emulated link does not depend on how often it is polled: `rationalize` in two stages is `rationalize` in
one, and the calls of `wait_time` between the arrivals leave no trace. Over `InfinitePacketQueue` and
`DropTailPacketQueue`, which do not read the clock, that is all. A discipline that does read it may find other
readings in a run with other polls; such links go alike as long as they are in lockstep.

`rationalize` is a system that catches up with a clock. Its fuel is exactly enough: an index and a
due time never come back before the link has caught up, whatever the schedule and its wrap-arounds.
-/
import AbcMahimahi.Frontend.LinkQueue
import AbcMahimahi.Lib.CatchUp

namespace AbcMahimahi.Frontend

open Bytes Packet CatchUp

/-! ## The clock of the opportunities -/

/-- What of a link decides when its opportunities are due. -/
structure Clock where
  nextDelivery : Nat
  schedule : List Nat
  baseTimestamp : Nat
  repeats : Bool
  finished : Bool

namespace Clock

/-- When the next opportunity is due. -/
def time (c : Clock) : Nat :=
  if c.finished then 2 ^ 64 - 1 else u64 (c.schedule.getD c.nextDelivery 0 + c.baseTimestamp)

/-- One opportunity is used. -/
def tick (c : Clock) : Clock :=
  let nextDelivery := u32 (c.nextDelivery + 1) % c.schedule.length
  if nextDelivery = 0 then
    if c.repeats then
      { c with nextDelivery := nextDelivery, baseTimestamp := u64 (c.baseTimestamp + c.schedule.getLastD 0) }
    else { c with nextDelivery := nextDelivery, finished := true }
  else { c with nextDelivery := nextDelivery }

/-- The next opportunity is one of the schedule's, and the base a `uint64_t`. -/
structure InSchedule (c : Clock) : Prop where
  index : c.nextDelivery < c.schedule.length
  base : c.baseTimestamp < 2 ^ 64

@[simp] theorem tick_schedule (c : Clock) : c.tick.schedule = c.schedule := by
  unfold tick; dsimp only; split <;> [split; skip] <;> rfl

@[simp] theorem tick_repeats (c : Clock) : c.tick.repeats = c.repeats := by
  unfold tick; dsimp only; split <;> [split; skip] <;> rfl

theorem tick_finished {c : Clock} (h : c.finished = true) : c.tick.finished = true := by
  unfold tick; dsimp only; split <;> [split; skip] <;> first | exact h | rfl

theorem InSchedule.tick {c : Clock} (h : InSchedule c) : InSchedule c.tick := by
  have hpos : 0 < c.schedule.length := Nat.zero_lt_of_lt h.index
  have hindex : u32 (c.nextDelivery + 1) % c.schedule.length < c.schedule.length := Nat.mod_lt _ hpos
  unfold Clock.tick
  dsimp only
  split
  · split
    · exact ⟨hindex, Nat.mod_lt _ (by decide)⟩
    · exact ⟨hindex, h.base⟩
  · exact ⟨hindex, h.base⟩

variable {c : Clock}

theorem iterate_schedule : ∀ (i : Nat) (c : Clock), (tick^[i] c).schedule = c.schedule
  | 0, _ => rfl
  | i + 1, c => by rw [Function.iterate_succ_apply, iterate_schedule i, tick_schedule]

theorem iterate_repeats : ∀ (i : Nat) (c : Clock), (tick^[i] c).repeats = c.repeats
  | 0, _ => rfl
  | i + 1, c => by rw [Function.iterate_succ_apply, iterate_repeats i, tick_repeats]

theorem iterate_finished : ∀ (i : Nat) {c : Clock}, c.finished = true → (tick^[i] c).finished = true
  | 0, _, h => h
  | i + 1, _, h => iterate_finished i (tick_finished h)

theorem InSchedule.iterate : ∀ (i : Nat) {c : Clock}, InSchedule c → InSchedule (Clock.tick^[i] c)
  | 0, _, h => h
  | i + 1, _, h => h.tick.iterate i

/-- In the schedule an index and a due time tell an unfinished clock. -/
theorem eq_of_time_eq {c d : Clock} (hc : InSchedule c) (hd : InSchedule d) (hschedule : c.schedule = d.schedule)
    (hrepeats : c.repeats = d.repeats) (hfc : c.finished = false) (hfd : d.finished = false)
    (hindex : c.nextDelivery = d.nextDelivery) (htime : c.time = d.time) : c = d := by
  unfold time u64 at htime
  rw [hfc, hfd, if_neg Bool.false_ne_true, if_neg Bool.false_ne_true, hschedule, hindex] at htime
  have hbase : c.baseTimestamp = d.baseTimestamp := by
    have h₁ := hc.base
    have h₂ := hd.base
    omega
  cases c
  cases d
  simp only at hschedule hrepeats hfc hfd hindex hbase
  rw [hschedule, hrepeats, hfc, hfd, hindex, hbase]

/-- A clock that gets past `now` at all gets there within `now + 1` passes. -/
theorem ticks_le {now n : Nat} (h : InSchedule c) (hbusy : ∀ i < n, (tick^[i] c).time ≤ now)
    (hidle : now < (tick^[n] c).time) : n ≤ (now + 1) * c.schedule.length := by
  -- a finished clock is never past `now` if it is not yet
  have hrunning : ∀ i < n, (tick^[i] c).finished = false := by
    intro i hi
    by_contra hfinished
    rw [Bool.not_eq_false] at hfinished
    have hlast : (tick^[n] c).finished = true := by
      rw [← Nat.sub_add_cancel hi.le, Function.iterate_add_apply]
      exact iterate_finished _ hfinished
    have hbusy := hbusy i hi
    unfold time at hbusy hidle
    rw [if_pos hfinished] at hbusy
    rw [if_pos hlast] at hidle
    omega
  have hcard := @orbit_le_card _ _ time tick now n c (fun d => (d.time, d.nextDelivery))
    (Finset.range (now + 1) ×ˢ Finset.range c.schedule.length) hbusy hidle ?_ ?_
  · rwa [Finset.card_product, Finset.card_range, Finset.card_range] at hcard
  · intro i hi
    have hindex := (h.iterate i).index
    rw [iterate_schedule] at hindex
    exact Finset.mem_product.2 ⟨Finset.mem_range.2 (Nat.lt_succ_of_le (hbusy i hi)), Finset.mem_range.2 hindex⟩
  · intro i j hi hj heq
    have htime := congrArg Prod.fst heq
    have hindex := congrArg Prod.snd heq
    exact eq_of_time_eq (h.iterate i) (h.iterate j) (by rw [iterate_schedule, iterate_schedule])
      (by rw [iterate_repeats, iterate_repeats]) (hrunning i hi) (hrunning j hj) hindex htime

end Clock

namespace LinkQueue

variable {Q : Type}

def clock (q : LinkQueue Q) : Clock := ⟨q.nextDelivery, q.schedule, q.baseTimestamp, q.repeats, q.finished⟩

theorem nextDeliveryTime_ok {q : LinkQueue Q} {t : Nat} (h : q.nextDeliveryTime = .ok t) : q.clock.time = t := by
  unfold nextDeliveryTime at h
  unfold Clock.time clock
  dsimp only
  split at h
  · rename_i hfinished
    cases h
    exact if_pos hfinished
  · rename_i hfinished
    rw [if_neg hfinished]
    split at h
    · rename_i ms hms
      cases h
      rw [List.getD_eq_getElem?_getD, hms]; rfl
    · cases h

/-- Using an opportunity moves the clock on and nothing else but the log. -/
theorem use_ok {q q' : LinkQueue Q} (h : q.useADeliveryOpportunity = .ok q') :
    q'.clock = q.clock.tick ∧ q'.packetInTransitBytesLeft = q.packetInTransitBytesLeft ∧
      q'.packetQueue = q.packetQueue := by
  cases ht : q.nextDeliveryTime with
  | error e =>
    unfold useADeliveryOpportunity recordDepartureOpportunity at h
    rw [ht] at h
    cases h
  | ok t =>
    unfold useADeliveryOpportunity recordDepartureOpportunity at h
    rw [ht] at h
    simp only [Run.ok_bind, Run.pure_ok, logLine] at h
    unfold Clock.tick clock
    dsimp only
    by_cases hwrap : u32 (q.nextDelivery + 1) % q.schedule.length = 0
    · rw [if_pos hwrap] at h ⊢
      by_cases hrepeats : q.repeats = true
      · rw [if_pos hrepeats] at h ⊢
        cases h
        exact ⟨rfl, rfl, rfl⟩
      · rw [if_neg hrepeats] at h ⊢
        cases h
        exact ⟨rfl, rfl, rfl⟩
    · rw [if_neg hwrap] at h ⊢
      cases h
      exact ⟨rfl, rfl, rfl⟩

/-- Sending touches the packet in transit and the output only. -/
theorem send_ok {q q' : LinkQueue Q} {time amount : Nat} (h : q.send time amount = .ok q') :
    q'.clock = q.clock ∧ q'.packetInTransitBytesLeft = q.packetInTransitBytesLeft - amount ∧
      q'.packetQueue = q.packetQueue := by
  unfold send depart at h
  dsimp only at h
  split at h
  · obtain ⟨q₁, h₁, h⟩ := Run.bind_ok h
    unfold recordDeparture at h₁
    split at h₁
    · cases h₁
      cases h
      exact ⟨rfl, rfl, rfl⟩
    · cases h₁
  · cases h
    exact ⟨rfl, rfl, rfl⟩

section

variable [AbstractPacketQueue Q]

theorem fetch_clock {q q' : LinkQueue Q} {found : Bool} (h : q.fetch = .ok (found, q')) :
    q'.clock = q.clock := by
  unfold fetch at h
  split at h
  · cases h; rfl
  · split at h
    · split at h
      · obtain ⟨r, -, h⟩ := Run.bind_ok h
        cases h; rfl
      · cases h; rfl
    · obtain ⟨r, -, h⟩ := Run.bind_ok h
      cases h; rfl

theorem serve_clock {time : Nat} : ∀ {turns bytesLeft left : Nat} {q q' : LinkQueue Q},
    serve time turns bytesLeft q = .ok (left, q') → q'.clock = q.clock
  | 0, _, _, _, _, h => by cases h; rfl
  | turns + 1, bytesLeft, left, q, q', h => by
    unfold serve at h
    split at h
    · cases h; rfl
    · obtain ⟨⟨found, q₁⟩, hf, h⟩ := Run.bind_ok h
      have hf := fetch_clock hf
      dsimp only at h
      split at h
      · cases h; exact hf
      · obtain ⟨_, -, h⟩ := Run.bind_ok h
        obtain ⟨_, -, h⟩ := Run.bind_ok h
        obtain ⟨_, -, h⟩ := Run.bind_ok h
        obtain ⟨_, -, h⟩ := Run.bind_ok h
        obtain ⟨q₂, hs, h⟩ := Run.bind_ok h
        rw [serve_clock h, (send_ok hs).1, hf]

theorem deliver_ok {q q' : LinkQueue Q} {s : Service Q} (h : q.deliver = .ok (s, q')) :
    s.before = q ∧ q.nextDeliveryTime = .ok s.time ∧ q'.clock = q.clock.tick := by
  unfold deliver at h
  obtain ⟨t, ht, h⟩ := Run.bind_ok h
  obtain ⟨q₁, hu, h⟩ := Run.bind_ok h
  obtain ⟨⟨left, q₂⟩, hs, h⟩ := Run.bind_ok h
  cases h
  exact ⟨rfl, ht, by rw [serve_clock hs, (use_ok hu).1]⟩

/-! ## `rationalize` catches up -/

theorem ticks : Ticks nextDeliveryTime (deliver : LinkQueue Q → _) clock Clock.time Clock.tick :=
  ⟨fun _ _ h => nextDeliveryTime_ok h, fun _ _ _ h => (deliver_ok h).2.2⟩

theorem rationalizeLoop_ok {now : Nat} : ∀ {turns : Nat} {q q' : LinkQueue Q} {ss : List (Service Q)},
    rationalizeLoop now turns q = .ok (ss, q') → Done nextDeliveryTime deliver now q ss q'
  | 0, q, q', ss, h => by
    unfold rationalizeLoop at h
    obtain ⟨t, ht, h⟩ := Run.bind_ok h
    split at h
    · cases h
    · cases h
      exact ⟨.nil q, t, ht, by omega⟩
  | turns + 1, q, q', ss, h => by
    unfold rationalizeLoop at h
    obtain ⟨t, ht, h⟩ := Run.bind_ok h
    split at h
    · rename_i hle
      obtain ⟨⟨s, q₁⟩, hd, h⟩ := Run.bind_ok h
      obtain ⟨⟨ss', q₂⟩, hr, h⟩ := Run.bind_ok h
      cases h
      have hrest := rationalizeLoop_ok hr
      exact ⟨.cons ht hle hd hrest.turns, hrest.later⟩
    · cases h
      exact ⟨.nil q, t, ht, by omega⟩

theorem rationalizeLoop_of_done {now : Nat} {q q' : LinkQueue Q} {ss : List (Service Q)}
    (hturns : Turns nextDeliveryTime deliver now q ss q')
    (hlater : ∃ t, q'.nextDeliveryTime = .ok t ∧ now < t) :
    ∀ {turns : Nat}, ss.length ≤ turns → rationalizeLoop now turns q = .ok (ss, q') := by
  induction hturns with
  | nil q =>
    intro turns _
    obtain ⟨t, ht, hlt⟩ := hlater
    cases turns <;> (unfold rationalizeLoop; rw [ht, Run.ok_bind, if_neg (by omega)]; rfl)
  | @cons q q₁ q₂ t s ss hdue hle hturn _ ih =>
    intro turns hlen
    cases turns with
    | zero => simp at hlen
    | succ turns =>
      unfold rationalizeLoop
      rw [hdue, Run.ok_bind, if_pos hle, hturn, Run.ok_bind]
      dsimp only
      rw [ih hlater (by simp only [List.length_cons] at hlen; omega)]; rfl

/-- The fuel of `rationalize` is enough whenever the loop ends at all. -/
theorem rationalize_iff {q q' : LinkQueue Q} {now : Nat} {ss : List (Service Q)} (h : q.clock.InSchedule) :
    q.rationalize now = .ok (ss, q') ↔ Done nextDeliveryTime deliver now q ss q' := by
  constructor
  · exact rationalizeLoop_ok
  · rintro ⟨hturns, hlater⟩
    obtain ⟨hclock, hbusy⟩ := hturns.orbit ticks
    obtain ⟨t, ht, hlt⟩ := hlater
    have htime := nextDeliveryTime_ok ht
    rw [hclock] at htime
    exact rationalizeLoop_of_done hturns ⟨t, ht, hlt⟩ (Clock.ticks_le h hbusy (by omega))

theorem inSchedule_of_done {now : Nat} {q q' : LinkQueue Q} {ss : List (Service Q)}
    (h : Done nextDeliveryTime deliver now q ss q') (hq : q.clock.InSchedule) : q'.clock.InSchedule := by
  rw [(h.turns.orbit ticks).1]
  exact hq.iterate _

/-! ## Polls leave no trace -/

/-- The packets arrive, and nobody polls: the link catches up at each arrival and at `now`. -/
inductive Unpolled (now : Nat) : LinkQueue Q → List (Bytes × Nat) → List (Service Q) → LinkQueue Q → Prop
  | stop {q q' : LinkQueue Q} {ss : List (Service Q)} (hdone : Done nextDeliveryTime deliver now q ss q') :
      Unpolled now q [] ss q'
  | arrive {q q₁ q' : LinkQueue Q} {contents : Bytes} {t : Nat} {arrivals : List (Bytes × Nat)}
      {ss ts : List (Service Q)} {packetQueue : Q} (hsize : contents.length ≤ packetSize)
      (hdone : Done nextDeliveryTime deliver t q ss q₁)
      (henqueue : AbstractPacketQueue.enqueue q₁.packetQueue ⟨contents, t⟩ = .ok packetQueue)
      (hrest : Unpolled now { q₁.recordArrival t contents.length with packetQueue := packetQueue } arrivals ts q') :
      Unpolled now q ((contents, t) :: arrivals) (ss ++ ts) q'

/-- Catching up before the next arrival changes nothing. -/
theorem unpolled_iff {now t : Nat} {q q' : LinkQueue Q} {arrivals : List (Bytes × Nat)} {ss : List (Service Q)}
    (hnow : t ≤ now) (harrivals : ∀ a ∈ arrivals, t ≤ a.2) :
    Unpolled now q arrivals ss q' ↔ ∃ ss₁ q₁ ss₂,
      Done nextDeliveryTime deliver t q ss₁ q₁ ∧ Unpolled now q₁ arrivals ss₂ q' ∧ ss = ss₁ ++ ss₂ := by
  constructor
  · intro h
    cases h with
    | stop hdone =>
      obtain ⟨ss₁, q₁, ss₂, h₁, h₂, rfl⟩ := hdone.split hnow
      exact ⟨ss₁, q₁, ss₂, h₁, .stop h₂, rfl⟩
    | arrive hsize hdone henqueue hrest =>
      obtain ⟨ss₁, q₁, ss₂, h₁, h₂, rfl⟩ := hdone.split (harrivals _ (List.mem_cons_self ..))
      exact ⟨ss₁, q₁, ss₂ ++ _, h₁, .arrive hsize h₂ henqueue hrest, List.append_assoc ..⟩
  · rintro ⟨ss₁, q₁, ss₂, h₁, h, rfl⟩
    cases h with
    | stop hdone => exact .stop (h₁.join hdone hnow)
    | arrive hsize hdone henqueue hrest =>
      rw [← List.append_assoc]
      exact .arrive hsize (h₁.join hdone (harrivals _ (List.mem_cons_self ..))) henqueue hrest

/-- What the clock reads in a call. -/
def Op.time : Op → Option Nat
  | .readPacket _ now => some now
  | .waitTime now => some now
  | .writePackets => none

/-- The packet that arrives in a call, and when. -/
def Op.arrival : Op → Option (Bytes × Nat)
  | .readPacket contents now => some (contents, now)
  | _ => none

/-- A sequence of arrivals and polls, at times that never decrease up to `now`. -/
structure InOrder (ops : List Op) (now : Nat) : Prop where
  calls : Op.writePackets ∉ ops
  times : (ops.filterMap Op.time ++ [now]).Pairwise (· ≤ ·)

/-- The calls, and `rationalize` at the end: how each opportunity was used, and the link after it. -/
def emulate (q : LinkQueue Q) (ops : List Op) (now : Nat) : Except Fault (List (Service Q) × LinkQueue Q) := do
  let (outs, q) ← Run.steps step q ops
  let (ss, q) ← q.rationalize now
  pure (outs.flatten ++ ss, q)

theorem emulate_cons_iff {q q' : LinkQueue Q} {op : Op} {ops : List Op} {now : Nat} {ss : List (Service Q)} :
    q.emulate (op :: ops) now = .ok (ss, q') ↔ ∃ ss₁ q₁ ss₂,
      q.step op = .ok (ss₁, q₁) ∧ q₁.emulate ops now = .ok (ss₂, q') ∧ ss = ss₁ ++ ss₂ := by
  unfold emulate
  constructor
  · intro h
    obtain ⟨⟨outs, q₂⟩, hs, h⟩ := Run.bind_ok h
    obtain ⟨⟨ts, q₃⟩, hr, h⟩ := Run.bind_ok h
    cases h
    obtain ⟨ss₁, q₁, outs', h₁, h₂, rfl⟩ := Run.steps_cons_ok hs
    refine ⟨ss₁, q₁, outs'.flatten ++ ts, h₁, ?_, by rw [List.flatten_cons, List.append_assoc]⟩
    rw [h₂, Run.ok_bind]
    dsimp only
    rw [hr]; rfl
  · rintro ⟨ss₁, q₁, ss₂, h₁, h, rfl⟩
    obtain ⟨⟨outs, q₂⟩, hs, h⟩ := Run.bind_ok h
    obtain ⟨⟨ts, q₃⟩, hr, h⟩ := Run.bind_ok h
    cases h
    rw [Run.steps_cons h₁ hs, Run.ok_bind]
    dsimp only
    rw [hr, Run.ok_bind]
    simp only [Run.pure_ok, List.flatten_cons, List.append_assoc]

theorem InOrder.tail {op : Op} {ops : List Op} {now : Nat} (h : InOrder (op :: ops) now) : InOrder ops now := by
  refine ⟨fun hmem => h.calls (List.mem_cons_of_mem _ hmem), ?_⟩
  have htimes := h.times
  rw [List.filterMap_cons] at htimes
  split at htimes
  · exact htimes
  · exact (List.pairwise_cons.1 htimes).2

/-- Nothing comes before the first call. -/
theorem InOrder.head {op : Op} {ops : List Op} {now t : Nat} (h : InOrder (op :: ops) now) (ht : op.time = some t) :
    t ≤ now ∧ ∀ a ∈ ops.filterMap Op.arrival, t ≤ a.2 := by
  have htimes := h.times
  rw [List.filterMap_cons, ht, List.cons_append, List.pairwise_cons] at htimes
  refine ⟨htimes.1 now (by simp), fun a ha => htimes.1 a.2 ?_⟩
  obtain ⟨op', hop', harr⟩ := List.mem_filterMap.1 ha
  refine List.mem_append_left _ (List.mem_filterMap.2 ⟨op', hop', ?_⟩)
  cases op' with
  | readPacket contents now => cases harr; rfl
  | waitTime now => cases harr
  | writePackets => cases harr

theorem emulate_nil_iff {q q' : LinkQueue Q} {now : Nat} {ss : List (Service Q)} :
    q.emulate [] now = .ok (ss, q') ↔ q.rationalize now = .ok (ss, q') := by
  unfold emulate
  rw [Run.steps_nil, Run.ok_bind]
  constructor
  · intro h
    obtain ⟨⟨ts, q₁⟩, hr, h⟩ := Run.bind_ok h
    cases h
    exact hr
  · intro h
    dsimp only
    rw [h]; rfl

/-- An arrival finds the link caught up. -/
theorem step_readPacket_iff {q q' : LinkQueue Q} {contents : Bytes} {t : Nat} {ss : List (Service Q)} :
    q.step (.readPacket contents t) = .ok (ss, q') ↔ contents.length ≤ packetSize ∧ ∃ q₁ packetQueue,
      q.rationalize t = .ok (ss, q₁) ∧ AbstractPacketQueue.enqueue q₁.packetQueue ⟨contents, t⟩ = .ok packetQueue ∧
      q' = { q₁.recordArrival t contents.length with packetQueue := packetQueue } := by
  unfold step readPacket
  dsimp only
  by_cases hsize : contents.length > packetSize
  · rw [if_pos hsize]
    constructor
    · intro h; cases h
    · rintro ⟨hle, -⟩; omega
  · rw [if_neg hsize]
    constructor
    · intro h
      obtain ⟨⟨ts, q₁⟩, hr, h⟩ := Run.bind_ok h
      obtain ⟨packetQueue, he, h⟩ := Run.bind_ok h
      cases h
      exact ⟨by omega, q₁, packetQueue, hr, he, rfl⟩
    · rintro ⟨-, q₁, packetQueue, hr, he, rfl⟩
      rw [hr, Run.ok_bind]
      dsimp only [recordArrival, logLine]
      rw [he]; rfl

/-- A poll catches up and does nothing else. -/
theorem step_waitTime_iff {q q' : LinkQueue Q} {t : Nat} {ss : List (Service Q)} (h : q.clock.InSchedule) :
    q.step (.waitTime t) = .ok (ss, q') ↔ q.rationalize t = .ok (ss, q') := by
  unfold step waitTime
  constructor
  · intro hs
    obtain ⟨⟨w, ts, q₁⟩, hw, hs⟩ := Run.bind_ok hs
    obtain ⟨⟨us, q₂⟩, hr, hw⟩ := Run.bind_ok hw
    obtain ⟨next, -, hw⟩ := Run.bind_ok hw
    cases hw
    cases hs
    exact hr
  · intro hr
    obtain ⟨-, next, hnext, -⟩ := (rationalize_iff h).1 hr
    dsimp only
    rw [hr, Run.ok_bind]
    dsimp only
    rw [hnext]; rfl

/-- The run is the one without the polls. -/
theorem emulate_iff {now : Nat} : ∀ {ops : List Op} {q q' : LinkQueue Q} {ss : List (Service Q)}, q.clock.InSchedule →
    InOrder ops now → (q.emulate ops now = .ok (ss, q') ↔ Unpolled now q (ops.filterMap Op.arrival) ss q')
  | [], q, q', ss, hclock, _ => by
    rw [emulate_nil_iff, rationalize_iff hclock]
    constructor
    · exact .stop
    · intro h
      cases h
      assumption
  | .readPacket contents t :: ops, q, q', ss, hclock, horder => by
    rw [emulate_cons_iff]
    -- an arrival stops both, after all that is due
    constructor
    · rintro ⟨ss₁, q₁, ss₂, hstep, h, rfl⟩
      obtain ⟨hsize, q₂, packetQueue, hr, henqueue, rfl⟩ := step_readPacket_iff.1 hstep
      have hdone := (rationalize_iff hclock).1 hr
      have hclock' := inSchedule_of_done hdone hclock
      have hrest := (emulate_iff (q := { q₂.recordArrival t contents.length with packetQueue := packetQueue }) hclock'
        horder.tail).1 h
      exact .arrive hsize hdone henqueue hrest
    · intro h
      cases h with
      | @arrive _ q₁ _ _ _ _ ss₁ ss₂ packetQueue hsize hdone henqueue hrest =>
        have hstep := step_readPacket_iff.2 ⟨hsize, _, _, (rationalize_iff hclock).2 hdone, henqueue, rfl⟩
        have hclock' := inSchedule_of_done hdone hclock
        have h := (emulate_iff (q := { q₁.recordArrival t contents.length with packetQueue := packetQueue }) hclock'
          horder.tail).2 hrest
        exact ⟨_, _, _, hstep, h, rfl⟩
  | .waitTime t :: ops, q, q', ss, hclock, horder => by
    -- a call of `wait_time` is none of the arrivals, and what is due by it is due by the next of them too
    obtain ⟨hnow, harrivals⟩ := horder.head rfl
    rw [emulate_cons_iff]
    refine Iff.trans ?_ (unpolled_iff hnow harrivals).symm
    constructor
    · rintro ⟨ss₁, q₁, ss₂, hstep, h, rfl⟩
      have hdone := (rationalize_iff hclock).1 ((step_waitTime_iff hclock).1 hstep)
      have hclock' := inSchedule_of_done hdone hclock
      exact ⟨ss₁, q₁, ss₂, hdone, (emulate_iff hclock' horder.tail).1 h, rfl⟩
    · rintro ⟨ss₁, q₁, ss₂, hdone, h, rfl⟩
      have hstep := (step_waitTime_iff hclock).2 ((rationalize_iff hclock).2 hdone)
      have hclock' := inSchedule_of_done hdone hclock
      exact ⟨ss₁, q₁, ss₂, hstep, (emulate_iff hclock' horder.tail).2 h, rfl⟩
  | .writePackets :: ops, _, _, _, _, horder => absurd (List.mem_cons_self ..) horder.calls

/-- Two runs of a link with the same arrivals: when one returns so does the other, with the same history and the
same link at the end. -/
theorem emulate_alike {q q' : LinkQueue Q} {ops ops' : List Op} {now : Nat} {ss : List (Service Q)}
    (hclock : q.clock.InSchedule) (horder : InOrder ops now) (horder' : InOrder ops' now)
    (harrivals : ops.filterMap Op.arrival = ops'.filterMap Op.arrival) :
    q.emulate ops now = .ok (ss, q') ↔ q.emulate ops' now = .ok (ss, q') := by
  rw [emulate_iff hclock horder, emulate_iff hclock horder', harrivals]

/-- However the link is polled between the arrivals, its runs return alike: the same opportunities
used in the same way, the same packets pushed at the same times, and the same link at the end. -/
def PollIndependent (Q : Type) [AbstractPacketQueue Q] : Prop :=
  ∀ (schedule : List Nat) (clock : Nat) (packetQueue : Q) (log : Option (List LogLine)) (repeats : Bool)
    (ops ops' : List Op) (now : Nat), schedule ≠ [] → clock < 2 ^ 64 → InOrder ops now → InOrder ops' now →
    ops.filterMap Op.arrival = ops'.filterMap Op.arrival →
    ∀ (ss : List (Service Q)) (q' : LinkQueue Q),
      emulate { schedule := schedule, baseTimestamp := clock, packetQueue := packetQueue, log := log, repeats := repeats }
        ops now = .ok (ss, q') ↔
      emulate { schedule := schedule, baseTimestamp := clock, packetQueue := packetQueue, log := log, repeats := repeats }
        ops' now = .ok (ss, q')

theorem pollIndependent : PollIndependent Q := by
  intro schedule clock packetQueue log repeats ops ops' now hschedule hclock horder horder' harrivals ss q'
  exact emulate_alike ⟨List.length_pos_iff.2 hschedule, hclock⟩ horder horder' harrivals

/-- Link emulation over the unbounded and the drop-tail queue does not depend on how often it is
polled. -/
theorem emulation_poll_independent : PollIndependent InfinitePacketQueue ∧ PollIndependent DropTailPacketQueue :=
  ⟨pollIndependent, pollIndependent⟩

theorem emulation_poll_independent_small : ∃ ss q',
    emulate { schedule := [1, 2], baseTimestamp := 0, packetQueue := ({} : InfinitePacketQueue), repeats := true }
      [.readPacket (List.replicate 28 0) 0, .waitTime 1, .waitTime 3, .readPacket (List.replicate 30 0) 4] 5 =
        .ok (ss, q') ∧
    emulate { schedule := [1, 2], baseTimestamp := 0, packetQueue := ({} : InfinitePacketQueue), repeats := true }
      [.readPacket (List.replicate 28 0) 0, .readPacket (List.replicate 30 0) 4] 5 = .ok (ss, q') := by
  obtain ⟨⟨ss, q'⟩, h⟩ := Run.ok_of_isOk (x := emulate
    { schedule := [1, 2], baseTimestamp := 0, packetQueue := ({} : InfinitePacketQueue), repeats := true }
      [.readPacket (List.replicate 28 0) 0, .waitTime 1, .waitTime 3, .readPacket (List.replicate 30 0) 4] 5) (by decide)
  refine ⟨ss, q', h, ?_⟩
  exact (emulation_poll_independent.1 [1, 2] 0 {} none true _ _ 5 (by simp) (by decide) ⟨by decide, by decide⟩
    ⟨by decide, by decide⟩ rfl ss q').1 h

/-! ## Two links in lockstep -/

/-- Every opportunity that the call comes to meets the condition. -/
def Meets (P : LinkQueue Q → Nat → Prop) (q : LinkQueue Q) (op : Op) : Prop :=
  ∀ now ∈ op.time, Always nextDeliveryTime deliver P now q

/-- So does every opportunity of the run that nobody polls. -/
def MeetsUnpolled (P : LinkQueue Q → Nat → Prop) (now : Nat) : LinkQueue Q → List (Bytes × Nat) → Prop
  | q, [] => Always nextDeliveryTime deliver P now q
  | q, (contents, t) :: arrivals => Always nextDeliveryTime deliver P t q ∧ ∀ ss q₁ packetQueue,
      contents.length ≤ packetSize → Done nextDeliveryTime deliver t q ss q₁ →
      AbstractPacketQueue.enqueue q₁.packetQueue ⟨contents, t⟩ = .ok packetQueue →
      MeetsUnpolled P now { q₁.recordArrival t contents.length with packetQueue := packetQueue } arrivals

variable {P : LinkQueue Q → Nat → Prop}

theorem MeetsUnpolled.join {now t : Nat} {q : LinkQueue Q} {arrivals : List (Bytes × Nat)}
    (harrivals : ∀ a ∈ arrivals, t ≤ a.2) (h : Always nextDeliveryTime deliver P t q)
    (hrest : ∀ ss q₁, Done nextDeliveryTime deliver t q ss q₁ → MeetsUnpolled P now q₁ arrivals) :
    MeetsUnpolled P now q arrivals := by
  cases arrivals with
  | nil => exact h.join hrest
  | cons a arrivals =>
    obtain ⟨contents, t'⟩ := a
    refine ⟨h.join fun ss q₁ hdone => (hrest ss q₁ hdone).1, fun ss q₁ packetQueue hsize hdone henqueue => ?_⟩
    obtain ⟨ss₁, q₂, ss₂, h₁, h₂, -⟩ := hdone.split (harrivals _ (List.mem_cons_self ..))
    exact (hrest ss₁ q₂ h₁).2 ss₂ q₁ packetQueue hsize h₂ henqueue

/-- The opportunities of a run are those of the run without the polls. -/
theorem meetsUnpolled_of_along {now : Nat} : ∀ {ops : List Op} {q : LinkQueue Q}, q.clock.InSchedule → InOrder ops now →
    Run.Along step (Meets P) q (ops ++ [.waitTime now]) → MeetsUnpolled P now q (ops.filterMap Op.arrival)
  | [], _, _, _, h => h.1 now rfl
  | .readPacket contents t :: ops, q, hclock, horder, h => by
    refine ⟨h.1 t rfl, fun ss q₁ packetQueue hsize hdone henqueue => ?_⟩
    have hclock' := inSchedule_of_done hdone hclock
    have hstep := step_readPacket_iff.2 ⟨hsize, _, _, (rationalize_iff hclock).2 hdone, henqueue, rfl⟩
    exact meetsUnpolled_of_along (q := { q₁.recordArrival t contents.length with packetQueue := packetQueue }) hclock'
      horder.tail (h.2 ss _ hstep)
  | .waitTime t :: ops, q, hclock, horder, h => by
    obtain ⟨-, harrivals⟩ := horder.head rfl
    refine MeetsUnpolled.join harrivals (h.1 t rfl) fun ss q₁ hdone => ?_
    have hstep := (step_waitTime_iff hclock).2 ((rationalize_iff hclock).2 hdone)
    have hrest : MeetsUnpolled P now q₁ (ops.filterMap Op.arrival) :=
      meetsUnpolled_of_along (inSchedule_of_done hdone hclock) horder.tail (h.2 ss q₁ hstep)
    exact hrest
  | .writePackets :: ops, _, _, horder, _ => absurd (List.mem_cons_self ..) horder.calls

/-- Packets come into related links in the same way. -/
def Takes (R : LinkQueue Q → LinkQueue Q → Prop) : Prop :=
  ∀ {q r : LinkQueue Q} {contents : Bytes} {t : Nat} {packetQueue : Q}, R q r →
    AbstractPacketQueue.enqueue q.packetQueue ⟨contents, t⟩ = .ok packetQueue →
    ∃ packetQueue', AbstractPacketQueue.enqueue r.packetQueue ⟨contents, t⟩ = .ok packetQueue' ∧
      R { q.recordArrival t contents.length with packetQueue := packetQueue }
        { r.recordArrival t contents.length with packetQueue := packetQueue' }

variable {R : LinkQueue Q → LinkQueue Q → Prop} {O : Service Q → Service Q → Prop}

theorem Unpolled.lockstep {now : Nat} (hlock : Lockstep nextDeliveryTime deliver P R O) (htakes : Takes R)
    {q q' : LinkQueue Q} {arrivals : List (Bytes × Nat)} {ss : List (Service Q)} (h : Unpolled now q arrivals ss q') :
    ∀ {r : LinkQueue Q}, R q r → MeetsUnpolled P now q arrivals → MeetsUnpolled P now r arrivals →
      ∃ ss' r', Unpolled now r arrivals ss' r' ∧ List.Forall₂ O ss ss' ∧ R q' r' := by
  induction h with
  | stop hdone =>
    intro r hR hq hr
    obtain ⟨ss', r', hdone', hO, hR'⟩ := hlock.done hdone hR hq hr
    exact ⟨ss', r', .stop hdone', hO, hR'⟩
  | arrive hsize hdone henqueue _ ih =>
    intro r hR hq hr
    obtain ⟨ss', r₁, hdone', hO, hR₁⟩ := hlock.done hdone hR hq.1 hr.1
    obtain ⟨packetQueue', henqueue', hR₂⟩ := htakes hR₁ henqueue
    obtain ⟨ts', r', hrest, hO', hR'⟩ := ih hR₂ (hq.2 _ _ _ hsize hdone henqueue) (hr.2 _ _ _ hsize hdone' henqueue')
    exact ⟨ss' ++ ts', r', .arrive hsize hdone' henqueue' hrest, List.rel_append hO hO', hR'⟩

/-- Runs of two links with the same arrivals go alike, whatever the polls, as long as the links are in lockstep. -/
theorem emulate_lockstep (hlock : Lockstep nextDeliveryTime deliver P R O) (htakes : Takes R) {q q' r : LinkQueue Q}
    {ops ops' : List Op} {now : Nat} {ss : List (Service Q)} (hclock : q.clock.InSchedule) (hclock' : r.clock.InSchedule)
    (horder : InOrder ops now) (horder' : InOrder ops' now) (harrivals : ops.filterMap Op.arrival = ops'.filterMap Op.arrival)
    (hmeets : Run.Along step (Meets P) q (ops ++ [.waitTime now]))
    (hmeets' : Run.Along step (Meets P) r (ops' ++ [.waitTime now])) (hR : R q r) (h : q.emulate ops now = .ok (ss, q')) :
    ∃ ss' r', r.emulate ops' now = .ok (ss', r') ∧ List.Forall₂ O ss ss' ∧ R q' r' := by
  have hq := meetsUnpolled_of_along hclock horder hmeets
  have hr := meetsUnpolled_of_along hclock' horder' hmeets'
  rw [← harrivals] at hr
  obtain ⟨ss', r', hrun, hO, hR'⟩ := Unpolled.lockstep hlock htakes ((emulate_iff hclock horder).1 h) hR hq hr
  rw [harrivals] at hrun
  exact ⟨ss', r', (emulate_iff hclock' horder').2 hrun, hO, hR'⟩

end

end LinkQueue

end AbcMahimahi.Frontend
