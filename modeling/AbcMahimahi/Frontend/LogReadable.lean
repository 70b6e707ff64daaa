/-
Which logs mm-throughput-graph can read. A link writes one line at a time, in the middle of a call, and
a line that is written stays even if the call fails; so the log is looked at after every step of every
call. Whatever the run, the loop takes each line if no argument of mm-link has a line end in it.
-/
import Mathlib.Logic.Relation
import AbcMahimahi.Frontend.CellularLink
import AbcMahimahi.Frontend.LinkLog
import AbcMahimahi.Packet.Conservation

namespace AbcMahimahi.Frontend

open Bytes Packet

/-- A queue that gives out packets it was given: the arrival times of those it holds. -/
class TracksArrivals (Q : Type) [AbstractPacketQueue Q] where
  arrivals : Q → List Nat
  toString_line : ∀ q : Q, 10 ∉ AbstractPacketQueue.toString q
  empty : ∀ {q : Q}, AbstractPacketQueue.empty q = true → arrivals q = []
  enqueue : ∀ {q q' : Q} {p : QueuedPacket}, AbstractPacketQueue.enqueue q p = .ok q' → arrivals q' ⊆ p.arrivalTime :: arrivals q
  dequeue : ∀ {q q' : Q} {p : QueuedPacket}, AbstractPacketQueue.dequeue q = .ok (p, q') →
    (AbstractPacketQueue.empty q = false → p.arrivalTime ∈ arrivals q) ∧ arrivals q' ⊆ arrivals q

/-! ## The queues -/

theorem DroppingPacketQueue.not_mem_toString {type : Bytes} (htype : 10 ∉ type) (q : DroppingPacketQueue) : 10 ∉ q.toString type := by
  unfold DroppingPacketQueue.toString
  simp only [List.mem_append, not_or]
  refine ⟨⟨⟨⟨htype, by decide⟩, ?_⟩, ?_⟩, by decide⟩
  · split
    · rw [List.mem_append, not_or]
      exact ⟨by decide, not_mem_repr _⟩
    · exact List.not_mem_nil
  · split
    · simp only [List.mem_append, not_or]
      refine ⟨⟨?_, by decide⟩, not_mem_repr _⟩
      split
      · decide
      · exact List.not_mem_nil
    · exact List.not_mem_nil

instance : TracksArrivals InfinitePacketQueue where
  arrivals q := q.internalQueue.map (·.arrivalTime)
  toString_line _ := by
    show 10 ∉ ascii "infinite"
    decide
  empty {q} h := by
    rw [List.isEmpty_iff.1 h]
    rfl
  enqueue {q q' p} h := by
    cases h
    intro t ht
    rw [List.map_append, List.mem_append] at ht
    rcases ht with ht | ht
    · exact List.mem_cons_of_mem _ ht
    · exact List.mem_cons.2 (Or.inl (List.mem_singleton.1 ht))
  dequeue {q q' p} h := by
    obtain ⟨queue⟩ := q
    cases queue with
    | nil => cases h
    | cons p' rest =>
      cases h
      exact ⟨fun _ => List.mem_cons_self .., List.subset_cons_self ..⟩

/-- The arrival times that a bounded queue holds. -/
def DroppingPacketQueue.arrivals (q : DroppingPacketQueue) : List Nat := q.internalQueue.map (·.arrivalTime)

theorem DroppingPacketQueue.arrivals_accept (q : DroppingPacketQueue) (p : QueuedPacket) :
    arrivals (q.accept p) ⊆ p.arrivalTime :: arrivals q := by
  intro t ht
  unfold arrivals DroppingPacketQueue.accept at ht
  rw [List.map_append, List.mem_append] at ht
  rcases ht with ht | ht
  · exact List.mem_cons_of_mem _ ht
  · exact List.mem_cons.2 (Or.inl (List.mem_singleton.1 ht))

theorem DroppingPacketQueue.arrivals_dequeue {q q' : DroppingPacketQueue} {p : QueuedPacket} (h : q.dequeue = .ok (p, q')) :
    p.arrivalTime ∈ arrivals q ∧ arrivals q' ⊆ arrivals q := by
  obtain ⟨hqueue, -, -⟩ := DroppingPacketQueue.dequeue_ok h
  unfold arrivals
  rw [hqueue]
  exact ⟨List.mem_cons_self .., List.subset_cons_self ..⟩

theorem DroppingPacketQueue.arrivals_empty {q : DroppingPacketQueue} (h : q.empty = true) : arrivals q = [] := by
  unfold arrivals
  rw [List.isEmpty_iff.1 h]
  rfl

instance : TracksArrivals DropTailPacketQueue where
  arrivals q := DroppingPacketQueue.arrivals q.toDroppingPacketQueue
  toString_line q := DroppingPacketQueue.not_mem_toString (by decide) _
  empty h := DroppingPacketQueue.arrivals_empty h
  enqueue {q q' p} h := by
    obtain ⟨q₁, haccept, rfl⟩ := Run.map_eq_ok (x := q.toDroppingPacketQueue.acceptIfGood p) h
    obtain ⟨g, -, haccept⟩ := Run.bind_ok haccept
    obtain ⟨_, -, haccept⟩ := Run.bind_ok haccept
    obtain ⟨_, -, haccept⟩ := Run.bind_ok haccept
    cases haccept
    dsimp only
    split
    · exact DroppingPacketQueue.arrivals_accept _ p
    · exact List.subset_cons_self ..
  dequeue {q q' p} h := by
    obtain ⟨⟨p', q₁⟩, hdequeue, heq⟩ := Run.map_eq_ok (x := q.toDroppingPacketQueue.dequeue) h
    cases heq
    obtain ⟨hp, hrest⟩ := DroppingPacketQueue.arrivals_dequeue hdequeue
    exact ⟨fun _ => hp, hrest⟩

instance : TracksArrivals CellularDiscipline where
  arrivals q := DroppingPacketQueue.arrivals q.queue.base
  toString_line q := DroppingPacketQueue.not_mem_toString (by decide) _
  empty h := DroppingPacketQueue.arrivals_empty h
  enqueue {q q' p} h := by
    obtain ⟨queue, hqueue, rfl⟩ := Run.map_eq_ok (x := q.queue.enqueue p) h
    obtain ⟨g, -, hqueue⟩ := Run.bind_ok hqueue
    split at hqueue
    · cases hqueue
      exact List.subset_cons_self ..
    · obtain ⟨_, -, hqueue⟩ := Run.bind_ok hqueue
      obtain ⟨_, -, hqueue⟩ := Run.bind_ok hqueue
      cases hqueue
      exact DroppingPacketQueue.arrivals_accept _ p
  dequeue {q q' p} h := by
    obtain ⟨⟨ret, queue⟩, hqueue, heq⟩ := Run.map_eq_ok (x := q.queue.dequeue (q.clock q.calls)) h
    cases heq
    rcases CELLULARPacketQueue.dequeue_cases hqueue with ⟨hnil, -, rfl⟩ | ⟨p', base, hbase, hcases⟩
    · refine ⟨fun hempty => ?_, List.Subset.refl _⟩
      have hempty : q.queue.base.empty = false := hempty
      unfold DroppingPacketQueue.empty at hempty
      rw [hnil] at hempty
      cases hempty
    · obtain ⟨hp, hrest⟩ := DroppingPacketQueue.arrivals_dequeue hbase
      rcases hcases with ⟨-, rfl, rfl⟩ | ⟨-, hspend⟩
      · exact ⟨fun _ => hp, hrest⟩
      · obtain ⟨hsame, hbase⟩ := CELLULARPacketQueue.spend_same
          { ({ q.queue with base := base }.recordDequeue (u32 (q.clock q.calls))) with
            tokens := q.queue.tokens + q.queue.nextCredit (q.clock q.calls) } p'
        rw [← hspend] at hsame hbase
        dsimp only at hsame hbase ⊢
        rw [hsame.arrivalTime, hbase]
        exact ⟨fun _ => hp, hrest⟩

/-! ## The steps of a link -/

namespace LinkQueue

variable {Q : Type} [AbstractPacketQueue Q]

/-- What a call does between two states of a link whose log has that base timestamp. The clock never reads
less than it did when the link was made. -/
inductive Moves (base : Nat) : LinkQueue Q → LinkQueue Q → Prop
  | opportunity {q q' : LinkQueue Q} (h : q.useADeliveryOpportunity = .ok q') : Moves base q q'
  | fetch {q q' : LinkQueue Q} {found : Bool} (h : q.fetch = .ok (found, q')) : Moves base q q'
  | send {q q' : LinkQueue Q} {thisDeliveryTime amount : Nat} (htime : thisDeliveryTime < 2 ^ 64)
      (harrived : q.packetInTransit.arrivalTime ≤ thisDeliveryTime) (hleft : 0 < q.packetInTransitBytesLeft)
      (h : q.send thisDeliveryTime amount = .ok q') : Moves base q q'
  | arrival {q : LinkQueue Q} {now size : Nat} (hnow : base ≤ now) : Moves base q (q.recordArrival now size)
  | enqueue {q : LinkQueue Q} {packetQueue : Q} {contents : Bytes} {now : Nat} (hnow : base ≤ now)
      (h : AbstractPacketQueue.enqueue q.packetQueue ⟨contents, now⟩ = .ok packetQueue) :
      Moves base q { q with packetQueue := packetQueue }
  | write {q : LinkQueue Q} : Moves base q q.writePackets.2

/-- The states that a link comes to, in the middle of calls too. -/
abbrev Reaches (base : Nat) : LinkQueue Q → LinkQueue Q → Prop := Relation.ReflTransGen (Moves base)

omit [AbstractPacketQueue Q] in
theorem nextDeliveryTime_lt {q : LinkQueue Q} {t : Nat} (h : q.nextDeliveryTime = .ok t) : t < 2 ^ 64 := by
  unfold nextDeliveryTime at h
  split at h
  · cases h
    decide
  · split at h
    · cases h
      exact Nat.mod_lt _ (by decide)
    · cases h

theorem serve_reaches {base time : Nat} (htime : time < 2 ^ 64) : ∀ {turns bytesLeft left : Nat} {q q' : LinkQueue Q},
    serve time turns bytesLeft q = .ok (left, q') → Reaches base q q'
  | 0, _, _, _, _, h => by
    cases h
    exact .refl
  | turns + 1, bytesLeft, left, q, q', h => by
    unfold serve at h
    split at h
    · cases h
      exact .refl
    · obtain ⟨⟨found, q₁⟩, hfetch, h⟩ := Run.bind_ok h
      have hreach : Reaches base q q₁ := .single (.fetch hfetch)
      dsimp only at h
      split at h
      · cases h
        exact hreach
      · obtain ⟨_, harrived, h⟩ := Run.bind_ok h
        obtain ⟨_, -, h⟩ := Run.bind_ok h
        obtain ⟨_, hleft, h⟩ := Run.bind_ok h
        obtain ⟨_, -, h⟩ := Run.bind_ok h
        obtain ⟨q₂, hsend, h⟩ := Run.bind_ok h
        -- the checks that `serve` makes before it sends are those the move asks for
        have hmove : Moves base q₁ q₂ := .send htime (by simpa using check_ok harrived) (by simpa using check_ok hleft) hsend
        exact (hreach.tail hmove).trans (serve_reaches htime h)

theorem deliver_reaches {base : Nat} {q q' : LinkQueue Q} {s : Service Q} (h : q.deliver = .ok (s, q')) :
    Reaches base q q' := by
  unfold deliver at h
  obtain ⟨time, htime, h⟩ := Run.bind_ok h
  obtain ⟨q₁, huse, h⟩ := Run.bind_ok h
  obtain ⟨⟨left, q₂⟩, hserve, h⟩ := Run.bind_ok h
  cases h
  exact (Relation.ReflTransGen.single (.opportunity huse)).trans (serve_reaches (nextDeliveryTime_lt htime) hserve)

theorem rationalizeLoop_reaches {base now : Nat} : ∀ {turns : Nat} {q q' : LinkQueue Q} {ss : List (Service Q)},
    rationalizeLoop now turns q = .ok (ss, q') → Reaches base q q'
  | 0, q, q', ss, h => by
    unfold rationalizeLoop at h
    obtain ⟨time, -, h⟩ := Run.bind_ok h
    split at h
    · cases h
    · cases h
      exact .refl
  | turns + 1, q, q', ss, h => by
    unfold rationalizeLoop at h
    obtain ⟨time, -, h⟩ := Run.bind_ok h
    split at h
    · obtain ⟨⟨s, q₁⟩, hdeliver, h⟩ := Run.bind_ok h
      obtain ⟨⟨ss', q₂⟩, hrest, h⟩ := Run.bind_ok h
      cases h
      exact (deliver_reaches hdeliver).trans (rationalizeLoop_reaches hrest)
    · cases h
      exact .refl

/-- A call that returns goes through such steps. -/
theorem step_reaches {base : Nat} {q q' : LinkQueue Q} {op : Op} {ss : List (Service Q)} (hclock : ∀ now ∈ op.time, base ≤ now)
    (h : q.step op = .ok (ss, q')) : Reaches base q q' := by
  cases op with
  | readPacket contents now =>
    have hnow : base ≤ now := hclock now rfl
    unfold step readPacket at h
    dsimp only at h
    split at h
    · cases h
    · obtain ⟨⟨ss', q₁⟩, hrationalize, h⟩ := Run.bind_ok h
      obtain ⟨packetQueue, henqueue, h⟩ := Run.bind_ok h
      cases h
      exact ((rationalizeLoop_reaches hrationalize).tail (.arrival hnow)).tail (.enqueue hnow henqueue)
  | waitTime now =>
    obtain ⟨⟨wait, ss', q₁⟩, hwait, h⟩ := Run.bind_ok h
    cases h
    obtain ⟨⟨ss', q₁⟩, hrationalize, hwait⟩ := Run.bind_ok hwait
    obtain ⟨next, -, hwait⟩ := Run.bind_ok hwait
    cases hwait
    exact rationalizeLoop_reaches hrationalize
  | writePackets =>
    cases h
    exact .single .write

theorem steps_reaches {base : Nat} : ∀ {ops : List Op} {q q' : LinkQueue Q} {os : List (List (Service Q))},
    (∀ op ∈ ops, ∀ now ∈ op.time, base ≤ now) → Run.steps step q ops = .ok (os, q') → Reaches base q q'
  | [], q, q', os, _, h => by
    cases h
    exact .refl
  | op :: ops, q, q', os, hclock, h => by
    obtain ⟨ss, q₁, os', hstep, hrest, -⟩ := Run.steps_cons_ok h
    exact (step_reaches (hclock op (List.mem_cons_self ..)) hstep).trans
      (steps_reaches (fun op' hop => hclock op' (List.mem_cons_of_mem _ hop)) hrest)

/-! ## What is logged -/

/-- The packets of a link have come since its base timestamp, and so have those that it logged. -/
structure Timely [TracksArrivals Q] (base : Nat) (q : LinkQueue Q) : Prop where
  inTransit : q.packetInTransitBytesLeft ≠ 0 → base ≤ q.packetInTransit.arrivalTime
  queue : ∀ t ∈ TracksArrivals.arrivals q.packetQueue, base ≤ t
  log : ∀ ls ∈ q.log, ∀ l ∈ ls, l.Since base

omit [AbstractPacketQueue Q] in
theorem logLine_since {base : Nat} {q : LinkQueue Q} {l : LogLine} (h : ∀ ls ∈ q.log, ∀ l ∈ ls, l.Since base) (hl : l.Since base) :
    ∀ ls ∈ (q.logLine l).log, ∀ l ∈ ls, l.Since base := by
  intro ls hls l' hl'
  obtain ⟨ls', hls', rfl⟩ := Option.map_eq_some_iff.1 hls
  rcases List.mem_append.1 hl' with hl' | hl'
  · exact h ls' hls' l' hl'
  · rwa [List.mem_singleton.1 hl']

omit [AbstractPacketQueue Q] in
theorem use_log {q q' : LinkQueue Q} (h : q.useADeliveryOpportunity = .ok q') : ∃ time,
    q'.log = (q.logLine (.opportunity time packetSize)).log ∧ q'.packetInTransit = q.packetInTransit := by
  unfold useADeliveryOpportunity recordDepartureOpportunity at h
  cases ht : q.nextDeliveryTime with
  | error e =>
    rw [ht] at h
    cases h
  | ok time =>
    rw [ht] at h
    simp only [Run.ok_bind, Run.pure_ok] at h
    refine ⟨time, ?_⟩
    split at h
    · split at h
      · cases h
        exact ⟨rfl, rfl⟩
      · cases h
        exact ⟨rfl, rfl⟩
    · cases h
      exact ⟨rfl, rfl⟩

omit [AbstractPacketQueue Q] in
theorem send_log {q q' : LinkQueue Q} {time amount : Nat} (h : q.send time amount = .ok q') :
    q'.packetInTransit.arrivalTime = q.packetInTransit.arrivalTime ∧
      (q'.log = q.log ∨ ∃ size src dst,
        q'.log = (q.logLine (.departure time size (sub64 time q.packetInTransit.arrivalTime) src dst)).log) := by
  unfold send depart at h
  dsimp only at h
  split at h
  · obtain ⟨q₁, h₁, h⟩ := Run.bind_ok h
    unfold recordDeparture at h₁
    split at h₁
    · cases h₁
      cases h
      exact ⟨rfl, Or.inr ⟨_, _, _, rfl⟩⟩
    · cases h₁
  · cases h
    exact ⟨rfl, Or.inl rfl⟩

variable [TracksArrivals Q]

theorem Timely.opportunity {base : Nat} {q q' : LinkQueue Q} (hq : q.Timely base) (h : q.useADeliveryOpportunity = .ok q') :
    q'.Timely base := by
  obtain ⟨-, hleft, hqueue⟩ := use_ok h
  obtain ⟨time, hlog, htransit⟩ := use_log h
  refine ⟨?_, ?_, ?_⟩
  · rw [hleft, htransit]
    exact hq.inTransit
  · rw [hqueue]
    exact hq.queue
  · rw [hlog]
    exact logLine_since hq.log trivial

theorem Timely.fetch {base : Nat} {q q' : LinkQueue Q} {found : Bool} (hq : q.Timely base)
    (h : q.fetch = .ok (found, q')) : q'.Timely base := by
  unfold LinkQueue.fetch at h
  split at h
  · cases h
    exact hq
  · split at h
    · split at h
      · obtain ⟨⟨p, packetQueue⟩, hdequeue, h⟩ := Run.bind_ok h
        cases h
        exact ⟨hq.inTransit, fun t ht => hq.queue t ((TracksArrivals.dequeue hdequeue).2 ht), hq.log⟩
      · cases h
        exact hq
    · rename_i hempty
      obtain ⟨⟨p, packetQueue⟩, hdequeue, h⟩ := Run.bind_ok h
      cases h
      obtain ⟨hp, hrest⟩ := TracksArrivals.dequeue hdequeue
      exact ⟨fun _ => hq.queue _ (hp (by simpa using hempty)), fun t ht => hq.queue t (hrest ht), hq.log⟩

theorem Timely.send {base time amount : Nat} {q q' : LinkQueue Q} (hq : q.Timely base) (htime : time < 2 ^ 64)
    (harrived : q.packetInTransit.arrivalTime ≤ time) (hleft : 0 < q.packetInTransitBytesLeft)
    (h : q.send time amount = .ok q') : q'.Timely base := by
  obtain ⟨-, -, hqueue⟩ := send_ok h
  obtain ⟨harrival, hlog⟩ := send_log h
  have hbase := hq.inTransit (Nat.pos_iff_ne_zero.1 hleft)
  have hdelay : sub64 time q.packetInTransit.arrivalTime = time - q.packetInTransit.arrivalTime := by
    unfold sub64
    omega
  refine ⟨fun _ => harrival ▸ hbase, ?_, ?_⟩
  · rw [hqueue]
    exact hq.queue
  · rcases hlog with hlog | ⟨size, src, dst, hlog⟩
    · rw [hlog]
      exact hq.log
    · rw [hlog]
      refine logLine_since hq.log ?_
      show base + sub64 time q.packetInTransit.arrivalTime ≤ time
      omega

theorem Timely.moves {base : Nat} {q q' : LinkQueue Q} (hq : q.Timely base) (h : Moves base q q') : q'.Timely base := by
  cases h with
  | opportunity h => exact hq.opportunity h
  | fetch h => exact hq.fetch h
  | send htime harrived hleft h => exact hq.send htime harrived hleft h
  | arrival hnow => exact ⟨hq.inTransit, hq.queue, logLine_since hq.log trivial⟩
  | enqueue hnow h =>
    refine ⟨hq.inTransit, fun t ht => ?_, hq.log⟩
    rcases List.mem_cons.1 (TracksArrivals.enqueue h ht) with rfl | ht
    · exact hnow
    · exact hq.queue t ht
  | write => exact ⟨hq.inTransit, hq.queue, hq.log⟩

/-- A link as the constructor leaves it, with a log. -/
def opened (schedule : List Nat) (packetQueue : Q) (base : Nat) (repeats : Bool) : LinkQueue Q :=
  { schedule := schedule, baseTimestamp := base, packetQueue := packetQueue, log := some [], repeats := repeats }

theorem timely_of_reaches {schedule : List Nat} {packetQueue : Q} {base : Nat} {repeats : Bool}
    (hempty : AbstractPacketQueue.empty packetQueue = true) {q : LinkQueue Q}
    (h : Reaches base (opened schedule packetQueue base repeats) q) : q.Timely base := by
  induction h with
  | refl =>
    refine ⟨fun hleft => absurd rfl hleft, ?_, ?_⟩
    · intro t ht
      rw [opened, TracksArrivals.empty hempty] at ht
      cases ht
    · intro ls hls l hl
      cases hls
      cases hl
  | tail _ hmove ih => exact ih.moves hmove

end LinkQueue

/-! ## What the loop takes -/

/-- `timestamp event bytes [...]`. -/
def IsEvent (line : Bytes) : Prop :=
  ∃ timestamp eventType numBytes fields, split line = timestamp :: eventType :: numBytes :: fields ∧
    isNumber timestamp = true ∧ isNumber numBytes = true ∧
    (eventType = ascii "+" ∨ eventType = ascii "#" ∨ eventType = ascii "-")

/-- The log with those events, as mm-throughput-graph needs it. -/
structure LogReadable (numify : Graph.Numify) (i : Invocation) (queue : Bytes) (ls : List LogLine) : Prop where
  shape : ∀ line ∈ lines (i.log queue ls), line.head? = some 35 ∨ IsEvent line
  accepted : ∃ g, Graph.read numify (i.log queue ls) = .ok g
  oneComment : lines (written [i.commandComment]) = [i.commandComment]
  quoted : ∀ arg ∈ i.argv, ShellWords.read (shellQuote arg) = some [arg]

theorem LogLine.isEvent_text (l : LogLine) : IsEvent l.text := by
  refine ⟨_, _, _, _, l.split_text, isNumber_repr _, isNumber_repr _, ?_⟩
  cases l with
  | arrival => exact Or.inl rfl
  | opportunity => exact Or.inr (Or.inl rfl)
  | departure => exact Or.inr (Or.inr rfl)

open LinkQueue in
/-- The log can be read after every step of every run exactly when no argument has a line end in it. -/
theorem log_readable_iff {Q : Type} [AbstractPacketQueue Q] [TracksArrivals Q] {numify : Graph.Numify}
    (hnumify : ∀ ds n, Decimal ds n → numify ds = n) {i : Invocation} (hfront : ∀ p ∈ i.shellPrefix, 10 ∉ p)
    {schedule : List Nat} {packetQueue : Q} {repeats : Bool} (hempty : AbstractPacketQueue.empty packetQueue = true) :
    (∀ q, Reaches i.baseTimestamp (opened schedule packetQueue i.baseTimestamp repeats) q →
      LogReadable numify i (AbstractPacketQueue.toString packetQueue) (q.log.getD [])) ↔
    ∀ arg ∈ i.argv, 10 ∉ arg := by
  constructor
  -- without an argument in two lines the header is one comment; otherwise the rest of it is no comment
  · intro hread arg harg hmem
    have hone := (hread _ .refl).oneComment
    have hnot := not_mem_lines (hone ▸ List.mem_singleton.2 rfl)
    refine hnot (List.mem_append_right _ ?_)
    rw [mem_commandLine (by decide) (by decide) (by decide)]
    exact ⟨arg, harg, hmem⟩
  · intro hargs q hq
    have hqueue := TracksArrivals.toString_line packetQueue
    have hsince : ∀ l ∈ q.log.getD [], l.Since i.baseTimestamp := by
      have hlog := (timely_of_reaches hempty hq).log
      cases hls : q.log with
      | none => exact fun l hl => absurd hl List.not_mem_nil
      | some ls => exact hlog ls hls
    obtain ⟨hlines, haccepted⟩ := Invocation.read_log hnumify hargs hfront hqueue hsince
    have hcomments := Invocation.not_mem_comments hargs hfront hqueue
    refine ⟨fun line hline => ?_, ⟨_, haccepted⟩, lines_written fun l hl => ?_, fun arg _ => read_shellQuote arg⟩
    · rw [hlines] at hline
      rcases List.mem_append.1 hline with hline | hline
      · exact Or.inl (Invocation.head_comments line hline)
      · obtain ⟨l, -, rfl⟩ := List.mem_map.1 hline
        exact Or.inr l.isEvent_text
    · rw [List.mem_singleton.1 hl]
      exact hcomments _ (by simp [Invocation.comments])

/-- A number to Perl, as far as it matters here. -/
def decimalNumber (s : Bytes) : ℚ := numeral 10 s

/-- mm-link with a shell command, and its log. -/
def loggedCommand (command : Bytes) : Invocation where
  argv := [ascii "mm-link", ascii "up", ascii "down", ascii "--uplink-log=log", ascii "sh", ascii "-c", command]
  linkName := ascii "Uplink"
  filename := ascii "up"
  logfile := ascii "log"
  shellPrefix := some (ascii "[delay 20 ms] ")
  initialTimestamp := 1500000000000
  baseTimestamp := 12
  link := Or.inl rfl
  filename_mem := by simp
  logfile_mem := ⟨ascii "--uplink-log=log", by simp, ascii "--uplink-log=", by decide⟩

theorem decimalNumber_of_decimal (ds : Bytes) (n : Nat) (h : Decimal ds n) : decimalNumber ds = n := by
  unfold decimalNumber
  rw [h.number]

open LinkQueue in
/-- A packet of 40 bytes arrives behind one opportunity and leaves in the next one. -/
theorem log_readable_small : ∃ os q, Run.steps step (opened [5] (⟨[]⟩ : InfinitePacketQueue) 12 true)
      [.readPacket (List.replicate 40 0) 20, .waitTime 22] = .ok (os, q) ∧
    q.log = some [.opportunity 17 1504, .arrival 20 40, .opportunity 22 1504, .departure 22 40 2 0 0] ∧
    LogReadable decimalNumber (loggedCommand (ascii "echo 'don\"t'")) (ascii "infinite") (q.log.getD []) := by
  obtain ⟨⟨os, q⟩, hrun⟩ := Run.ok_of_isOk (x := Run.steps step (opened [5] (⟨[]⟩ : InfinitePacketQueue) 12 true)
    [.readPacket (List.replicate 40 0) 20, .waitTime 22]) (by decide +kernel)
  have hlog : q.log = some [.opportunity 17 1504, .arrival 20 40, .opportunity 22 1504, .departure 22 40 2 0 0] :=
    Run.value_of_map (fun r => r.2.log) hrun (by decide +kernel)
  have hreaches : Reaches 12 (opened [5] (⟨[]⟩ : InfinitePacketQueue) 12 true) q := by
    refine steps_reaches (fun op hop now hnow => ?_) hrun
    rcases List.mem_pair.1 hop with rfl | rfl
    · cases hnow
      decide
    · cases hnow
      decide
  exact ⟨os, q, hrun, hlog, (log_readable_iff (i := loggedCommand (ascii "echo 'don\"t'")) decimalNumber_of_decimal (by decide) rfl).2
    (by decide) q hreaches⟩

open LinkQueue in
/-- The second line of a command is taken for an event. -/
theorem second_line_dies : ¬ ∀ i : Invocation, ∀ q,
    Reaches i.baseTimestamp (opened [5] (⟨[]⟩ : InfinitePacketQueue) i.baseTimestamp true) q →
    LogReadable decimalNumber i (ascii "infinite") (q.log.getD []) := by
  intro hall
  obtain ⟨g, hg⟩ := (hall (loggedCommand (ascii "echo a\necho b")) _ .refl).accepted
  have hdies : Graph.read decimalNumber ((loggedCommand (ascii "echo a\necho b")).log (ascii "infinite") []) =
      .error (ascii "Format: timestamp event_type num_bytes [delay]") := by decide
  exact absurd (hdies.symm.trans hg) (by simp)

end AbcMahimahi.Frontend
