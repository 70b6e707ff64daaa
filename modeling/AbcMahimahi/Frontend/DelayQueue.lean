/-
`DelayQueue` (delay_queue.cc), the queue of `mm-delay`, and chains of them as shells in shells make them:
what one queue writes, the next one reads at that time. Each queue is a line that holds packets back, so
the delays of a chain add up, and since what is due first is at the head, `wait_time` says how long the
loop around the queue may sleep.
-/
import AbcMahimahi.Lib.DelayLine
import AbcMahimahi.Util.Fault

namespace AbcMahimahi.Frontend

open DelayLine

/-- The packets are queued with the times at which they are released. -/
structure DelayQueue where
  delayMs : Nat
  packetQueue : List (Nat × Bytes) := []

namespace DelayQueue

def readPacket (q : DelayQueue) (timestamp : Nat) (contents : Bytes) : DelayQueue :=
  { q with packetQueue := q.packetQueue ++ [(u64 (timestamp + q.delayMs), contents)] }

/-- The loop of `write_packets`. Every turn reads the clock again; a packet is written with the reading
that released it. -/
def writeLoop : (Nat → Nat) → List (Nat × Bytes) → List (Nat × Bytes) × List (Nat × Bytes)
  | _, [] => ([], [])
  | timestamp, front :: rest =>
    if front.1 ≤ timestamp 0 then
      let (written, queue) := writeLoop (fun turn => timestamp (turn + 1)) rest
      ((timestamp 0, front.2) :: written, queue)
    else ([], front :: rest)

def writePackets (q : DelayQueue) (timestamp : Nat → Nat) : List (Nat × Bytes) × DelayQueue :=
  let (written, queue) := writeLoop timestamp q.packetQueue
  (written, { q with packetQueue := queue })

def waitTime (q : DelayQueue) (now : Nat) : Nat :=
  match q.packetQueue with
  | [] => 2 ^ 16 - 1
  | front :: _ => if front.1 ≤ now then 0 else u32 (sub64 front.1 now)

def pendingOutput (q : DelayQueue) (now : Nat) : Bool := q.waitTime now ≤ 0

@[simp] theorem writePackets_delayMs (q : DelayQueue) (timestamp : Nat → Nat) :
    (q.writePackets timestamp).2.delayMs = q.delayMs := rfl

end DelayQueue

/-! ## A chain -/

/-- A queue of a chain, and what it was given so far. -/
structure Stage where
  queue : DelayQueue
  received : List (Nat × Bytes) := []

/-- The queues, the first one first, and what has left the last one. -/
structure Chain where
  stages : List Stage
  left : List (Nat × Bytes) := []

namespace Chain

/-- A packet comes to the first queue, or leaves where there is none. -/
def pass (c : Chain) (p : Nat × Bytes) : Chain :=
  match c.stages with
  | [] => { c with left := c.left ++ [p] }
  | stage :: rest =>
    { c with stages := { queue := stage.queue.readPacket p.1 p.2, received := stage.received ++ [p] } :: rest }

def behind (c : Chain) (stage : Stage) : Chain := { c with stages := stage :: c.stages }

/-- `write_packets` of one of the queues, whose output the next one reads. -/
def writeAt (timestamp : Nat → Nat) : Nat → List Stage → List (Nat × Bytes) → Chain
  | _, [], left => { stages := [], left := left }
  | 0, stage :: rest, left =>
    let (written, queue) := stage.queue.writePackets timestamp
    (written.foldl pass { stages := rest, left := left }).behind { stage with queue := queue }
  | i + 1, stage :: rest, left => (writeAt timestamp i rest left).behind stage

/-- What happens to a chain: a packet comes in, or one of the queues is polled, with the readings of
the clock meanwhile. -/
inductive Event where
  | enter (now : Nat) (contents : Bytes)
  | poll (i : Nat) (timestamp : Nat → Nat) (finish : Nat)

def step (c : Chain) : Event → Chain
  | .enter now contents => c.pass (now, contents)
  | .poll i timestamp _ => writeAt timestamp i c.stages c.left

def run (c : Chain) (events : List Event) : Chain := events.foldl step c

def ofDelays (delays : List Nat) : Chain := { stages := delays.map fun delay => { queue := { delayMs := delay } } }

def Event.entered : Event → Option (Nat × Bytes)
  | .enter now contents => some (now, contents)
  | .poll .. => none

/-- When the clock was read last. -/
def Event.last : Event → Nat
  | .enter now _ => now
  | .poll _ _ finish => finish

/-- The readings of an event come in order, after the time given. The clock of milliseconds is not about
to wrap. -/
def Event.Timed (start : Nat) : Event → Prop
  | .enter now _ => start ≤ now ∧ now + 2 ^ 31 ≤ 2 ^ 64
  | .poll _ timestamp finish =>
    start ≤ timestamp 0 ∧ Monotone timestamp ∧ (∀ turn, timestamp turn ≤ finish) ∧ finish + 2 ^ 31 ≤ 2 ^ 64

/-- The events follow each other. -/
def Timed : Nat → List Event → Prop
  | _, [] => True
  | start, e :: es => e.Timed start ∧ Timed e.last es

/-- The time of the last event. -/
def lastTime (start : Nat) (events : List Event) : Nat := events.foldl (fun _ e => e.last) start

/-- The delays of the queues. -/
def delays (c : Chain) : List Nat := c.stages.map (·.queue.delayMs)

/-- What was given to the first queue. -/
def received (c : Chain) : List (Nat × Bytes) :=
  match c.stages with
  | [] => c.left
  | stage :: _ => stage.received

/-! ## Each queue is a line -/

/-- A queue of a chain holds back what it was given, up to the time given. -/
structure StageHolds (now : Nat) (stage : Stage) (sent : List (Nat × Bytes)) : Prop where
  line : Holds stage.queue.delayMs stage.received sent stage.queue.packetQueue
  past : ∀ p ∈ stage.received, p.1 ≤ now
  delay : stage.queue.delayMs < 2 ^ 31

/-- What a queue has sent is what the next one has received. -/
def Linked (now : Nat) : List Stage → List (Nat × Bytes) → Prop
  | [], _ => True
  | stage :: rest, left => StageHolds now stage (received ⟨rest, left⟩) ∧ Linked now rest left

theorem StageHolds.later {now now' : Nat} {stage : Stage} {sent : List (Nat × Bytes)} (h : StageHolds now stage sent)
    (hle : now ≤ now') : StageHolds now' stage sent :=
  ⟨h.line, fun p hp => (h.past p hp).trans hle, h.delay⟩

theorem Linked.later {now now' : Nat} (hle : now ≤ now') : ∀ {stages : List Stage} {left : List (Nat × Bytes)},
    Linked now stages left → Linked now' stages left
  | [], _, _ => trivial
  | _ :: _, _, ⟨hstage, hrest⟩ => ⟨hstage.later hle, Linked.later hle hrest⟩

theorem StageHolds.readPacket {now t : Nat} {stage : Stage} {sent : List (Nat × Bytes)} {contents : Bytes}
    (h : StageHolds now stage sent) (hle : now ≤ t) (hwrap : t + 2 ^ 31 ≤ 2 ^ 64) :
    StageHolds t ⟨stage.queue.readPacket t contents, stage.received ++ [(t, contents)]⟩ sent := by
  have hdelay := h.delay
  have hdue : (u64 (t + stage.queue.delayMs), contents) = due stage.queue.delayMs (t, contents) :=
    congrArg (·, contents) (u64_eq (by omega))
  refine ⟨?_, ?_, hdelay⟩
  · unfold DelayQueue.readPacket
    dsimp only
    rw [hdue]
    exact h.line.receive fun p hp => (h.past p hp).trans hle
  · intro p hp
    rcases List.mem_append.1 hp with hp | hp
    · exact (h.past p hp).trans hle
    · rw [List.mem_singleton.1 hp]

/-- What one packet does to a chain. -/
structure Passed (t : Nat) (c c' : Chain) (written : List (Nat × Bytes)) : Prop where
  linked : Linked t c'.stages c'.left
  received : c'.received = c.received ++ written
  delays : c'.delays = c.delays

theorem pass_passed {now t : Nat} {c : Chain} (contents : Bytes) (h : Linked now c.stages c.left) (hle : now ≤ t)
    (hwrap : t + 2 ^ 31 ≤ 2 ^ 64) : Passed t c (c.pass (t, contents)) [(t, contents)] := by
  obtain ⟨stages, left⟩ := c
  cases stages with
  | nil => exact ⟨trivial, rfl, rfl⟩
  | cons stage rest => exact ⟨⟨h.1.readPacket hle hwrap, h.2.later hle⟩, rfl, rfl⟩

/-! ## A poll -/

theorem writeLoop_holds {d : Nat} {received : List (Nat × Bytes)} : ∀ (queue : List (Nat × Bytes)) {sent : List (Nat × Bytes)}
    (timestamp : Nat → Nat), Holds d received sent queue →
    Holds d received (sent ++ (DelayQueue.writeLoop timestamp queue).1) (DelayQueue.writeLoop timestamp queue).2
  | [], _, timestamp, h => by
    rw [DelayQueue.writeLoop, List.append_nil]
    exact h
  | front :: rest, _, timestamp, h => by
    unfold DelayQueue.writeLoop
    split
    · rename_i hdue
      have hrest := writeLoop_holds rest (fun turn => timestamp (turn + 1)) (h.send hdue)
      rw [List.append_assoc] at hrest
      exact hrest
    · rw [List.append_nil]
      exact h

/-- What a poll writes goes to the next queue, packet by packet. -/
theorem written_passed {finish : Nat} (hwrap : finish + 2 ^ 31 ≤ 2 ^ 64) : ∀ (queue : List (Nat × Bytes))
    (timestamp : Nat → Nat) {now : Nat} {c : Chain}, Linked now c.stages c.left → now ≤ timestamp 0 → Monotone timestamp →
    (∀ turn, timestamp turn ≤ finish) →
    Passed finish c ((DelayQueue.writeLoop timestamp queue).1.foldl pass c) (DelayQueue.writeLoop timestamp queue).1
  | [], timestamp, now, c, h, hle, _, hfinish => by
    rw [DelayQueue.writeLoop]
    exact ⟨h.later (hle.trans (hfinish 0)), (List.append_nil _).symm, rfl⟩
  | front :: rest, timestamp, now, c, h, hle, hmono, hfinish => by
    unfold DelayQueue.writeLoop
    split
    · have hfirst := pass_passed front.2 h hle (by have := hfinish 0; omega)
      have hrest := written_passed hwrap rest (fun turn => timestamp (turn + 1)) hfirst.linked (hmono (Nat.zero_le 1))
        (fun _ _ hij => hmono (Nat.succ_le_succ hij)) fun turn => hfinish (turn + 1)
      refine ⟨hrest.linked, ?_, hrest.delays.trans hfirst.delays⟩
      dsimp only [List.foldl_cons]
      rw [hrest.received, hfirst.received, List.append_assoc]
      rfl
    · exact ⟨h.later (hle.trans (hfinish 0)), (List.append_nil _).symm, rfl⟩

theorem writeAt_passed {now finish : Nat} {timestamp : Nat → Nat} (hle : now ≤ timestamp 0) (hmono : Monotone timestamp)
    (hfinish : ∀ turn, timestamp turn ≤ finish) (hwrap : finish + 2 ^ 31 ≤ 2 ^ 64) :
    ∀ {i : Nat} {stages : List Stage} {left : List (Nat × Bytes)}, Linked now stages left →
      Passed finish ⟨stages, left⟩ (writeAt timestamp i stages left) []
  | i, [], left, _ => by
    rw [writeAt]
    exact ⟨trivial, (List.append_nil _).symm, rfl⟩
  | 0, stage :: rest, left, ⟨hstage, hrest⟩ => by
    have hpassed := written_passed hwrap stage.queue.packetQueue timestamp (c := ⟨rest, left⟩) hrest hle hmono hfinish
    have hline := writeLoop_holds stage.queue.packetQueue timestamp hstage.line
    rw [writeAt]
    refine ⟨⟨⟨?_, fun p hp => (hstage.past p hp).trans (hle.trans (hfinish 0)), hstage.delay⟩, hpassed.linked⟩,
      (List.append_nil _).symm, congrArg (_ :: ·) hpassed.delays⟩
    show Holds _ _ (received _) _
    rw [← hpassed.received] at hline
    exact hline
  | i + 1, stage :: rest, left, ⟨hstage, hrest⟩ => by
    have hpassed := writeAt_passed hle hmono hfinish hwrap (i := i) hrest
    rw [writeAt]
    refine ⟨⟨⟨?_, fun p hp => (hstage.past p hp).trans (hle.trans (hfinish 0)), hstage.delay⟩, hpassed.linked⟩,
      (List.append_nil _).symm, congrArg (_ :: ·) hpassed.delays⟩
    show Holds _ _ (writeAt timestamp i rest left).received _
    rw [hpassed.received, List.append_nil]
    exact hstage.line

/-! ## Runs of a chain -/

theorem step_passed {start : Nat} {c : Chain} {e : Event} (h : Linked start c.stages c.left) (htimed : e.Timed start) :
    Passed e.last c (c.step e) e.entered.toList := by
  cases e with
  | enter now contents => exact pass_passed contents h htimed.1 htimed.2
  | poll i timestamp finish => exact writeAt_passed htimed.1 htimed.2.1 htimed.2.2.1 htimed.2.2.2 h

theorem run_passed : ∀ {events : List Event} {start : Nat} {c : Chain}, Linked start c.stages c.left → Timed start events →
    Passed (lastTime start events) c (c.run events) (events.filterMap Event.entered)
  | [], _, _, h, _ => ⟨h, (List.append_nil _).symm, rfl⟩
  | e :: es, start, c, h, ⟨htimed, hrest⟩ => by
    have hfirst := step_passed h htimed
    have hlater := run_passed hfirst.linked hrest
    refine ⟨hlater.linked, ?_, hlater.delays.trans hfirst.delays⟩
    have hentered : (e :: es).filterMap Event.entered = e.entered.toList ++ es.filterMap Event.entered := by
      cases e <;> rfl
    rw [hentered, ← List.append_assoc, ← hfirst.received]
    exact hlater.received

/-- The delays of the lines add up. -/
theorem Linked.follows {now : Nat} : ∀ {stages : List Stage} {left : List (Nat × Bytes)}, Linked now stages left →
    Follows (delays ⟨stages, left⟩).sum (received ⟨stages, left⟩) left
  | [], left, _ => Follows.refl left
  | _ :: _, _, ⟨hstage, hrest⟩ => hstage.line.follows.trans hrest.follows

theorem linked_ofDelays : ∀ {ds : List Nat}, (∀ d ∈ ds, d < 2 ^ 31) → Linked 0 (ofDelays ds).stages []
  | [], _ => trivial
  | d :: ds, h => by
    have hrest := linked_ofDelays fun d' hd' => h d' (List.mem_cons_of_mem _ hd')
    refine ⟨⟨?_, fun p hp => absurd hp List.not_mem_nil, h d (List.mem_cons_self ..)⟩, hrest⟩
    have hnone : received ⟨(ofDelays ds).stages, []⟩ = [] := by
      cases ds <;> rfl
    show Holds d [] (received ⟨(ofDelays ds).stages, []⟩) []
    rw [hnone]
    exact holds_nil d

theorem Linked.stage {now : Nat} {stage : Stage} : ∀ {stages : List Stage} {left : List (Nat × Bytes)},
    Linked now stages left → stage ∈ stages → ∃ sent, StageHolds now stage sent
  | _ :: _, _, ⟨hstage, hrest⟩, hmem => by
    rcases List.mem_cons.1 hmem with rfl | hmem
    · exact ⟨_, hstage⟩
    · exact hrest.stage hmem

/-! ## Waiting -/

/-- `wait_time` is what is left until the head is due. -/
theorem StageHolds.waitTime {last now : Nat} {stage : Stage} {sent rest : List (Nat × Bytes)} {front : Nat × Bytes}
    (h : StageHolds last stage sent) (hle : last ≤ now) (hqueue : stage.queue.packetQueue = front :: rest) :
    stage.queue.waitTime now = front.1 - now := by
  obtain ⟨p, hp, rfl⟩ := h.line.queued (hqueue ▸ List.mem_cons_self ..)
  have hpast := h.past p hp
  have hdelay := h.delay
  unfold DelayQueue.waitTime
  rw [hqueue]
  dsimp only [due]
  split
  · omega
  · unfold u32 sub64
    omega

/-- The head is due first. -/
theorem StageHolds.waitTime_le {last now : Nat} {stage : Stage} {sent : List (Nat × Bytes)} {p : Nat × Bytes}
    (h : StageHolds last stage sent) (hle : last ≤ now) (hp : p ∈ stage.queue.packetQueue) :
    stage.queue.waitTime now ≤ p.1 - now := by
  have hsorted := h.line.sorted
  cases hqueue : stage.queue.packetQueue with
  | nil =>
    rw [hqueue] at hp
    exact absurd hp List.not_mem_nil
  | cons front rest =>
    rw [h.waitTime hle hqueue]
    rw [hqueue] at hp hsorted
    rcases List.mem_cons.1 hp with rfl | hp
    · exact le_rfl
    · exact Nat.sub_le_sub_right ((List.pairwise_cons.1 hsorted).1 p hp) now

/-- There is output to write when something is due. -/
theorem StageHolds.pendingOutput_iff {last now : Nat} {stage : Stage} {sent : List (Nat × Bytes)}
    (h : StageHolds last stage sent) (hle : last ≤ now) :
    stage.queue.pendingOutput now = true ↔ ∃ p ∈ stage.queue.packetQueue, p.1 ≤ now := by
  unfold DelayQueue.pendingOutput
  rw [decide_eq_true_iff]
  constructor
  · intro hwait
    cases hqueue : stage.queue.packetQueue with
    | nil =>
      unfold DelayQueue.waitTime at hwait
      rw [hqueue] at hwait
      exact absurd hwait (show ¬ 2 ^ 16 - 1 ≤ 0 by decide)
    | cons front rest =>
      rw [h.waitTime hle hqueue] at hwait
      exact ⟨front, List.mem_cons_self .., by omega⟩
  · rintro ⟨p, hp, hdue⟩
    have hwait := h.waitTime_le hle hp
    omega

/-- What a chain with these delays makes of what has entered it, up to the time given. -/
structure Delayed (ds : List Nat) (entered : List (Nat × Bytes)) (last : Nat) (c : Chain) : Prop where
  delays : c.delays = ds
  inOrder : c.left.map Prod.snd <+: entered.map Prod.snd
  addsUp : List.Forall₂ (fun p q => p.1 + ds.sum ≤ q.1) (entered.take c.left.length) c.left
  waitTime : ∀ stage ∈ c.stages, ∀ now, last ≤ now → ∀ front rest, stage.queue.packetQueue = front :: rest →
    stage.queue.waitTime now = front.1 - now
  punctual : ∀ stage ∈ c.stages, ∀ now, last ≤ now → ∀ p ∈ stage.queue.packetQueue, stage.queue.waitTime now ≤ p.1 - now
  pending : ∀ stage ∈ c.stages, ∀ now, last ≤ now →
    (stage.queue.pendingOutput now = true ↔ ∃ p ∈ stage.queue.packetQueue, p.1 ≤ now)

/-- The delays of a chain add up, the order is kept, and no loop around one of the queues oversleeps. -/
theorem chain_delayed {ds : List Nat} {events : List Event} (hdelays : ∀ d ∈ ds, d < 2 ^ 31) (htimed : Timed 0 events) :
    Delayed ds (events.filterMap Event.entered) (lastTime 0 events) ((ofDelays ds).run events) := by
  have hpassed := run_passed (linked_ofDelays hdelays) htimed
  have hds : ((ofDelays ds).run events).delays = ds := by
    rw [hpassed.delays]
    simp [ofDelays, delays, Function.comp_def]
  have hnone : (ofDelays ds).received = [] := by
    cases ds <;> rfl
  have hreceived : ((ofDelays ds).run events).received = events.filterMap Event.entered := by
    rw [hpassed.received, hnone, List.nil_append]
  have hfollows : Follows ds.sum (events.filterMap Event.entered) ((ofDelays ds).run events).left := by
    rw [← hreceived]
    nth_rewrite 1 [← hds]
    exact hpassed.linked.follows
  refine ⟨hds, hfollows.payload, hfollows.times, fun stage hmem now hle front rest hqueue => ?_,
    fun stage hmem now hle p hp => ?_, fun stage hmem now hle => ?_⟩
  · obtain ⟨sent, hstage⟩ := hpassed.linked.stage hmem
    exact hstage.waitTime hle hqueue
  · obtain ⟨sent, hstage⟩ := hpassed.linked.stage hmem
    exact hstage.waitTime_le hle hp
  · obtain ⟨sent, hstage⟩ := hpassed.linked.stage hmem
    exact hstage.pendingOutput_iff hle

/-- A packet comes to the first of two queues, which is polled too early and then in time. -/
def twoPolls : List Event :=
  [.enter 0 [1], .enter 3 [2], .poll 0 (fun _ => 5) 5, .poll 0 (fun _ => 12) 13, .poll 1 (fun _ => 40) 40]

theorem chain_delayed_small : Delayed [10, 10] [(0, [1]), (3, [2])] 40 ((ofDelays [10, 10]).run twoPolls) := by
  have hconst : ∀ t : Nat, Monotone fun _ : Nat => t := fun t => monotone_const
  have htimed : Timed 0 twoPolls :=
    ⟨⟨le_rfl, by decide⟩, ⟨by decide, by decide⟩, ⟨by decide, hconst 5, fun _ => le_rfl, by decide⟩,
      ⟨by decide, hconst 12, fun _ => Nat.le_succ 12, by decide⟩, ⟨by decide, hconst 40, fun _ => le_rfl, by decide⟩, trivial⟩
  exact chain_delayed (by decide) htimed

end Chain

end AbcMahimahi.Frontend
