/-
`mm-delay` (delayshell.cc): the ferry around a `DelayQueue`. It is a line that loses nothing, and how late a
packet leaves does not depend on the traffic: `wait_time` is the time to the first release, so the loop is back
in time for each packet, up to what the machine takes to wake it.
-/
import AbcMahimahi.Frontend.DelayQueue
import AbcMahimahi.Frontend.Ferry

namespace AbcMahimahi.Frontend

open Bytes LossyLine

instance : FerryQueue DelayQueue where
  readPacket q r contents := pure (q.readPacket r.first contents)
  writePackets q r := q.writePackets r.reading
  waitTime q r := pure (q.waitTime r.first, q)
  pendingOutput q r := q.pendingOutput r.first
  finished _ := false

namespace DelayQueue

/-- The queue, with the times of release. -/
def Holding (d : Nat) (q : DelayQueue) (l : List (Nat × Bytes)) : Prop := q.delayMs = d ∧ q.packetQueue = l

/-- What the loop writes is due, and what it leaves is not. -/
theorem writeLoop_spec : ∀ (timestamp : Nat → Nat) (l : List (Nat × Bytes)), ∃ gone, l = gone ++ (writeLoop timestamp l).2 ∧
    List.Forall₂ (fun o g => o.2 = g.2 ∧ g.1 ≤ o.1 ∧ ∃ turn, o.1 = timestamp turn) (writeLoop timestamp l).1 gone ∧
    ∀ front ∈ (writeLoop timestamp l).2.head?, ∃ turn, timestamp turn < front.1
  | timestamp, [] => ⟨[], rfl, .nil, fun _ h => absurd h (by simp [writeLoop])⟩
  | timestamp, front :: rest => by
    unfold writeLoop
    by_cases hdue : front.1 ≤ timestamp 0
    · rw [if_pos hdue]
      obtain ⟨gone, hl, hout, hrest⟩ := writeLoop_spec (fun turn => timestamp (turn + 1)) rest
      refine ⟨front :: gone, ?_, .cons ⟨rfl, hdue, 0, rfl⟩ (hout.imp fun o g h => ?_), fun p hp => ?_⟩
      · rw [List.cons_append, ← hl]
      · obtain ⟨hsame, hle, turn, hturn⟩ := h
        exact ⟨hsame, hle, turn + 1, hturn⟩
      · obtain ⟨turn, hturn⟩ := hrest p hp
        exact ⟨turn + 1, hturn⟩
    · rw [if_neg hdue]
      refine ⟨[], rfl, .nil, fun p hp => ⟨0, ?_⟩⟩
      cases hp
      exact Nat.lt_of_not_le hdue

theorem writePackets_ne_nil_iff {q : DelayQueue} {timestamp : Nat → Nat} :
    (q.writePackets timestamp).1 ≠ [] ↔ ∃ front rest, q.packetQueue = front :: rest ∧ front.1 ≤ timestamp 0 := by
  unfold writePackets
  dsimp only
  cases hq : q.packetQueue with
  | nil => simp [writeLoop]
  | cons front rest =>
    unfold writeLoop
    by_cases hdue : front.1 ≤ timestamp 0
    · rw [if_pos hdue]
      exact ⟨fun _ => ⟨front, rest, rfl, hdue⟩, fun _ => List.cons_ne_nil _ _⟩
    · rw [if_neg hdue]
      constructor
      · intro h
        exact absurd rfl h
      · rintro ⟨front', rest', heq, hle⟩
        cases heq
        exact absurd hle hdue

/-- How long the loop is told to wait, as long as no packet is held for longer than the delay. -/
theorem waitTime_cases {q : DelayQueue} {d now : Nat} (hd : d < 2 ^ 31) (hq : ∀ p ∈ q.packetQueue, p.1 ≤ now + d) :
    q.packetQueue = [] ∧ q.waitTime now = 2 ^ 16 - 1 ∨
    ∃ front rest, q.packetQueue = front :: rest ∧
      (front.1 ≤ now ∧ q.waitTime now = 0 ∨ now < front.1 ∧ q.waitTime now = front.1 - now) := by
  unfold waitTime
  cases hqueue : q.packetQueue with
  | nil => exact Or.inl ⟨rfl, rfl⟩
  | cons front rest =>
    refine Or.inr ⟨front, rest, rfl, ?_⟩
    dsimp only
    by_cases hdue : front.1 ≤ now
    · rw [if_pos hdue]
      exact Or.inl ⟨hdue, rfl⟩
    · rw [if_neg hdue]
      have hle := hq front (by rw [hqueue]; exact List.mem_cons_self ..)
      refine Or.inr ⟨Nat.lt_of_not_le hdue, ?_⟩
      unfold u32 sub64
      omega

theorem pendingOutput_iff {q : DelayQueue} {d now : Nat} (hd : d < 2 ^ 31) (hq : ∀ p ∈ q.packetQueue, p.1 ≤ now + d) :
    q.pendingOutput now = true ↔ ∃ front rest, q.packetQueue = front :: rest ∧ front.1 ≤ now := by
  unfold pendingOutput
  rw [decide_eq_true_eq]
  rcases waitTime_cases hd hq with ⟨hempty, hwait⟩ | ⟨front, rest, hqueue, hcases⟩
  · rw [hwait, hempty]
    exact ⟨fun h => absurd h (by decide), fun ⟨_, _, h, _⟩ => (by cases h)⟩
  · rw [hqueue]
    constructor
    · intro h
      rcases hcases with ⟨hdue, -⟩ | ⟨hlater, hwait⟩
      · exact ⟨front, rest, rfl, hdue⟩
      · omega
    · rintro ⟨_, _, heq, hdue⟩
      cases heq
      rcases hcases with ⟨-, hwait⟩ | ⟨hlater, -⟩
      · exact le_of_eq hwait
      · omega

theorem readPacket_packetQueue {q : DelayQueue} {t : Nat} (contents : Bytes) (hd : q.delayMs < 2 ^ 31)
    (ht : t + 2 ^ 31 ≤ 2 ^ 64) :
    (q.readPacket t contents).packetQueue = q.packetQueue ++ [due q.delayMs (t, contents)] := by
  unfold readPacket due
  dsimp only
  rw [u64_eq (by omega)]

end DelayQueue

theorem DelayQueue.throws : QueueThrows Fault.Broken DelayQueue := ⟨fun _ _ _ => Run.throws_ok _, fun _ _ => Run.throws_ok _⟩

/-- A `DelayQueue` holds each packet back for its delay at least. -/
theorem DelayQueue.line {d : Nat} (hd : d < 2 ^ 31) : Line (fun a b => a = b) d (DelayQueue.Holding d) where
  read {q q' l r contents} hq hwrap _ hread := by
    obtain ⟨hdelay, rfl⟩ := hq
    cases hread
    have hfirst := r.le_last 0
    have hqueue := DelayQueue.readPacket_packetQueue contents (hdelay ▸ hd)
      (show r.first + 2 ^ 31 ≤ 2 ^ 64 by unfold Readings.first; omega)
    rw [hdelay] at hqueue
    refine ⟨_, ⟨hdelay, hqueue⟩, part_refl (fun _ => ⟨rfl, rfl⟩) _⟩
  wait {q q' l r w} hq hwait := by
    cases hwait
    exact ⟨l, hq, part_refl (fun _ => ⟨rfl, rfl⟩) _⟩
  write {q l} r hq _ := by
    obtain ⟨hdelay, rfl⟩ := hq
    obtain ⟨gone, hl, hout, -⟩ := DelayQueue.writeLoop_spec r.reading q.packetQueue
    refine ⟨gone, _, ⟨hdelay, rfl⟩, ?_, hout.imp fun o g h => ?_⟩
    · show Kept _ (gone ++ (DelayQueue.writeLoop r.reading q.packetQueue).2) _
      rw [← hl]
      exact part_refl (fun _ => ⟨rfl, rfl⟩) _
    · obtain ⟨hsame, hle, turn, hturn⟩ := h
      exact ⟨hsame, hle, hturn ▸ r.le_last turn⟩
  pending {q l r} hq hl hpending := by
    obtain ⟨hdelay, rfl⟩ := hq
    obtain ⟨front, rest, hqueue, hdue⟩ := (DelayQueue.pendingOutput_iff hd hl).1 hpending
    exact fun r' hle => DelayQueue.writePackets_ne_nil_iff.2 ⟨front, rest, hqueue, hdue.trans hle⟩
  stays {q q' r now contents} hready hread := by
    cases hread
    intro r' hle
    obtain ⟨front, rest, hqueue, hdue⟩ := DelayQueue.writePackets_ne_nil_iff.1 (hready r' hle)
    refine DelayQueue.writePackets_ne_nil_iff.2 ⟨front, rest ++ [(u64 (r.first + q.delayMs), contents)], ?_, hdue⟩
    unfold DelayQueue.readPacket
    dsimp only
    rw [hqueue, List.cons_append]

/-! ## How late a packet leaves -/

/-- The machine is quick: the next turn begins soon after the last one, the sibling can be written to when the
queue asks for that, `::poll` wakes up when the wait is over, and what comes after that is soon done. -/
structure Round.Prompt (slack last : Nat) (q : DelayQueue) (r : Round) : Prop where
  begins : r.waited.first ≤ last + slack
  writable : q.pendingOutput r.asked.first = true → r.Writable
  wakes : r.written.last ≤ r.waited.first + q.waitTime r.waited.first + slack
  ends : r.written.last ≤ r.read.first + slack

/-- The same, for all turns of a loop. -/
def Round.AllPrompt (slack : Nat) : Nat → Ferry DelayQueue → List Round → Prop
  | _, _, [] => True
  | last, f, r :: rs => r.Prompt slack last f.queue ∧ ∀ result f', f.turn r = .ok (result, f') → AllPrompt slack r.written.last f' rs

/-- A packet that has left at the right time, up to three times the slack. -/
def LeftOnTime (d slack : Nat) (o i : Nat × Bytes) : Prop := o.2 = i.2 ∧ i.1 + d ≤ o.1 ∧ o.1 ≤ i.1 + d + 3 * slack

/-- Up to the time given nothing was lost, and what is still held is not late. -/
structure OnTime (d slack now : Nat) (f : Ferry DelayQueue) : Prop where
  delay : f.queue.delayMs = d
  held : ∃ got waiting, f.received = got ++ waiting ∧ List.Forall₂ (LeftOnTime d slack) f.sent got ∧
    f.queue.packetQueue = waiting.map (due d) ∧ ∀ p ∈ waiting, now ≤ p.1 + d + slack
  past : ∀ p ∈ f.received, p.1 ≤ now
  inOrder : f.received.Pairwise fun p p' => p.1 ≤ p'.1

/-- When a turn is over, what was held is not later than the slack allows, unless the loop did not sleep. -/
theorem Round.Prompt.over {d slack now : Nat} {q : DelayQueue} {r : Round} {waiting : List (Nat × Bytes)}
    (hp : r.Prompt slack now q) (hd : d < 2 ^ 31) (hqueue : q.packetQueue = waiting.map (due d))
    (hpast : ∀ p ∈ waiting, p.1 ≤ now) (horder : waiting.Pairwise fun p p' => p.1 ≤ p'.1) (hle : now ≤ r.waited.first) :
    (∃ front rest, q.packetQueue = front :: rest ∧ front.1 ≤ r.waited.first ∧ r.written.last ≤ r.waited.first + slack) ∨
    ∀ p ∈ waiting, r.written.last ≤ p.1 + d + slack := by
  have hbound : ∀ p ∈ q.packetQueue, p.1 ≤ r.waited.first + d := by
    intro p hp
    rw [hqueue] at hp
    obtain ⟨i, hi, rfl⟩ := List.mem_map.1 hp
    have := hpast i hi
    unfold due
    omega
  have hwakes := hp.wakes
  rcases DelayQueue.waitTime_cases hd hbound with ⟨hempty, -⟩ | ⟨front, rest, hcons, ⟨hdue, hwait⟩ | ⟨hlater, hwait⟩⟩
  · rw [hqueue, List.map_eq_nil_iff] at hempty
    rw [hempty]
    exact Or.inr fun p hp => absurd hp List.not_mem_nil
  · exact Or.inl ⟨front, rest, hcons, hdue, by omega⟩
  · obtain ⟨i, is, rfl, rfl, -⟩ := List.map_eq_cons_iff.1 (hqueue.symm.trans hcons)
    unfold due at hlater hwait
    refine Or.inr fun p hmem => ?_
    have hfirst : i.1 ≤ p.1 := by
      rcases List.mem_cons.1 hmem with rfl | hmem
      · exact le_rfl
      · exact List.rel_of_pairwise_cons horder hmem
    omega

/-- A `write_packets` that comes soon before the end of the turn leaves nothing late, and lets nothing out too
late. -/
theorem DelayQueue.writePackets_onTime {d slack : Nat} {q : DelayQueue} {r : Readings} {waiting : List (Nat × Bytes)}
    (hqueue : q.packetQueue = waiting.map (due d)) (horder : waiting.Pairwise fun p p' => p.1 ≤ p'.1)
    (hsoon : r.last ≤ r.first + slack) (hlate : ∀ p ∈ waiting, r.last ≤ p.1 + d + 3 * slack) :
    ∃ gone rest, waiting = gone ++ rest ∧ List.Forall₂ (LeftOnTime d slack) (q.writePackets r.reading).1 gone ∧
      (q.writePackets r.reading).2.packetQueue = rest.map (due d) ∧ ∀ p ∈ rest, r.last ≤ p.1 + d + slack := by
  obtain ⟨out, hsplit, hout, hrest⟩ := writeLoop_spec r.reading q.packetQueue
  rw [hqueue] at hsplit
  obtain ⟨gone, rest, rfl, rfl, hleft⟩ := List.map_eq_append_iff.1 hsplit
  refine ⟨gone, rest, rfl, ?_, ?_, fun p hp => ?_⟩
  · unfold writePackets
    dsimp only
    rw [List.forall₂_map_right_iff, List.forall₂_iff_zip] at hout
    refine List.forall₂_iff_zip.2 ⟨hout.1, fun {o i} hmem => ?_⟩
    obtain ⟨hsame, hdue, turn, hturn⟩ := hout.2 hmem
    have hlast := r.le_last turn
    have hend := hlate i (List.mem_append_left _ (List.of_mem_zip hmem).2)
    exact ⟨hsame, hdue, by omega⟩
  · unfold writePackets
    dsimp only
    rw [hqueue, ← hleft]
  · cases rest with
    | nil => exact absurd hp List.not_mem_nil
    | cons front rest =>
      rw [hqueue, ← hleft] at hrest
      obtain ⟨turn, hturn⟩ := hrest (due d front) rfl
      have hfirst : r.first ≤ r.reading turn := r.monotone (Nat.zero_le turn)
      have hle : front.1 ≤ p.1 := by
        rcases List.mem_cons.1 hp with rfl | hp
        · exact le_rfl
        · exact List.rel_of_pairwise_cons (List.pairwise_append.1 horder).2.1 hp
      unfold due at hturn
      omega

theorem OnTime.turn {d slack now : Nat} {f f' : Ferry DelayQueue} {r : Round} {result : Poller.Result} (h : OnTime d slack now f)
    (hd : d < 2 ^ 31) (ht : r.Timed now) (hp : r.Prompt slack now f.queue) (hturn : f.turn r = .ok (result, f'))
    (hgoes : ∀ status, result ≠ .exit status) : OnTime d slack r.written.last f' := by
  obtain ⟨w, queue, got, read, hwait, hturned⟩ := turn_turned hturn hgoes
  cases hwait
  obtain ⟨left, waiting, hreceived, hsent, hqueue, hheld⟩ := h.held
  have hfirst : now ≤ r.read.first :=
    ht.waited.trans ((r.waited.le_last 0).trans (ht.asked.trans ((r.asked.le_last 0).trans ht.read)))
  have hlast : r.read.first ≤ r.written.first := (r.read.le_last 0).trans ht.written
  have hend : r.written.first ≤ r.written.last := r.written.le_last 0
  have hwrap := ht.wrap
  have hbegins := hp.begins
  have hends := hp.ends
  have hdelay := h.delay
  -- what has been read
  have hgot : ∀ p ∈ got, p.1 = r.read.first := by
    rcases hturned.reads with ⟨rfl, -⟩ | ⟨rfl, -⟩
    · exact fun p hp => absurd hp List.not_mem_nil
    · exact fun p hp => by rw [List.mem_singleton.1 hp]
  have hread : read.delayMs = d ∧ read.packetQueue = (waiting ++ got).map (due d) := by
    rcases hturned.reads with ⟨rfl, rfl⟩ | ⟨rfl, hread⟩
    · exact ⟨hdelay, by rw [List.append_nil, hqueue]⟩
    · cases hread
      refine ⟨hdelay, ?_⟩
      rw [DelayQueue.readPacket_packetQueue _ (by omega) (by omega), hqueue, hdelay, List.map_append]
      rfl
  have hpast : ∀ p ∈ f.received ++ got, p.1 ≤ r.read.first := by
    intro p hp
    rcases List.mem_append.1 hp with hp | hp
    · exact (h.past p hp).trans hfirst
    · exact le_of_eq (hgot p hp)
  have horder : (f.received ++ got).Pairwise fun p p' => p.1 ≤ p'.1 := by
    refine List.pairwise_append.2 ⟨h.inOrder, ?_, fun p hp p' hp' => ?_⟩
    · rcases hturned.reads with ⟨rfl, -⟩ | ⟨rfl, -⟩
      · exact List.Pairwise.nil
      · exact List.pairwise_singleton _ _
    · rw [hgot p' hp']
      exact (h.past p hp).trans hfirst
  have hwaiting : (waiting ++ got).Pairwise fun p p' => p.1 ≤ p'.1 := by
    rw [hreceived, List.append_assoc] at horder
    exact (List.pairwise_append.1 horder).2.1
  -- nothing that was read is late yet
  have hgotLate : ∀ p ∈ got, r.written.last ≤ p.1 + d + slack := fun p hp => by rw [hgot p hp]; omega
  have hover := hp.over hd hqueue (fun p hp => h.past p (by rw [hreceived]; exact List.mem_append_right _ hp))
    (List.pairwise_append.1 hwaiting).1 ht.waited
  have hlate : ∀ p ∈ waiting ++ got, r.written.last ≤ p.1 + d + 3 * slack := by
    intro p hmem
    rcases List.mem_append.1 hmem with hmem | hmem
    · rcases hover with ⟨-, -, -, -, hquick⟩ | hover
      · have := hheld p hmem
        omega
      · have := hover p hmem
        omega
    · have := hgotLate p hmem
      omega
  have hasked : ∀ p ∈ f.queue.packetQueue, p.1 ≤ r.asked.first + d := by
    intro p hmem
    rw [hqueue] at hmem
    obtain ⟨i, hi, rfl⟩ := List.mem_map.1 hmem
    have hi := h.past i (by rw [hreceived]; exact List.mem_append_right _ hi)
    have := ht.waited.trans ((r.waited.le_last 0).trans ht.asked)
    unfold due
    dsimp only
    omega
  have hafter : f'.queue.delayMs = d ∧ ∃ got' waiting', f'.received = got' ++ waiting' ∧
      List.Forall₂ (LeftOnTime d slack) f'.sent got' ∧ f'.queue.packetQueue = waiting'.map (due d) ∧
      ∀ p ∈ waiting', r.written.last ≤ p.1 + d + slack := by
    rw [hturned.received, hreceived, List.append_assoc]
    by_cases hpending : f.queue.pendingOutput r.asked.first = true
    · -- what is due is written
      obtain ⟨hqueue', hsent'⟩ := hturned.wrote (by decide) hpending (hp.writable hpending)
      obtain ⟨gone, rest, hsplit, hout, hrest, hleft⟩ := DelayQueue.writePackets_onTime hread.2 hwaiting (by omega) hlate
      rw [hqueue', hsent', hsplit]
      exact ⟨hread.1, left ++ gone, rest, (List.append_assoc _ _ _).symm, List.rel_append hsent hout, hrest, hleft⟩
    · -- nothing was due when the loop looked, so it slept until something was
      rw [Bool.not_eq_true] at hpending
      obtain ⟨hqueue', hsent'⟩ := hturned.kept (by decide) hpending
      rw [hqueue', hsent']
      refine ⟨hread.1, left, waiting ++ got, rfl, hsent, hread.2, fun p hmem => ?_⟩
      rcases List.mem_append.1 hmem with hmem | hmem
      · rcases hover with ⟨front, rest, hcons, hdue, -⟩ | hover
        · have hstill : front.1 ≤ r.asked.first := hdue.trans ((r.waited.le_last 0).trans ht.asked)
          rw [(DelayQueue.pendingOutput_iff hd hasked).2 ⟨front, rest, hcons, hstill⟩] at hpending
          cases hpending
        · exact hover p hmem
      · exact hgotLate p hmem
  refine ⟨hafter.1, hafter.2, fun p hmem => ?_, ?_⟩
  · rw [hturned.received] at hmem
    exact (hpast p hmem).trans (hlast.trans hend)
  · rw [hturned.received]
    exact horder

theorem OnTime.loop {d slack : Nat} (hd : d < 2 ^ 31) : ∀ {rs : List Round} {now : Nat} {f f' : Ferry DelayQueue}, OnTime d slack now f →
    Round.AllTimed now rs → Round.AllPrompt slack now f rs → f.loop rs = .ok (none, f') → OnTime d slack (Round.finish now rs) f'
  | [], _, _, _, h, _, _, hloop => by
    cases hloop
    exact h
  | r :: rs, now, f, f', h, ⟨ht, hts⟩, ⟨hp, hps⟩, hloop => by
    obtain ⟨result, f₁, hturn, hgoes, hloop⟩ := Ferry.loop_cons_none hloop
    have hnext := h.turn hd ht hp hturn hgoes
    show OnTime d slack (Round.finish r.written.last rs) f'
    exact OnTime.loop hd hnext hts (hps result f₁ hturn) hloop

def Ferry.delaying (d : Nat) : Ferry DelayQueue := { queue := { delayMs := d } }

/-- As long as the loop of `mm-delay` goes on, every packet that came in leaves in its turn, as it was, no
earlier than its delay says and no later than that and three times the slack; and when a turn is over no packet
is still there that should have left before the slack. -/
theorem delay_ferry_on_time {d slack start : Nat} {rs : List Round} {f : Ferry DelayQueue} (hd : d < 2 ^ 31)
    (ht : Round.AllTimed start rs) (hp : Round.AllPrompt slack start (Ferry.delaying d) rs)
    (hloop : (Ferry.delaying d).loop rs = .ok (none, f)) :
    ∃ got waiting, f.received = got ++ waiting ∧ List.Forall₂ (LeftOnTime d slack) f.sent got ∧
      ∀ p ∈ waiting, Round.finish start rs ≤ p.1 + d + slack := by
  have hstart : OnTime d slack start (Ferry.delaying d) :=
    ⟨rfl, ⟨[], [], rfl, .nil, rfl, fun p hp => absurd hp List.not_mem_nil⟩, fun p hp => absurd hp List.not_mem_nil, .nil⟩
  obtain ⟨got, waiting, hreceived, hsent, -, hlate⟩ := (hstart.loop hd ht hp hloop).held
  exact ⟨got, waiting, hreceived, hsent, hlate⟩

/-- A turn on a clock that moves in `::poll` only, between the times given. -/
def quickRound (kernel : Poller.Kernel) (packet : Bytes) (asked now : Nat) : Round :=
  { waited := .const asked, kernel := kernel, asked := .const asked, packet := packet, read := .const now, written := .const now, signal := .cont }

theorem quickRound_timed {kernel : Poller.Kernel} {packet : Bytes} {start asked now : Nat} (hstart : start ≤ asked) (hnow : asked ≤ now)
    (hwrap : now + 2 ^ 31 ≤ 2 ^ 64) (hpacket : packet ≠ []) : (quickRound kernel packet asked now).Timed start :=
  ⟨hstart, le_rfl, hnow, le_rfl, hwrap, hpacket⟩

theorem allPrompt_cons {slack last : Nat} {f f' : Ferry DelayQueue} {r : Round} {rs : List Round} {result : Poller.Result}
    (hturn : f.turn r = .ok (result, f')) (hp : r.Prompt slack last f.queue) (hps : Round.AllPrompt slack r.written.last f' rs) :
    Round.AllPrompt slack last f (r :: rs) := by
  refine ⟨hp, fun result' f'' hturn' => ?_⟩
  cases hturn.symm.trans hturn'
  exact hps

/-- What `::poll` says: there is a packet to be read, the sibling can be written to. -/
def polled (input output : Bool) : Poller.Kernel := .ready fun i => { input := input && i = 0, output := output && i = 1 }

theorem polled_writable {input : Bool} {packet : Bytes} {asked now : Nat} : (quickRound (polled input true) packet asked now).Writable :=
  ⟨_, rfl, rfl⟩

/-- A datagram, behind the header of a TUN device. -/
def datagram (number ttl checksum checksum' source : UInt8) : Bytes :=
  [0, 0, 8, 0] ++ [69, 0, 0, 29, 0, number, 64, 0, ttl, 17, checksum, checksum', 100, 64, 0, source, 8, 8, 8, 8] ++
    [31, 144, 0, 53, 0, 9, 0, 0] ++ [number]

def firstDatagram : Bytes := datagram 1 64 198 125 2

def secondDatagram : Bytes := datagram 2 64 198 124 2

def thirdDatagram : Bytes := datagram 3 64 198 123 2

/-- Three packets come in, the third in the turn in which the first goes out; the loop sleeps in between. -/
def quickRounds : List Round :=
  [quickRound (polled true false) firstDatagram 100 100, quickRound (polled true false) secondDatagram 101 103, quickRound .timeout thirdDatagram 104 110,
    quickRound (polled true true) thirdDatagram 110 111, quickRound .timeout firstDatagram 112 113, quickRound (polled false true) firstDatagram 113 114,
    quickRound .timeout firstDatagram 114 121, quickRound (polled false true) firstDatagram 121 122]

theorem quickRounds_timed : Round.AllTimed 100 quickRounds := by
  refine ⟨?_, ?_, ?_, ?_, ?_, ?_, ?_, ?_, trivial⟩ <;> exact quickRound_timed (by decide) (by decide) (by decide) (by decide)

theorem quickRounds_prompt : Round.AllPrompt 1 100 (Ferry.delaying 10) quickRounds :=
  allPrompt_cons rfl ⟨by decide, nofun, by decide, by decide⟩ <|
  allPrompt_cons rfl ⟨by decide, nofun, by decide, by decide⟩ <|
  allPrompt_cons rfl ⟨by decide, nofun, by decide, by decide⟩ <|
  allPrompt_cons rfl ⟨by decide, fun _ => polled_writable, by decide, by decide⟩ <|
  allPrompt_cons rfl ⟨by decide, nofun, by decide, by decide⟩ <|
  allPrompt_cons rfl ⟨by decide, fun _ => polled_writable, by decide, by decide⟩ <|
  allPrompt_cons rfl ⟨by decide, nofun, by decide, by decide⟩ <|
  allPrompt_cons rfl ⟨by decide, fun _ => polled_writable, by decide, by decide⟩ trivial

theorem delay_ferry_on_time_quick : ∃ f, (Ferry.delaying 10).loop quickRounds = .ok (none, f) ∧
    f.received = [(100, firstDatagram), (103, secondDatagram), (111, thirdDatagram)] ∧ f.sent = [(111, firstDatagram), (114, secondDatagram), (122, thirdDatagram)] ∧
    ∃ got waiting, f.received = got ++ waiting ∧ List.Forall₂ (LeftOnTime 10 1) f.sent got ∧
      ∀ p ∈ waiting, Round.finish 100 quickRounds ≤ p.1 + 10 + 1 :=
  ⟨_, rfl, rfl, rfl, delay_ferry_on_time (by decide) quickRounds_timed quickRounds_prompt rfl⟩

end AbcMahimahi.Frontend
