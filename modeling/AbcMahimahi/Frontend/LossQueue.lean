/-
The queues of `mm-loss`, `mm-onoff` (loss_queue.cc) and `mm-meter` (meter_queue.cc). What they let through
they write at once and in order. `IIDLoss` draws for each packet. `SwitchingLink` draws how long it stays on
or off: when it switches is thereby fixed from the start, however often the loop around it looks.
-/
import AbcMahimahi.Lib.Timeline
import AbcMahimahi.Frontend.Ferry

namespace AbcMahimahi.Frontend

open Bytes LossyLine

/-- `LossQueue`, but for what its `drop_packet` says. -/
structure LossQueue where
  packetQueue : List Bytes := []
  deriving DecidableEq

namespace LossQueue

def readPacket (q : LossQueue) (dropPacket : Bool) (contents : Bytes) : LossQueue :=
  if !dropPacket then { q with packetQueue := q.packetQueue ++ [contents] } else q

def writePackets (q : LossQueue) (r : Readings) : List (Nat × Bytes) × LossQueue :=
  (stamp r q.packetQueue, { q with packetQueue := [] })

def waitTime (q : LossQueue) : Nat := if q.packetQueue.isEmpty then 2 ^ 16 - 1 else 0

def pendingOutput (q : LossQueue) : Bool := !q.packetQueue.isEmpty

end LossQueue

/-- `MeterQueue`, without the graph. -/
structure MeterQueue where
  base : LossQueue := {}

instance : FerryQueue MeterQueue where
  readPacket q _ contents := pure ⟨q.base.readPacket false contents⟩
  writePackets q r := ((q.base.writePackets r).1, ⟨(q.base.writePackets r).2⟩)
  waitTime q _ := pure (q.base.waitTime, q)
  pendingOutput q _ := q.base.pendingOutput
  finished _ := false

/-- `IIDLoss`, with what its `drop_dist_` draws one after the other. -/
structure IIDLoss where
  base : LossQueue := {}
  dropDist : Nat → Bool
  drawn : Nat := 0

namespace IIDLoss

def dropPacket (q : IIDLoss) : Bool × IIDLoss := (q.dropDist q.drawn, { q with drawn := q.drawn + 1 })

def readPacket (q : IIDLoss) (contents : Bytes) : IIDLoss :=
  let (drop, q) := q.dropPacket
  { q with base := q.base.readPacket drop contents }

instance : FerryQueue IIDLoss where
  readPacket q _ contents := pure (q.readPacket contents)
  writePackets q r := ((q.base.writePackets r).1, { q with base := (q.base.writePackets r).2 })
  waitTime q _ := pure (q.base.waitTime, q)
  pendingOutput q _ := q.base.pendingOutput
  finished _ := false

end IIDLoss

/-- What an exponential distribution draws; infinity, where its mean is. -/
inductive Drawn where
  | finite (x : ℚ)
  | infinite

/-- `bound`. -/
def bound : Drawn → Nat
  | .finite x => if x > 2 ^ 30 then 2 ^ 30 else x.floor.toNat
  | .infinite => 2 ^ 30

theorem bound_le (x : Drawn) : bound x ≤ 2 ^ 30 := by
  cases x with
  | finite x =>
    unfold bound
    dsimp only
    by_cases h : x > 2 ^ 30
    · rw [if_pos h]
    · rw [if_neg h]
      have hfloor : (x.floor : ℚ) ≤ 2 ^ 30 := (Rat.floor_le x).trans (not_lt.1 h)
      have hint : x.floor ≤ 2 ^ 30 := by exact_mod_cast hfloor
      omega
  | infinite => exact le_rfl

/-- What the two processes draw: the draw after the `n`-th switch. It is one of `off_process_` where that
switch turned the link on, and one of `on_process_` where it turned it off. The draws do not stop to add up. -/
structure Process where
  draw : Nat → Drawn
  unbounded : ∀ t, ∃ n, t < Timeline.ofGaps 0 (fun n => bound (draw n)) n

namespace Process

def length (p : Process) (n : Nat) : Nat := bound (p.draw n)

/-- When a link switches that was made at the time given. -/
def timeline (p : Process) (start : Nat) : Timeline where
  instant := Timeline.ofGaps start p.length
  monotone := Timeline.ofGaps_monotone start p.length
  unbounded t := by
    obtain ⟨n, hn⟩ := p.unbounded t
    refine ⟨n, hn.trans_le ?_⟩
    rw [Timeline.ofGaps_eq start]
    exact Nat.le_add_left _ _

/-- Whether such a link is on, where it was looked at last at the time given. -/
def isOn (p : Process) (start : Nat) : Option Nat → Bool
  | none => false
  | some t => decide ((p.timeline start).passed t % 2 = 1)

end Process

/-- `SwitchingLink`. -/
structure SwitchingLink where
  base : LossQueue := {}
  linkIsOn : Bool := false
  process : Process
  drawn : Nat := 0
  nextSwitchTime : Nat

namespace SwitchingLink

def switch (q : SwitchingLink) : SwitchingLink :=
  { q with
    linkIsOn := !q.linkIsOn
    drawn := q.drawn + 1
    nextSwitchTime := u64 (q.nextSwitchTime + bound (q.process.draw q.drawn)) }

/-- The loop of `wait_time`. -/
def switchLoop (now : Nat) : Nat → SwitchingLink → Except Fault SwitchingLink
  | 0, q => if q.nextSwitchTime ≤ now then throw .endless else pure q
  | turns + 1, q => if q.nextSwitchTime ≤ now then switchLoop now turns q.switch else pure q

/-- After so many switches the draws alone are more than the clock. -/
def turns (q : SwitchingLink) (now : Nat) : Nat :=
  Nat.find (q.process.unbounded (Timeline.ofGaps 0 q.process.length q.drawn + now))

def waitTime (q : SwitchingLink) (now : Nat) : Except Fault (Nat × SwitchingLink) := do
  let q ← switchLoop now (q.turns now) q
  let wait :=
    if q.base.waitTime = 0 then 0
    else if sub64 q.nextSwitchTime now > 2 ^ 16 - 1 then 2 ^ 16 - 1
    else sub64 q.nextSwitchTime now
  pure (wait, q)

def dropPacket (q : SwitchingLink) : Bool := !q.linkIsOn

def readPacket (q : SwitchingLink) (contents : Bytes) : SwitchingLink :=
  { q with base := q.base.readPacket q.dropPacket contents }

def writePackets (q : SwitchingLink) (r : Readings) : List (Nat × Bytes) × SwitchingLink :=
  ((q.base.writePackets r).1, { q with base := (q.base.writePackets r).2 })

instance : FerryQueue SwitchingLink where
  readPacket q _ contents := pure (q.readPacket contents)
  writePackets q r := q.writePackets r
  waitTime q r := q.waitTime r.first
  pendingOutput q _ := q.base.pendingOutput
  finished _ := false

/-! ## The switches -/

/-- The link is where its switches have got it. -/
structure InStep (start : Nat) (q : SwitchingLink) : Prop where
  next : q.nextSwitchTime = (q.process.timeline start).instant q.drawn
  on : q.linkIsOn = decide (q.drawn % 2 = 1)
  word : q.nextSwitchTime < 2 ^ 64

theorem InStep.switch {start now : Nat} {q : SwitchingLink} (h : InStep start q) (hle : q.nextSwitchTime ≤ now)
    (hwrap : now + 2 ^ 31 ≤ 2 ^ 64) : InStep start q.switch := by
  have hbound := bound_le (q.process.draw q.drawn)
  refine ⟨?_, ?_, Nat.mod_lt _ (by decide)⟩
  · unfold SwitchingLink.switch
    dsimp only
    rw [u64_eq (by omega), h.next]
    rfl
  · unfold SwitchingLink.switch
    dsimp only
    rw [h.on, ← decide_not]
    exact decide_eq_decide.2 (by omega)

/-- The loop ends with the switches that have passed, and with those only. -/
theorem switchLoop_spec {start now : Nat} (hwrap : now + 2 ^ 31 ≤ 2 ^ 64) : ∀ {turns : Nat} {q : SwitchingLink}, InStep start q →
    (∀ m < q.drawn, (q.process.timeline start).instant m ≤ now) → now < (q.process.timeline start).instant (q.drawn + turns) →
    ∃ q', switchLoop now turns q = .ok q' ∧ InStep start q' ∧ q'.drawn = (q.process.timeline start).passed now ∧
      q'.process = q.process ∧ q'.base = q.base
  | turns, q, h, hpast, hturns => by
    by_cases hle : q.nextSwitchTime ≤ now
    · have hdue : (q.process.timeline start).instant q.drawn ≤ now := h.next ▸ hle
      cases turns with
      | zero => exact absurd hdue (Nat.not_le_of_lt hturns)
      | succ turns =>
        have hpast' : ∀ m < q.switch.drawn, (q.switch.process.timeline start).instant m ≤ now := by
          intro m hm
          rcases Nat.lt_succ_iff_lt_or_eq.1 hm with hm | rfl
          · exact hpast m hm
          · exact hdue
        rw [Nat.add_comm turns 1, ← Nat.add_assoc] at hturns
        unfold switchLoop
        rw [if_pos hle]
        exact switchLoop_spec hwrap (h.switch hle hwrap) hpast' hturns
    · have hlater : now < (q.process.timeline start).instant q.drawn := h.next ▸ Nat.lt_of_not_le hle
      refine ⟨q, ?_, h, (Timeline.passed_eq hpast hlater).symm, rfl, rfl⟩
      cases turns with
      | zero =>
        unfold switchLoop
        rw [if_neg hle]
        rfl
      | succ turns =>
        unfold switchLoop
        rw [if_neg hle]
        rfl

theorem turns_spec {start now : Nat} (q : SwitchingLink) : now < (q.process.timeline start).instant (q.drawn + q.turns now) := by
  have hfind : Timeline.ofGaps 0 q.process.length q.drawn + now < Timeline.ofGaps 0 q.process.length (q.turns now) :=
    Nat.find_spec (q.process.unbounded (Timeline.ofGaps 0 q.process.length q.drawn + now))
  have hmono := Timeline.ofGaps_monotone 0 q.process.length (Nat.le_add_left (q.turns now) q.drawn)
  have heq := Timeline.ofGaps_eq start q.process.length (q.drawn + q.turns now)
  show now < Timeline.ofGaps start q.process.length (q.drawn + q.turns now)
  omega

/-- What `wait_time` leaves, and how long it says that the loop may sleep. -/
structure Waited (start now : Nat) (q : SwitchingLink) (w : Nat) (q' : SwitchingLink) : Prop where
  inStep : InStep start q'
  drawn : q'.drawn = (q.process.timeline start).passed now
  process : q'.process = q.process
  base : q'.base = q.base
  /-- Nothing switches in the meantime. -/
  wait : q'.base.packetQueue = [] → 1 ≤ w ∧ w < 2 ^ 16 ∧ now + w ≤ (q.process.timeline start).instant q'.drawn

theorem waitTime_spec {start now : Nat} {q : SwitchingLink} (h : InStep start q)
    (hpast : ∀ m < q.drawn, (q.process.timeline start).instant m ≤ now) (hwrap : now + 2 ^ 31 ≤ 2 ^ 64) :
    ∃ w q', q.waitTime now = .ok (w, q') ∧ Waited start now q w q' := by
  obtain ⟨q', hloop, hstep, hdrawn, hprocess, hbase⟩ := switchLoop_spec hwrap h hpast (turns_spec q)
  unfold waitTime
  rw [hloop]
  refine ⟨_, q', rfl, hstep, hdrawn, hprocess, hbase, fun hempty => ?_⟩
  have hnext : q'.nextSwitchTime = (q.process.timeline start).instant q'.drawn := hprocess ▸ hstep.next
  have hlater : now < q'.nextSwitchTime := by
    rw [hnext, hdrawn]
    exact Timeline.lt_instant_passed _ _
  have hwait : q'.base.waitTime = 2 ^ 16 - 1 := by
    unfold LossQueue.waitTime
    rw [hempty]
    rfl
  rw [hwait, if_neg (by decide), sub64_eq hlater.le hstep.word, ← hnext]
  split <;> omega

/-! ## Any calls in any order -/

/-- What the loop around the link calls, with what the clock reads where the link looks at it. -/
inductive Call where
  | read (contents : Bytes)
  | write (r : Readings)
  | wait (now : Nat)

/-- What a call writes. -/
def step (q : SwitchingLink) : Call → Except Fault (List (Nat × Bytes) × SwitchingLink)
  | .read contents => pure ([], q.readPacket contents)
  | .write r => pure (q.writePackets r)
  | .wait now => do
    let (_, q) ← q.waitTime now
    pure ([], q)

/-- The clock goes on from the time given, and is not about to wrap. -/
def Call.InOrder : Nat → List Call → Prop
  | _, [] => True
  | last, .wait now :: calls => last ≤ now ∧ now + 2 ^ 31 ≤ 2 ^ 64 ∧ InOrder now calls
  | last, _ :: calls => InOrder last calls

/-- When the link was looked at last. -/
def Call.looked : Option Nat → List Call → Option Nat
  | looked, [] => looked
  | _, .wait now :: calls => Call.looked (some now) calls
  | looked, _ :: calls => Call.looked looked calls

/-- The packets read while the link is on, as far as it was looked at. -/
def passes (p : Process) (start : Nat) : Option Nat → List Call → List Bytes
  | _, [] => []
  | looked, .read contents :: calls =>
    if p.isOn start looked then contents :: passes p start looked calls else passes p start looked calls
  | looked, .write _ :: calls => passes p start looked calls
  | _, .wait now :: calls => passes p start (some now) calls

/-- A link that was looked at last at the time given. -/
structure Follows (p : Process) (start : Nat) (looked : Option Nat) (q : SwitchingLink) : Prop where
  inStep : InStep start q
  process : q.process = p
  drawn : q.drawn = (looked.map (p.timeline start).passed).getD 0

theorem Follows.on {p : Process} {start : Nat} {looked : Option Nat} {q : SwitchingLink} (h : Follows p start looked q) :
    q.linkIsOn = p.isOn start looked := by
  rw [h.inStep.on, h.drawn]
  cases looked <;> rfl

theorem Follows.past {p : Process} {start now : Nat} {looked : Option Nat} {q : SwitchingLink} (h : Follows p start looked q)
    (hle : looked.getD start ≤ now) : ∀ m < q.drawn, (q.process.timeline start).instant m ≤ now := by
  intro m hm
  rw [h.drawn] at hm
  rw [h.process]
  cases looked with
  | none => exact absurd hm (Nat.not_lt_zero m)
  | some t => exact (Timeline.instant_le hm).trans hle

theorem stamp_packets (r : Readings) (packets : List Bytes) : (stamp r packets).map Prod.snd = packets := by
  unfold stamp
  rw [List.map_map]
  exact List.zipIdx_map_fst 0 packets

/-- What the calls write, with what is left, is what came in while the link was on. -/
theorem steps_follow {p : Process} {start : Nat} : ∀ {calls : List Call} {looked : Option Nat} {q : SwitchingLink},
    Follows p start looked q → Call.InOrder (looked.getD start) calls →
    ∃ written q', Run.steps step q calls = .ok (written, q') ∧ Follows p start (Call.looked looked calls) q' ∧
      written.flatten.map Prod.snd ++ q'.base.packetQueue = q.base.packetQueue ++ passes p start looked calls
  | [], looked, q, h, _ => ⟨[], q, rfl, h, (List.append_nil _).symm⟩
  | .read contents :: calls, looked, q, h, horder => by
    -- a packet passes if the link was on when it was last looked at
    have hread : Follows p start looked (q.readPacket contents) := ⟨⟨h.inStep.next, h.inStep.on, h.inStep.word⟩, h.process, h.drawn⟩
    have hrest : Call.InOrder (looked.getD start) calls := horder
    obtain ⟨written, q', hrun, hfollows, hkept⟩ := steps_follow hread hrest
    refine ⟨[] :: written, q', Run.steps_cons rfl hrun, hfollows, ?_⟩
    have hpasses : passes p start looked (.read contents :: calls) =
        if p.isOn start looked then contents :: passes p start looked calls else passes p start looked calls := rfl
    rw [List.flatten_cons, List.nil_append, hkept, hpasses]
    unfold readPacket LossQueue.readPacket dropPacket
    rw [h.on]
    cases p.isOn start looked with
    | true => simp
    | false => simp
  | .write r :: calls, looked, q, h, horder => by
    have hwrite : Follows p start looked (q.writePackets r).2 := ⟨⟨h.inStep.next, h.inStep.on, h.inStep.word⟩, h.process, h.drawn⟩
    have hrest : Call.InOrder (looked.getD start) calls := horder
    obtain ⟨written, q', hrun, hfollows, hkept⟩ := steps_follow hwrite hrest
    refine ⟨(q.writePackets r).1 :: written, q', Run.steps_cons rfl hrun, hfollows, ?_⟩
    have hout : (q.writePackets r).1.map Prod.snd = q.base.packetQueue := stamp_packets r _
    rw [List.flatten_cons, List.map_append, List.append_assoc, hkept, hout]
    rfl
  | .wait now :: calls, looked, q, h, ⟨hle, hwrap, horder⟩ => by
    -- the only call that looks at the link
    obtain ⟨w, q₁, hwait, hwaited⟩ := waitTime_spec h.inStep (h.past hle) hwrap
    have hnow : Follows p start (some now) q₁ :=
      ⟨hwaited.inStep, hwaited.process.trans h.process, hwaited.drawn.trans (by rw [h.process]; rfl)⟩
    obtain ⟨written, q', hrun, hfollows, hkept⟩ := steps_follow hnow horder
    refine ⟨[] :: written, q', Run.steps_cons ?_ hrun, hfollows, ?_⟩
    · show (q.waitTime now >>= fun x => pure ([], x.2)) = .ok ([], q₁)
      rw [hwait]
      rfl
    · rw [List.flatten_cons, List.nil_append, hkept, hwaited.base]
      rfl

def ofProcess (p : Process) (start : Nat) : SwitchingLink := { process := p, nextSwitchTime := start }

/-- Whatever is called and in whichever order, the link lets through what comes in while it is on, in order and
nothing else; whether it is on is fixed by the draws and the times at which it was looked at. It never loops
without an end, and when it asks the loop around it to sleep, nothing switches before the loop is to wake up. -/
theorem switching_link_keeps_time (p : Process) (start : Nat) (calls : List Call) (hstart : start < 2 ^ 64)
    (horder : Call.InOrder start calls) :
    ∃ written q', Run.steps step (ofProcess p start) calls = .ok (written, q') ∧
      written.flatten.map Prod.snd ++ q'.base.packetQueue = passes p start none calls ∧
      ∀ now, (Call.looked none calls).getD start ≤ now → now + 2 ^ 31 ≤ 2 ^ 64 →
        ∃ w q'', q'.waitTime now = .ok (w, q'') ∧ (q''.base.packetQueue = [] → 1 ≤ w ∧ w < 2 ^ 16 ∧
          ∀ t, now ≤ t → t < now + w → p.isOn start (some t) = p.isOn start (some now)) := by
  have hinit : Follows p start none (ofProcess p start) := ⟨⟨rfl, rfl, hstart⟩, rfl, rfl⟩
  obtain ⟨written, q', hrun, hfollows, hkept⟩ := steps_follow hinit horder
  refine ⟨written, q', hrun, hkept, fun now hle hwrap => ?_⟩
  obtain ⟨w, q'', hwait, hwaited⟩ := waitTime_spec hfollows.inStep (hfollows.past hle) hwrap
  refine ⟨w, q'', hwait, fun hempty => ?_⟩
  obtain ⟨hpos, hlt, hsleep⟩ := hwaited.wait hempty
  refine ⟨hpos, hlt, fun t hnow ht => ?_⟩
  rw [hwaited.drawn, hfollows.process] at hsleep
  unfold Process.isOn
  dsimp only
  rw [Timeline.passed_stays hnow (ht.trans_le hsleep)]

theorem five_gaps : ∀ n, Timeline.ofGaps 0 (fun _ => bound (.finite 5)) n = 5 * n
  | 0 => rfl
  | n + 1 => by
    have hfive : bound (.finite 5) = 5 := by decide
    unfold Timeline.ofGaps
    rw [five_gaps n, hfive, Nat.mul_succ]

theorem five_unbounded (t : Nat) : ∃ n, t < Timeline.ofGaps 0 (fun _ => bound (.finite 5)) n :=
  ⟨t + 1, by rw [five_gaps]; omega⟩

/-- It is on and off for five milliseconds by turns. -/
def blinking : Process where
  draw _ := .finite 5
  unbounded := five_unbounded

theorem switching_link_keeps_time_blinking : ∃ written q',
    Run.steps step (ofProcess blinking 100) [.wait 101, .read [1], .wait 107, .read [2], .write (.const 108)] = .ok (written, q') ∧
      written.flatten.map Prod.snd ++ q'.base.packetQueue = [[1]] := by
  obtain ⟨written, q', hrun, hkept, -⟩ := switching_link_keeps_time blinking 100
    [.wait 101, .read [1], .wait 107, .read [2], .write (.const 108)] (by decide) ⟨by decide, by decide, by decide, by decide, trivial⟩
  refine ⟨written, q', hrun, hkept.trans ?_⟩
  have hfirst : (blinking.timeline 100).passed 101 = 1 := Timeline.passed_eq (by decide) (by decide)
  have hsecond : (blinking.timeline 100).passed 107 = 2 := Timeline.passed_eq (by decide) (by decide)
  simp [passes, Process.isOn, hfirst, hsecond]

end SwitchingLink

/-! ## As queues of a ferry -/

/-- A queue of a ferry that is a `LossQueue` but for what it drops. -/
structure Wraps {Q : Type} [FerryQueue Q] (base : Q → LossQueue) : Prop where
  read : ∀ {q q' : Q} {r : Readings} {contents : Bytes}, FerryQueue.readPacket q r contents = .ok q' →
    ∃ drop, base q' = (base q).readPacket drop contents
  wait : ∀ {q q' : Q} {r : Readings} {w : Nat}, FerryQueue.waitTime q r = .ok (w, q') → base q' = base q
  write : ∀ (q : Q) (r : Readings), (FerryQueue.writePackets q r).1 = ((base q).writePackets r).1 ∧
    base (FerryQueue.writePackets q r).2 = ((base q).writePackets r).2
  pending : ∀ (q : Q) (r : Readings), FerryQueue.pendingOutput q r = (base q).pendingOutput
  throws : QueueThrows Fault.Broken Q

theorem part_self (l : List Bytes) : List.SublistForall₂ (fun o i => i = o) l l :=
  part_of_forall₂ (List.forall₂_same.2 fun _ _ => rfl)

theorem LossQueue.readPacket_cases (q : LossQueue) (drop : Bool) (contents : Bytes) :
    q.readPacket drop contents = q ∨ (q.readPacket drop contents).packetQueue = q.packetQueue ++ [contents] := by
  cases drop with
  | true => exact Or.inl rfl
  | false => exact Or.inr rfl

theorem LossQueue.writePackets_ne_nil_iff {q : LossQueue} {r : Readings} : (q.writePackets r).1 ≠ [] ↔ q.packetQueue ≠ [] := by
  unfold writePackets stamp
  simp

/-- Such a queue keeps the packets in order, each as it is, and may lose some. -/
theorem Wraps.thins {Q : Type} [FerryQueue Q] {base : Q → LossQueue} (h : Wraps base) :
    Thins (fun a b => a = b) fun q => (base q).packetQueue where
  read {q q' r contents} hread := by
    obtain ⟨drop, hbase⟩ := h.read hread
    rcases (base q).readPacket_cases drop contents with heq | heq
    · rw [hbase, heq]
      exact part_mono (part_self _) (List.Sublist.refl _) (List.sublist_append_left _ _)
    · rw [hbase, heq]
      exact part_self _
  wait hwait := by
    rw [h.wait hwait]
    exact part_self _
  write q r := by
    obtain ⟨hout, hbase⟩ := h.write q r
    refine ⟨(base q).packetQueue, hout, ?_⟩
    rw [hbase, show ((base q).writePackets r).2.packetQueue = [] from rfl, List.append_nil]
    exact part_self _
  pending {q r} hpending r' _ := by
    rw [h.pending] at hpending
    rw [(h.write q r').1]
    exact LossQueue.writePackets_ne_nil_iff.2 (by simpa [LossQueue.pendingOutput] using hpending)
  stays {q q' r now contents} hready hread r' hle := by
    obtain ⟨drop, hbase⟩ := h.read hread
    have hne := hready r' hle
    rw [(h.write q r').1, LossQueue.writePackets_ne_nil_iff] at hne
    rw [(h.write q' r').1, LossQueue.writePackets_ne_nil_iff, hbase]
    rcases (base q).readPacket_cases drop contents with heq | heq
    · rw [heq]
      exact hne
    · rw [heq]
      exact List.append_ne_nil_of_left_ne_nil hne _

theorem MeterQueue.wraps : Wraps MeterQueue.base where
  read hread := by
    cases hread
    exact ⟨false, rfl⟩
  wait hwait := by
    cases hwait
    rfl
  write _ _ := ⟨rfl, rfl⟩
  pending _ _ := rfl
  throws := ⟨fun _ _ _ => Run.throws_ok _, fun _ _ => Run.throws_ok _⟩

theorem IIDLoss.wraps : Wraps IIDLoss.base where
  read {q q' r contents} hread := by
    cases hread
    exact ⟨q.dropDist q.drawn, rfl⟩
  wait hwait := by
    cases hwait
    rfl
  write _ _ := ⟨rfl, rfl⟩
  pending _ _ := rfl
  throws := ⟨fun _ _ _ => Run.throws_ok _, fun _ _ => Run.throws_ok _⟩

theorem SwitchingLink.switchLoop_throws (now : Nat) : ∀ (turns : Nat) (q : SwitchingLink),
    Run.Throws Fault.Broken (switchLoop now turns q)
  | 0, q => by
    unfold switchLoop
    split
    · exact Run.throws_error .endless
    · exact Run.throws_ok _
  | turns + 1, q => by
    unfold switchLoop
    split
    · exact switchLoop_throws now turns q.switch
    · exact Run.throws_ok _

theorem SwitchingLink.switchLoop_base {now : Nat} : ∀ {turns : Nat} {q q' : SwitchingLink}, switchLoop now turns q = .ok q' →
    q'.base = q.base
  | 0, q, q', h => by
    unfold switchLoop at h
    split at h
    · cases h
    · cases h
      rfl
  | turns + 1, q, q', h => by
    unfold switchLoop at h
    split at h
    · exact (switchLoop_base h).trans rfl
    · cases h
      rfl

theorem SwitchingLink.wraps : Wraps SwitchingLink.base where
  read {q q' r contents} hread := by
    cases hread
    exact ⟨q.dropPacket, rfl⟩
  wait {q q' r w} hwait := by
    obtain ⟨q₁, hloop, hwait⟩ := Run.bind_ok hwait
    cases hwait
    exact switchLoop_base hloop
  write _ _ := ⟨rfl, rfl⟩
  pending _ _ := rfl
  throws := ⟨fun _ _ _ => Run.throws_ok _, fun q r => (switchLoop_throws r.first _ q).bind fun _ _ => Run.throws_ok _⟩

end AbcMahimahi.Frontend
