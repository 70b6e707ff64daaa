/-
PIE with a timer: the drop probability is updated in the millisecond in which `t_update_` has passed
since the last update, before any call at that time. The code makes up for the missed updates when
it is called instead. At an `enqueue` nothing has changed since they were due, so that is the same;
a `dequeue` makes up for them after its packet has left and its rate has been measured.
-/
import AbcMahimahi.Lib.CatchUp
import AbcMahimahi.Packet.Pie

namespace AbcMahimahi.Packet.PIEPacketQueue

open Bytes CatchUp

/-! ## The reference -/

/-- What `drop_early` decides by, apart from the queue. -/
structure Used where
  dropProb : ℚ
  burstAllowance : Nat
  qdelayOld : Nat
  deriving DecidableEq

def used (q : PIEPacketQueue) : Used := ⟨q.dropProb, q.burstAllowance, q.qdelayOld⟩

/-- The part of `enqueue` after the update. -/
def offer (q : PIEPacketQueue) (p : QueuedPacket) (draw : ℚ) : Except Fault PIEPacketQueue := do
  if !(← q.base.goodWithPacket p) then pure q
  else
    let q := if ← q.dropEarly draw then q else { q with base := q.base.accept p }
    check "good()" (← q.base.good)
    pure q

/-- The part of `dequeue` before the update. -/
def depart (q : PIEPacketQueue) (clock : Nat) : Except Fault (QueuedPacket × PIEPacketQueue) := do
  let (ret, base) ← q.base.dequeue
  let q := { q with base := base }
  pure (ret, q.measure (u32 clock) (← q.base.sizeBytes) ret.contents.length)

/-- A queue whose update runs from a timer, and the time up to which the timer has run. -/
structure Timed where
  queue : PIEPacketQueue
  clock : Nat

/-- An update, with the size of the queue at that moment. -/
def update (q : PIEPacketQueue) : PIEPacketQueue := q.updateDropProb q.base.queueSizeInBytes.toNat

/-- The timer at the time `now`. -/
def tick (q : PIEPacketQueue) (now : Nat) : PIEPacketQueue :=
  if now - q.lastUpdate > q.tUpdate then q.update else q

/-- Let the timer run, millisecond by millisecond, up to and at `now`. -/
def Timed.run (r : Timed) (now : Nat) : PIEPacketQueue :=
  (List.range' (r.clock + 1) (now - r.clock)).foldl tick r.queue

/-- A call on the queue with the timer. -/
def Timed.step (r : Timed) : Op → Except Fault (Option Used × Timed)
  | .enqueue p clock draw => do
    let q := r.run clock
    pure (some q.used, ⟨← q.offer p draw, clock⟩)
  | .dequeue clock _ => do
    let (_, q) ← (r.run clock).depart clock
    pure (none, ⟨q, clock⟩)

/-- A call on the queue of the code, and what an `enqueue` uses. -/
def usedStep (q : PIEPacketQueue) : Op → Except Fault (Option Used × PIEPacketQueue)
  | .enqueue p clock draw => do
    let q₁ ← q.calculateDropProb clock
    pure (some q₁.used, ← q.enqueue p clock draw)
  | .dequeue clock clock' => do
    let (_, q) ← q.dequeue clock clock'
    pure (none, q)

theorem enqueue_eq (q : PIEPacketQueue) (p : QueuedPacket) (clock : Nat) (draw : ℚ) :
    q.enqueue p clock draw = q.calculateDropProb clock >>= fun q => q.offer p draw := rfl

theorem dequeue_eq (q : PIEPacketQueue) (clock clock' : Nat) :
    q.dequeue clock clock' = q.depart clock >>= fun r => r.2.calculateDropProb clock' >>= fun q => pure (r.1, q) := by
  unfold dequeue depart
  simp only [bind_assoc, pure_bind]

/-! ## Catching up with the timer -/

/-- When the next update is due. -/
def due (q : PIEPacketQueue) : Except Fault Nat := .ok (q.lastUpdate + q.tUpdate + 1)

/-- The last update is not in the future, and updates are 30 ms apart. -/
structure Paced (now : Nat) (q : PIEPacketQueue) : Prop where
  past : q.lastUpdate ≤ now
  period : q.tUpdate = 30

theorem update_base (q : PIEPacketQueue) : q.update.base = q.base := by
  unfold update updateDropProb
  simp only [apply_ite PIEPacketQueue.base, ite_self]

theorem update_frame {q : PIEPacketQueue} {now : Nat} (h : Paced now q) (hdue : now - q.lastUpdate > q.tUpdate)
    (hnow : now < 2 ^ 64) : q.update.lastUpdate = q.lastUpdate + q.tUpdate ∧ q.update.tUpdate = q.tUpdate := by
  have hpast := h.past
  have hperiod := h.period
  unfold update updateDropProb
  simp only [apply_ite PIEPacketQueue.lastUpdate, apply_ite PIEPacketQueue.tUpdate, ite_self]
  exact ⟨u64_eq (by omega), trivial⟩

theorem Paced.update {q : PIEPacketQueue} {now : Nat} (h : Paced now q) (hdue : now - q.lastUpdate > q.tUpdate)
    (hnow : now < 2 ^ 64) : Paced now q.update := by
  obtain ⟨hlast, hperiod⟩ := update_frame h hdue hnow
  have hpast := h.past
  exact ⟨by rw [hlast]; omega, by rw [hperiod]; exact h.period⟩

/-- An update as a turn of a system that catches up with the clock. -/
def updateTurn (q : PIEPacketQueue) : Except Fault (Unit × PIEPacketQueue) := .ok ((), q.update)

/-- No update is due: caught up. -/
theorem done_nil {now : Nat} {q : PIEPacketQueue} (hdue : now - q.lastUpdate ≤ q.tUpdate) :
    Done due updateTurn now q [] q := ⟨.nil q, q.lastUpdate + q.tUpdate + 1, rfl, by omega⟩

theorem not_due_of_done {now : Nat} {q q' : PIEPacketQueue} {us : List Unit} (h : Done due updateTurn now q us q') :
    now - q'.lastUpdate ≤ q'.tUpdate := by
  obtain ⟨t, ht, hlt⟩ := h.later
  cases ht
  omega

/-- The loop of the code catches up. -/
theorem dropProbLoop_done {now : Nat} (hnow : now < 2 ^ 64) : ∀ (turns : Nat) {q : PIEPacketQueue}, Paced now q →
    now - q.lastUpdate ≤ turns →
    Paced now (dropProbLoop now q.base.queueSizeInBytes.toNat turns q) ∧
      ∃ us, Done due updateTurn now q us (dropProbLoop now q.base.queueSizeInBytes.toNat turns q)
  | 0, q, h, hturns => ⟨h, [], done_nil (by omega)⟩
  | turns + 1, q, h, hturns => by
    have hpast := h.past
    have hperiod := h.period
    have hsub : sub64 now q.lastUpdate = now - q.lastUpdate := sub64_eq hpast hnow
    unfold dropProbLoop
    rw [hsub]
    by_cases hdue : now - q.lastUpdate > q.tUpdate
    · rw [if_pos hdue]
      obtain ⟨hlast, -⟩ := update_frame h hdue hnow
      obtain ⟨hpaced, us, hdone⟩ := dropProbLoop_done hnow turns (h.update hdue hnow) (by rw [hlast]; omega)
      rw [update_base] at hpaced hdone
      exact ⟨hpaced, () :: us, .cons rfl (by omega) rfl hdone.turns, hdone.later⟩
    · rw [if_neg hdue]
      exact ⟨h, [], done_nil (by omega)⟩

/-- A millisecond of the timer catches up with that millisecond, from the one before. -/
theorem tick_done {now : Nat} {q : PIEPacketQueue} (hnow : now + 1 < 2 ^ 64) (h : Paced now q)
    (hdue : now - q.lastUpdate ≤ q.tUpdate) :
    Paced (now + 1) (tick q (now + 1)) ∧ ∃ us, Done due updateTurn (now + 1) q us (tick q (now + 1)) := by
  have hpast := h.past
  have hperiod := h.period
  have hpaced : Paced (now + 1) q := ⟨by omega, hperiod⟩
  unfold tick
  by_cases hnext : now + 1 - q.lastUpdate > q.tUpdate
  · rw [if_pos hnext]
    obtain ⟨hlast, hsame⟩ := update_frame hpaced hnext hnow
    refine ⟨hpaced.update hnext hnow, [()], .cons rfl (by omega) rfl (.nil _), _, rfl, ?_⟩
    rw [hlast, hsame]
    omega
  · rw [if_neg hnext]
    exact ⟨hpaced, [], done_nil (by omega)⟩

theorem foldl_done : ∀ (n : Nat) {now : Nat} {q : PIEPacketQueue}, now + n < 2 ^ 64 → Paced now q →
    now - q.lastUpdate ≤ q.tUpdate →
    ∃ us, Done due updateTurn (now + n) q us ((List.range' (now + 1) n).foldl tick q)
  | 0, now, q, _, _, hdue => ⟨[], done_nil hdue⟩
  | n + 1, now, q, hnow, h, hdue => by
    obtain ⟨hpaced, us, hdone⟩ := tick_done (by omega) h hdue
    obtain ⟨us', hdone'⟩ := foldl_done n (by omega) hpaced (not_due_of_done hdone)
    rw [List.range'_succ, List.foldl_cons]
    rw [show now + 1 + n = now + (n + 1) by omega] at hdone'
    exact ⟨us ++ us', hdone.join hdone' (by omega)⟩

/-! ## The simulation -/

theorem offer_frame {q q' : PIEPacketQueue} {p : QueuedPacket} {draw : ℚ} (h : q.offer p draw = .ok q') :
    q'.lastUpdate = q.lastUpdate ∧ q'.tUpdate = q.tUpdate := by
  unfold offer at h
  obtain ⟨good, -, h⟩ := Run.bind_ok h
  split at h
  · cases h
    exact ⟨rfl, rfl⟩
  · obtain ⟨drop, -, h⟩ := Run.bind_ok h
    obtain ⟨b, -, h⟩ := Run.bind_ok h
    obtain ⟨_, -, h⟩ := Run.bind_ok h
    cases h
    cases drop with
    | true => exact ⟨rfl, rfl⟩
    | false => exact ⟨rfl, rfl⟩

theorem depart_frame {q q' : PIEPacketQueue} {ret : QueuedPacket} {clock : Nat} (h : q.depart clock = .ok (ret, q')) :
    q'.lastUpdate = q.lastUpdate ∧ q'.tUpdate = q.tUpdate := by
  unfold depart at h
  obtain ⟨⟨ret', base⟩, -, h⟩ := Run.bind_ok h
  obtain ⟨bytes, -, h⟩ := Run.bind_ok h
  cases h
  unfold measure
  simp only [apply_ite PIEPacketQueue.lastUpdate, apply_ite PIEPacketQueue.tUpdate, ite_self, and_self]

/-- At `now` the queue of the code is the queue with the timer, caught up with `now`. -/
structure Sim (now : Nat) (q : PIEPacketQueue) (r : Timed) : Prop where
  order : r.clock ≤ now
  paced : Paced now q
  timed : Paced r.clock r.queue
  fresh : r.clock - r.queue.lastUpdate ≤ r.queue.tUpdate
  caught : ∃ us, Done due updateTurn now r.queue us q

/-- The timer comes to where the code comes, whenever that has caught up. -/
theorem Sim.run_eq {now now' : Nat} {q q' : PIEPacketQueue} {r : Timed} {us : List Unit} (h : Sim now q r)
    (hdone : Done due updateTurn now' q us q') (hle : now ≤ now') (hnow : now' < 2 ^ 64) : r.run now' = q' := by
  have horder := h.order
  obtain ⟨us', hcaught⟩ := h.caught
  obtain ⟨us'', htimer⟩ := foldl_done (now' - r.clock) (by omega) h.timed h.fresh
  rw [show r.clock + (now' - r.clock) = now' by omega] at htimer
  exact htimer.unique (hcaught.join hdone hle)

/-- What `calculate_drop_prob` does when it returns. -/
theorem calculateDropProb_done {now : Nat} {q q' : PIEPacketQueue} (h : Paced now q) (hnow : now < 2 ^ 64)
    (hq : q.calculateDropProb now = .ok q') : Paced now q' ∧ ∃ us, Done due updateTurn now q us q' := by
  obtain ⟨bytes, hbytes, hq⟩ := Run.bind_ok hq
  obtain ⟨_, -, hbytes⟩ := Run.bind_ok hbytes
  cases hbytes
  cases hq
  rw [sub64_eq h.past hnow]
  exact dropProbLoop_done hnow _ h le_rfl

/-- A queue right after the timer has run is where the timer leaves it. -/
theorem sim_refl {now : Nat} {q : PIEPacketQueue} (h : Paced now q) (hfresh : now - q.lastUpdate ≤ q.tUpdate) :
    Sim now q ⟨q, now⟩ := by
  exact ⟨le_rfl, h, h, hfresh, [], done_nil hfresh⟩

/-- What the clock reads first and last in a call. -/
def Op.clocks : Op → Nat × Nat
  | .enqueue _ clock _ => (clock, clock)
  | .dequeue clock clock' => (clock, clock')

/-- No update is due when a packet is to leave. -/
def NotDue (q : PIEPacketQueue) : Op → Prop
  | .enqueue _ _ _ => True
  | .dequeue clock _ => clock - q.lastUpdate ≤ q.tUpdate

theorem Sim.step {now : Nat} {q q' : PIEPacketQueue} {r : Timed} {op : Op} {out : Option Used} (h : Sim now q r)
    (hop : NotDue q op) (hle : now ≤ op.clocks.1) (hclocks : op.clocks.1 ≤ op.clocks.2) (hfit : op.clocks.2 < 2 ^ 64)
    (hs : q.usedStep op = .ok (out, q')) : ∃ r', r.step op = .ok (out, r') ∧ Sim op.clocks.2 q' r' := by
  cases op with
  | enqueue p clock draw =>
    obtain ⟨q₁, hq₁, hs⟩ := Run.bind_ok hs
    obtain ⟨q₂, hq₂, hs⟩ := Run.bind_ok hs
    cases hs
    rw [enqueue_eq, hq₁, Run.ok_bind] at hq₂
    obtain ⟨hpaced, us, hdone⟩ := calculateDropProb_done ⟨h.paced.past.trans hle, h.paced.period⟩ hfit hq₁
    obtain ⟨hlast, hperiod⟩ := offer_frame hq₂
    refine ⟨⟨q', clock⟩, ?_, sim_refl ⟨by rw [hlast]; exact hpaced.past, by rw [hperiod]; exact hpaced.period⟩
      (by rw [hlast, hperiod]; exact not_due_of_done hdone)⟩
    have hrun : r.run clock = q₁ := h.run_eq hdone hle hfit
    unfold Timed.step
    dsimp only
    rw [hrun, hq₂]; rfl
  | dequeue clock clock' =>
    obtain ⟨⟨ret, q₂⟩, hd, hs⟩ := Run.bind_ok hs
    cases hs
    rw [dequeue_eq] at hd
    obtain ⟨⟨ret', q₁⟩, hdepart, hd⟩ := Run.bind_ok hd
    obtain ⟨q₃, hq', hd⟩ := Run.bind_ok hd
    cases hd
    -- the packet leaves a queue that the timer has nothing to do with
    have hrun : r.run clock = q := h.run_eq (done_nil hop) hle (lt_of_le_of_lt hclocks hfit)
    obtain ⟨hlast, hperiod⟩ := depart_frame hdepart
    have hpaced : Paced clock q₁ := ⟨by rw [hlast]; exact h.paced.past.trans hle, by rw [hperiod]; exact h.paced.period⟩
    obtain ⟨hpaced', us, hdone⟩ := calculateDropProb_done ⟨hpaced.past.trans hclocks, hpaced.period⟩ hfit hq'
    refine ⟨⟨q₁, clock⟩, ?_, hclocks, hpaced', hpaced, by rw [hlast, hperiod]; exact hop, us, hdone⟩
    unfold Timed.step
    dsimp only
    rw [hrun, hdepart]; rfl

/-! ## Runs -/

/-- What the clock reads in the course of the calls. -/
def readings (ops : List Op) : List Nat := ops.flatMap fun op => [op.clocks.1, op.clocks.2]

theorem Sim.steps : ∀ {ops : List Op} {now : Nat} {q q' : PIEPacketQueue} {r : Timed} {outs : List (Option Used)},
    Sim now q r → Run.Along usedStep NotDue q ops → (now :: readings ops).Pairwise (· ≤ ·) →
    (∀ t ∈ readings ops, t < 2 ^ 64) → Run.steps usedStep q ops = .ok (outs, q') →
    ∃ r', Run.steps Timed.step r ops = .ok (outs, r')
  | [], _, _, _, r, outs, _, _, _, _, hrun => by
    cases hrun
    exact ⟨r, rfl⟩
  | op :: ops, now, q, q', r, outs, h, hnot, hclocks, hfit, hrun => by
    obtain ⟨out, q₁, outs', hs, hrest, rfl⟩ := Run.steps_cons_ok hrun
    have hread : readings (op :: ops) = op.clocks.1 :: op.clocks.2 :: readings ops := rfl
    rw [hread] at hclocks hfit
    obtain ⟨hnow, hclocks⟩ := List.pairwise_cons.1 hclocks
    obtain ⟨hfirst, hclocks⟩ := List.pairwise_cons.1 hclocks
    obtain ⟨r₁, hr, hsim⟩ := h.step hnot.1 (hnow _ (by simp)) (hfirst _ (by simp)) (hfit _ (by simp)) hs
    obtain ⟨r', hrest'⟩ := hsim.steps (hnot.2 out q₁ hs) hclocks
      (fun t ht => hfit t (List.mem_cons_of_mem _ (List.mem_cons_of_mem _ ht))) hrest
    exact ⟨r', Run.steps_cons hr hrest'⟩

/-- In every run from construction, at times that never decrease, in which no update is due when a
packet is to leave, each `enqueue` decides by the probability, the burst allowance and the delay that
the queue with the timer has. -/
theorem lazy_updates {packets bytes qdelayRef maxBurst clock : Nat} {q₀ q : PIEPacketQueue} {ops : List Op}
    {outs : List (Option Used)} (hq₀ : ofArgs packets bytes qdelayRef maxBurst clock = .ok q₀)
    (hrun : Run.steps usedStep q₀ ops = .ok (outs, q)) (hnot : Run.Along usedStep NotDue q₀ ops)
    (hclocks : (clock :: readings ops).Pairwise (· ≤ ·)) (hfit : ∀ t ∈ readings ops, t < 2 ^ 64) :
    ∃ r, Run.steps Timed.step ⟨q₀, clock⟩ ops = .ok (outs, r) := by
  have hstart : Sim clock q₀ ⟨q₀, clock⟩ := by
    unfold ofArgs at hq₀
    obtain ⟨base, -, hq₀⟩ := Run.bind_ok hq₀
    split at hq₀
    · cases hq₀
    · cases hq₀
      exact sim_refl ⟨le_rfl, rfl⟩ (by dsimp only; omega)
  exact hstart.steps hnot hclocks hfit hrun

/-- A queue that aims at a delay of 20 ms and lets bursts of 100 ms through. -/
def fresh : PIEPacketQueue :=
  { base := { packetLimit := 100, byteLimit := 0 }, qdelayRef := 20, maxBurst := 100, lastUpdate := 0 }

def fullPacket : QueuedPacket := ⟨List.replicate 1504 0, 0⟩

/-- Two packets 60 ms apart, and the first leaves before an update is due. -/
theorem lazy_updates_small : ∃ outs q r,
    Run.steps usedStep fresh [.enqueue fullPacket 10 0, .dequeue 20 20, .enqueue fullPacket 80 0] = .ok (outs, q) ∧
    Run.steps Timed.step ⟨fresh, 0⟩ [.enqueue fullPacket 10 0, .dequeue 20 20, .enqueue fullPacket 80 0] =
      .ok (outs, r) := by
  have hnot : Run.Along usedStep NotDue fresh [.enqueue fullPacket 10 0, .dequeue 20 20, .enqueue fullPacket 80 0] := by
    refine ⟨trivial, fun _ q₁ h₁ => ⟨?_, fun _ _ _ => ⟨trivial, fun _ _ _ => trivial⟩⟩⟩
    have hnext : (usedStep fresh (.enqueue fullPacket 10 0)).map (fun r => (r.2.lastUpdate, r.2.tUpdate)) = .ok (0, 30) := by
      decide +kernel
    rw [h₁] at hnext
    obtain ⟨hlast, hperiod⟩ := Prod.mk.inj (Except.ok.inj hnext)
    exact le_of_eq_of_le (by rw [hlast]) (by rw [hperiod]; decide)
  obtain ⟨⟨outs, q⟩, hrun⟩ := Run.ok_of_isOk (x := Run.steps usedStep fresh
    [.enqueue fullPacket 10 0, .dequeue 20 20, .enqueue fullPacket 80 0]) (by decide +kernel)
  obtain ⟨r, hr⟩ := lazy_updates (show ofArgs 100 0 20 100 0 = .ok fresh from rfl) hrun hnot
    (by decide) (by decide)
  exact ⟨outs, q, r, hrun, hr⟩

/-- What the last call of a run decides by. -/
def lastUsed {α : Type} (run : List (Option Used) × α) : Option Used := run.1.getLast?.join

/-- Twelve packets arrive at once and ten leave at 1 ms. The eleventh leaves at 30 ms and the twelfth
at 31 ms, when the first update is due: the timer runs with a packet in the queue, the code with none. -/
def lateOps : List Op :=
  List.replicate 12 (.enqueue fullPacket 0 0) ++ List.replicate 10 (.dequeue 1 1) ++
    [.dequeue 30 30, .dequeue 31 31, .enqueue fullPacket 31 0]

theorem lazy_updates_late :
    ofArgs 100 0 20 100 0 = .ok fresh ∧ (0 :: readings lateOps).Pairwise (· ≤ ·) ∧
    (Run.steps usedStep fresh lateOps).map lastUsed = .ok (some ⟨0, 100, 0⟩) ∧
    (Run.steps Timed.step ⟨fresh, 0⟩ lateOps).map lastUsed = .ok (some ⟨1 / 512, 0, 0⟩) :=
  ⟨rfl, by decide, by decide +kernel, by decide +kernel⟩

end AbcMahimahi.Packet.PIEPacketQueue
