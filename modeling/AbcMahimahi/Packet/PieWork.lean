/-
How much `calculate_drop_prob` works. Its updates are 30 ms apart on a clock that goes from the time of
construction to the readings it is called with, so while no reading is behind that clock, all updates
together fit in the time from construction to the largest reading. A reading behind it wraps around,
and the loop runs through almost all of a `uint64_t`.

The code is repeated here with its integer divisions watched and its updates counted; neither changes
what it computes. Whatever the readings, the probability stays one and no division is by zero.
-/
import AbcMahimahi.Packet.PieTimer

namespace AbcMahimahi.Packet.PIEPacketQueue

open Bytes

/-! ## The code, watched -/

/-- An integer division. -/
def quotient (a b : Nat) : Except Hazard Nat := if b = 0 then throw .divisionByZero else pure (a / b)

/-- The part of an update after the delay is known. -/
def updateWith (q : PIEPacketQueue) (bytes delay : Nat) : PIEPacketQueue :=
  let q := { q with
    qdelayOld := q.currentQdelay
    currentQdelay := delay }
  let p := q.dropProb + q.probStep
  let updateProb := !(decide (q.currentQdelay = 0 ∧ bytes ≠ 0) || decide (p > 1))
  let p := if p < 0 then 0 else if p > 1 then 1 else p
  let q := { q with
    dropProb := if q.currentQdelay = 0 ∧ q.qdelayOld = 0 ∧ updateProb then p * 0.98 else p
    burstAllowance := (max 0 (cInt q.burstAllowance - q.tUpdate)).toNat
    lastUpdate := u64 (q.lastUpdate + q.tUpdate) }
  if q.dropProb = 0 ∧ q.currentQdelay < q.qdelayRef / 2 ∧ q.qdelayOld < q.qdelayRef / 2 ∧ q.avgDqRate > 0 then
    { q with dqCount := dqCountInvalid, avgDqRate := 0, burstAllowance := q.maxBurst }
  else q

def updateWatched (q : PIEPacketQueue) (bytes : Nat) : Except Hazard PIEPacketQueue := do
  let delay ← if q.avgDqRate > 0 then quotient bytes q.avgDqRate else pure 0
  pure (q.updateWith bytes delay)

/-- The loop, and how many updates it makes. -/
def loopWatched (now bytes : Nat) : Nat → PIEPacketQueue → Except Hazard (Nat × PIEPacketQueue)
  | 0, q => pure (0, q)
  | turns + 1, q =>
    if sub64 now q.lastUpdate > q.tUpdate then do
      let q ← q.updateWatched bytes
      let (updates, q) ← loopWatched now bytes turns q
      pure (updates + 1, q)
    else pure (0, q)

def calculateWatched (q : PIEPacketQueue) (now : Nat) : Except Hazard (Nat × PIEPacketQueue) := do
  loopWatched now (← watched q.base.sizeBytes) (sub64 now q.lastUpdate) q

/-- The part of `measure` after the sample is known. -/
def sample (q : PIEPacketQueue) (now bytes dtime rateSample : Nat) : PIEPacketQueue :=
  let q := { q with
    avgDqRate := if q.avgDqRate = 0 then rateSample else u32 (q.avgDqRate - q.avgDqRate / 8 + rateSample / 8) }
  let q := if bytes < q.dqThreshold then { q with dqCount := dqCountInvalid } else { q with dqCount := 0, dqTstamp := now }
  { q with burstAllowance := if q.burstAllowance > dtime then q.burstAllowance - dtime else 0 }

/-- The part of `measure` after a measurement has been started, where one is to be. -/
def countWatched (q : PIEPacketQueue) (now bytes size : Nat) : Except Hazard PIEPacketQueue :=
  if q.dqCount ≠ dqCountInvalid then
    let dtime := sub32 now q.dqTstamp
    let q := { q with dqCount := u32 (q.dqCount + size) }
    if q.dqCount > q.dqThreshold ∧ dtime > 0 then do
      let rateSample ← quotient q.dqCount dtime
      pure (q.sample now bytes dtime rateSample)
    else pure q
  else pure q

def measureWatched (q : PIEPacketQueue) (now bytes size : Nat) : Except Hazard PIEPacketQueue :=
  countWatched
    (if bytes ≥ q.dqThreshold ∧ q.dqCount = dqCountInvalid then { q with dqTstamp := now, dqCount := 0 } else q)
    now bytes size

/-- One call, and how many updates it makes. -/
def workStep (q : PIEPacketQueue) : Op → Except Hazard (Nat × PIEPacketQueue)
  | .enqueue p clock draw => do
    let (updates, q) ← q.calculateWatched clock
    let q ← watched (q.offer p draw)
    pure (updates, q)
  | .dequeue clock clock' => do
    let (ret, base) ← watched q.base.dequeue
    let q := { q with base := base }
    let q ← q.measureWatched (u32 clock) (← watched q.base.sizeBytes) ret.contents.length
    q.calculateWatched clock'

theorem quotient_of_pos {a b : Nat} (h : 0 < b) : quotient a b = .ok (a / b) := if_neg (Nat.pos_iff_ne_zero.1 h)

theorem updateWatched_eq (q : PIEPacketQueue) (bytes : Nat) : q.updateWatched bytes = .ok (q.updateDropProb bytes) := by
  have hsplit : q.updateDropProb bytes = q.updateWith bytes (if q.avgDqRate > 0 then bytes / q.avgDqRate else 0) := by
    delta updateDropProb updateWith
    with_reducible rfl
  rw [hsplit]
  unfold updateWatched
  by_cases h : q.avgDqRate > 0
  · rw [if_pos h, if_pos h, quotient_of_pos h, Run.ok_bind]
    exact Run.pure_ok _
  · rw [if_neg h, if_neg h, Run.pure_ok, Run.ok_bind]
    exact Run.pure_ok _

/-- `countWatched`, when its division is not watched. -/
def count (q : PIEPacketQueue) (now bytes size : Nat) : PIEPacketQueue :=
  if q.dqCount ≠ dqCountInvalid then
    let dtime := sub32 now q.dqTstamp
    let q := { q with dqCount := u32 (q.dqCount + size) }
    if q.dqCount > q.dqThreshold ∧ dtime > 0 then q.sample now bytes dtime (q.dqCount / dtime) else q
  else q

theorem countWatched_eq (q : PIEPacketQueue) (now bytes size : Nat) :
    q.countWatched now bytes size = .ok (q.count now bytes size) := by
  unfold countWatched count
  dsimp only
  split
  · split
    · rename_i h
      rw [quotient_of_pos h.2, Run.ok_bind, Run.pure_ok]
    · exact Run.pure_ok _
  · exact Run.pure_ok _

theorem measureWatched_eq (q : PIEPacketQueue) (now bytes size : Nat) :
    q.measureWatched now bytes size = .ok (q.measure now bytes size) := by
  have hsplit : q.measure now bytes size = count
      (if bytes ≥ q.dqThreshold ∧ q.dqCount = dqCountInvalid then { q with dqTstamp := now, dqCount := 0 } else q)
      now bytes size := by
    delta measure count sample
    with_reducible rfl
  rw [hsplit]
  exact countWatched_eq _ now bytes size

/-! ## The updates of one call -/

/-- The updates it takes to get within 30 ms of a time that is `ahead`. -/
def updatesFor (ahead : Nat) : Nat := (ahead - 1) / 30

theorem updateDropProb_lastUpdate (q : PIEPacketQueue) (bytes : Nat) :
    (q.updateDropProb bytes).lastUpdate = u64 (q.lastUpdate + q.tUpdate) ∧ (q.updateDropProb bytes).tUpdate = q.tUpdate := by
  unfold updateDropProb
  simp only [apply_ite PIEPacketQueue.lastUpdate, apply_ite PIEPacketQueue.tUpdate, ite_self, and_self]

/-- An update takes 30 ms off the difference, also when that has wrapped around. -/
theorem sub64_next {now last : Nat} (h : sub64 now last > 30) :
    sub64 now (u64 (last + 30)) = sub64 now last - 30 := by
  unfold sub64 u64 at *
  omega

theorem loopWatched_eq (now bytes : Nat) : ∀ {turns : Nat} {q : PIEPacketQueue}, q.tUpdate = 30 →
    q.lastUpdate < 2 ^ 64 → sub64 now q.lastUpdate ≤ turns →
    loopWatched now bytes turns q = .ok (updatesFor (sub64 now q.lastUpdate), dropProbLoop now bytes turns q) ∧
      sub64 now (dropProbLoop now bytes turns q).lastUpdate + 30 * updatesFor (sub64 now q.lastUpdate) =
        sub64 now q.lastUpdate ∧
      (dropProbLoop now bytes turns q).lastUpdate < 2 ^ 64 ∧ (dropProbLoop now bytes turns q).tUpdate = 30
  | 0, q, hperiod, hlast, hturns => by
    have hnone : updatesFor (sub64 now q.lastUpdate) = 0 := by
      unfold updatesFor
      omega
    unfold loopWatched dropProbLoop
    rw [hnone, Run.pure_ok]
    exact ⟨rfl, by omega, hlast, hperiod⟩
  | turns + 1, q, hperiod, hlast, hturns => by
    obtain ⟨hnext, hsame⟩ := updateDropProb_lastUpdate q bytes
    rw [hperiod] at hnext hsame
    unfold loopWatched dropProbLoop
    rw [hperiod]
    -- an update is due while more than 30 ms are left, and each takes 30 ms off
    by_cases hdue : sub64 now q.lastUpdate > 30
    · have hsub : sub64 now (q.updateDropProb bytes).lastUpdate = sub64 now q.lastUpdate - 30 := by
        rw [hnext, sub64_next hdue]
      have hlast' : (q.updateDropProb bytes).lastUpdate < 2 ^ 64 := by
        rw [hnext]
        exact Nat.mod_lt _ (by decide)
      obtain ⟨hloop, hsum, hfit, hkept⟩ := loopWatched_eq now bytes hsame hlast'
        (show sub64 now (q.updateDropProb bytes).lastUpdate ≤ turns by rw [hsub]; omega)
      have hcount : updatesFor (sub64 now q.lastUpdate) = updatesFor (sub64 now q.lastUpdate - 30) + 1 := by
        unfold updatesFor
        omega
      rw [if_pos hdue, if_pos hdue, updateWatched_eq, Run.ok_bind, hloop, Run.ok_bind]
      dsimp only
      rw [hsub] at hsum ⊢
      rw [hcount, Run.pure_ok]
      exact ⟨rfl, by omega, hfit, hkept⟩
    · have hnone : updatesFor (sub64 now q.lastUpdate) = 0 := by
        unfold updatesFor
        omega
      rw [if_neg hdue, if_neg hdue, hnone, Run.pure_ok]
      exact ⟨rfl, by omega, hlast, hperiod⟩

/-- The clock of the updates is a `uint64_t` and moves in steps of 30 ms. -/
structure Ticking (q : PIEPacketQueue) : Prop where
  fits : q.lastUpdate < 2 ^ 64
  period : q.tUpdate = 30

/-- `calculate_drop_prob` makes the updates that the difference to its reading asks for. -/
theorem calculateWatched_eq {q : PIEPacketQueue} (h : Ticking q) (now : Nat) :
    q.calculateWatched now =
      watched ((fun q' => (updatesFor (sub64 now q.lastUpdate), q')) <$> q.calculateDropProb now) := by
  unfold calculateWatched calculateDropProb
  cases q.base.sizeBytes with
  | error e => rfl
  | ok bytes =>
    rw [watched_ok, Run.ok_bind, Run.ok_bind, Run.pure_ok, Run.map_ok, watched_ok]
    exact (loopWatched_eq now bytes h.period h.fits le_rfl).1

theorem calculateDropProb_ticks {q q' : PIEPacketQueue} {now : Nat} (h : Ticking q)
    (hq : q.calculateDropProb now = .ok q') :
    Ticking q' ∧ sub64 now q'.lastUpdate + 30 * updatesFor (sub64 now q.lastUpdate) = sub64 now q.lastUpdate := by
  obtain ⟨bytes, -, hq⟩ := Run.bind_ok hq
  cases hq
  obtain ⟨-, hsum, hfit, hkept⟩ := loopWatched_eq now bytes h.period h.fits le_rfl
  exact ⟨⟨hfit, hkept⟩, hsum⟩

/-- A call makes the updates its second reading asks for, and otherwise does what the code does. -/
theorem workStep_eq {q : PIEPacketQueue} (h : Ticking q) (op : Op) :
    q.workStep op = watched ((fun r => (updatesFor (sub64 op.clocks.2 q.lastUpdate), r.2)) <$> q.step op) := by
  cases op with
  | enqueue p clock draw =>
    unfold workStep step
    dsimp only [Op.clocks]
    rw [calculateWatched_eq h, enqueue_eq]
    cases q.calculateDropProb clock with
    | error e => rfl
    | ok q₁ =>
      rw [Run.map_ok, watched_ok, Run.ok_bind, Run.ok_bind]
      dsimp only
      cases q₁.offer p draw <;> rfl
  | dequeue clock clock' =>
    unfold workStep step
    dsimp only [Op.clocks]
    rw [dequeue_eq]
    -- the two differ in what they count, not in where they fail
    cases hd : q.base.dequeue with
    | error e =>
      unfold depart
      rw [hd]
      rfl
    | ok r =>
      obtain ⟨ret, base⟩ := r
      rw [watched_ok, Run.ok_bind]
      dsimp only
      cases hb : base.sizeBytes with
      | error e =>
        unfold depart
        rw [hd, Run.ok_bind]
        dsimp only
        rw [hb]
        rfl
      | ok bytes =>
        have hleft : q.depart clock = .ok (ret, ({ q with base := base }).measure (u32 clock) bytes ret.contents.length) := by
          unfold depart
          rw [hd, Run.ok_bind]
          dsimp only
          rw [hb]
          rfl
        obtain ⟨hlast, hperiod⟩ := depart_frame hleft
        rw [watched_ok, Run.ok_bind, measureWatched_eq, Run.ok_bind, hleft, Run.ok_bind]
        dsimp only
        rw [calculateWatched_eq ⟨by rw [hlast]; exact h.fits, by rw [hperiod]; exact h.period⟩, hlast]
        cases calculateDropProb _ clock' <;> rfl

/-! ## The probability stays one -/

def InUnit (q : PIEPacketQueue) : Prop := 0 ≤ q.dropProb ∧ q.dropProb ≤ 1

theorem updateDropProb_inUnit (q : PIEPacketQueue) (bytes : Nat) : (q.updateDropProb bytes).InUnit := by
  have hclamp : ∀ (p : ℚ) (c : Prop) [Decidable c],
      0 ≤ (if c then (if p < 0 then 0 else if p > 1 then 1 else p) * 0.98 else if p < 0 then 0 else if p > 1 then 1 else p) ∧
      (if c then (if p < 0 then 0 else if p > 1 then 1 else p) * 0.98 else if p < 0 then 0 else if p > 1 then 1 else p) ≤ 1 := by
    intro p c _
    have hunit : 0 ≤ (if p < 0 then 0 else if p > 1 then 1 else p) ∧ (if p < 0 then 0 else if p > 1 then 1 else p) ≤ 1 := by
      split
      · constructor <;> norm_num
      · split
        · constructor <;> norm_num
        · constructor <;> linarith
    obtain ⟨hlow, hhigh⟩ := hunit
    generalize (if p < 0 then 0 else if p > 1 then 1 else p) = x at hlow hhigh ⊢
    split
    · constructor
      · exact mul_nonneg hlow (by norm_num)
      · exact mul_le_one₀ hhigh (by norm_num) (by norm_num)
    · exact ⟨hlow, hhigh⟩
  unfold InUnit updateDropProb
  simp only [apply_ite PIEPacketQueue.dropProb, ite_self]
  exact hclamp _ _

theorem dropProbLoop_inUnit (now bytes : Nat) : ∀ (turns : Nat) {q : PIEPacketQueue}, q.InUnit →
    (dropProbLoop now bytes turns q).InUnit
  | 0, _, h => h
  | turns + 1, q, h => by
    unfold dropProbLoop
    split
    · exact dropProbLoop_inUnit now bytes turns (updateDropProb_inUnit q bytes)
    · exact h

theorem calculateDropProb_inUnit {q q' : PIEPacketQueue} {now : Nat} (h : q.InUnit)
    (hq : q.calculateDropProb now = .ok q') : q'.InUnit := by
  obtain ⟨bytes, -, hq⟩ := Run.bind_ok hq
  cases hq
  exact dropProbLoop_inUnit now bytes _ h

theorem offer_dropProb {q q' : PIEPacketQueue} {p : QueuedPacket} {draw : ℚ} (h : q.offer p draw = .ok q') :
    q'.dropProb = q.dropProb := by
  unfold offer at h
  obtain ⟨good, -, h⟩ := Run.bind_ok h
  split at h
  · cases h
    rfl
  · obtain ⟨drop, -, h⟩ := Run.bind_ok h
    obtain ⟨b, -, h⟩ := Run.bind_ok h
    obtain ⟨_, -, h⟩ := Run.bind_ok h
    cases h
    cases drop with
    | true => rfl
    | false => rfl

theorem depart_dropProb {q q' : PIEPacketQueue} {ret : QueuedPacket} {clock : Nat} (h : q.depart clock = .ok (ret, q')) :
    q'.dropProb = q.dropProb := by
  unfold depart at h
  obtain ⟨⟨ret', base⟩, -, h⟩ := Run.bind_ok h
  obtain ⟨bytes, -, h⟩ := Run.bind_ok h
  cases h
  unfold measure
  simp only [apply_ite PIEPacketQueue.dropProb, ite_self]

/-- What a call that returns leaves: the probability is one, and the clock of the updates has moved on by
those it made. -/
theorem step_kept {q q' : PIEPacketQueue} {op : Op} {out : Option QueuedPacket} (ht : Ticking q) (hu : q.InUnit)
    (hs : q.step op = .ok (out, q')) : Ticking q' ∧ q'.InUnit ∧
      sub64 op.clocks.2 q'.lastUpdate + 30 * updatesFor (sub64 op.clocks.2 q.lastUpdate) =
        sub64 op.clocks.2 q.lastUpdate := by
  cases op with
  | enqueue p clock draw =>
    obtain ⟨q₁, he, hs⟩ := Run.bind_ok hs
    cases hs
    rw [enqueue_eq] at he
    obtain ⟨q₁, hc, ho⟩ := Run.bind_ok he
    obtain ⟨⟨hfit, hperiod⟩, hsum⟩ := calculateDropProb_ticks ht hc
    obtain ⟨hlast, hsame⟩ := offer_frame ho
    refine ⟨⟨by rw [hlast]; exact hfit, by rw [hsame]; exact hperiod⟩, ?_, by rw [hlast]; exact hsum⟩
    unfold InUnit
    rw [offer_dropProb ho]
    exact calculateDropProb_inUnit hu hc
  | dequeue clock clock' =>
    obtain ⟨⟨ret, q₁⟩, hd, hs⟩ := Run.bind_ok hs
    cases hs
    rw [dequeue_eq] at hd
    obtain ⟨⟨ret', q₁⟩, hleft, hd⟩ := Run.bind_ok hd
    obtain ⟨q₂, hc, hd⟩ := Run.bind_ok hd
    cases hd
    obtain ⟨hlast, hsame⟩ := depart_frame hleft
    have ht₁ : Ticking q₁ := ⟨by rw [hlast]; exact ht.fits, by rw [hsame]; exact ht.period⟩
    obtain ⟨hticks, hsum⟩ := calculateDropProb_ticks ht₁ hc
    rw [hlast] at hsum
    refine ⟨hticks, calculateDropProb_inUnit ?_ hc, hsum⟩
    unfold InUnit
    rw [depart_dropProb hleft]
    exact hu

/-! ## Runs -/

/-- The reading of a call is not behind the clock of the updates. -/
def NotBehind (q : PIEPacketQueue) (op : Op) : Prop := q.lastUpdate ≤ op.clocks.2

/-- What runs keep, whatever the readings. -/
structure Sane (q : PIEPacketQueue) : Prop where
  ticking : Ticking q
  inUnit : q.InUnit

theorem workStep_ok {q q' : PIEPacketQueue} {op : Op} {updates : Nat} (h : Sane q)
    (hs : q.workStep op = .ok (updates, q')) : Sane q' ∧ updates = updatesFor (sub64 op.clocks.2 q.lastUpdate) ∧
      sub64 op.clocks.2 q'.lastUpdate + 30 * updates = sub64 op.clocks.2 q.lastUpdate := by
  rw [workStep_eq h.ticking] at hs
  obtain ⟨⟨out, q₁⟩, hstep, heq⟩ := Run.map_eq_ok (watched_eq_ok hs)
  cases heq
  obtain ⟨hticks, hunit, hsum⟩ := step_kept h.ticking h.inUnit hstep
  exact ⟨⟨hticks, hunit⟩, rfl, hsum⟩

/-- While no reading is behind it, the clock of the updates is 30 ms further for each of them, and not past
the largest reading. -/
theorem steps_updates {largest : Nat} (hfit : largest < 2 ^ 64) : ∀ {ops : List Op} {q q' : PIEPacketQueue}
    {updates : List Nat}, Sane q → q.lastUpdate ≤ largest → (∀ t ∈ readings ops, t ≤ largest) →
    Run.Along workStep NotBehind q ops → Run.steps workStep q ops = .ok (updates, q') →
    q'.lastUpdate = q.lastUpdate + 30 * updates.sum ∧ q'.lastUpdate ≤ largest
  | [], q, q', updates, _, hle, _, _, hrun => by
    cases hrun
    exact ⟨rfl, hle⟩
  | op :: ops, q, q', updates, h, hle, hread, hnot, hrun => by
    obtain ⟨n, q₁, ns, hs, hrest, rfl⟩ := Run.steps_cons_ok hrun
    obtain ⟨h₁, -, hsum⟩ := workStep_ok h hs
    have hfirst : op.clocks.2 ≤ largest := hread _ (by simp [readings])
    have hbehind : q.lastUpdate ≤ op.clocks.2 := hnot.1
    have hfits := h₁.ticking.fits
    have hlast : q₁.lastUpdate = q.lastUpdate + 30 * n ∧ q₁.lastUpdate ≤ op.clocks.2 := by
      unfold sub64 at hsum
      omega
    obtain ⟨hnext, hend⟩ := steps_updates hfit h₁ (hlast.2.trans hfirst)
      (fun t ht => hread t (by simp only [readings, List.flatMap_cons, List.mem_append]; exact Or.inr ht))
      (hnot.2 n q₁ hs) hrest
    rw [List.sum_cons]
    exact ⟨by omega, hend⟩

theorem sane_ofArgs {packets bytes qdelayRef maxBurst clock : Nat} {q : PIEPacketQueue} (hclock : clock < 2 ^ 64)
    (hq : ofArgs packets bytes qdelayRef maxBurst clock = .ok q) : Sane q ∧ q.lastUpdate = clock := by
  unfold ofArgs at hq
  obtain ⟨base, -, hq⟩ := Run.bind_ok hq
  split at hq
  · cases hq
  · cases hq
    exact ⟨⟨⟨hclock, rfl⟩, by norm_num [InUnit]⟩, rfl⟩

/-- Watching and counting changes no run. -/
theorem steps_watched : ∀ {ops : List Op} {q : PIEPacketQueue}, Sane q →
    (·.2) <$> Run.steps workStep q ops = watched ((·.2) <$> Run.steps step q ops)
  | [], _, _ => rfl
  | op :: ops, q, h => by
    unfold Run.steps
    rw [workStep_eq h.ticking]
    rcases hs : q.step op with e | ⟨out, q'⟩
    · rfl
    · obtain ⟨hticks, hunit, -⟩ := step_kept h.ticking h.inUnit hs
      have hrest : (·.2) <$> Run.steps workStep q' ops = watched ((·.2) <$> Run.steps step q' ops) :=
        steps_watched ⟨hticks, hunit⟩
      rw [Run.map_ok, watched_ok, Run.ok_bind, Run.ok_bind]
      dsimp only
      generalize Run.steps workStep q' ops = x at hrest ⊢
      generalize Run.steps step q' ops = y at hrest ⊢
      cases x <;> cases y <;> exact hrest

/-- A run that stops does so at a fault of the code. -/
theorem steps_fault {ops : List Op} {q : PIEPacketQueue} {e : Hazard} (h : Sane q)
    (he : Run.steps workStep q ops = .error e) : ∃ f, e = .fault f := by
  refine Run.steps_error (G := fun _ _ => True) (P := Sane) (E := fun e => ∃ f, e = .fault f) ?_ ?_ h (Run.along_of_forall (fun _ _ _ => trivial) q) he
  · intro s op o s' hs _ hstep
    exact (workStep_ok hs hstep).1
  · intro s op e hs _ hfail
    rw [workStep_eq hs.ticking] at hfail
    exact watched_error hfail

/-- In every run from construction no division is by zero and the probability stays between 0 and 1; and if no
call of `calculate_drop_prob` in it reads a time behind `last_update_`, all of them together make at most as
many updates as fit between the reading at construction and the largest one, and one more. The runs are those
of the code. -/
theorem bounded_work {packets bytes qdelayRef maxBurst clock largest : Nat} {q₀ : PIEPacketQueue} {ops : List Op}
    (hq₀ : ofArgs packets bytes qdelayRef maxBurst clock = .ok q₀)
    (hlargest : IsGreatest {t | t ∈ clock :: readings ops} largest) (hfit : largest < 2 ^ 64) :
    Run.steps workStep q₀ ops ≠ .error .divisionByZero ∧
      (∀ updates q, Run.steps workStep q₀ ops = .ok (updates, q) → 0 ≤ q.dropProb ∧ q.dropProb ≤ 1 ∧
        (Run.Along workStep NotBehind q₀ ops → updates.sum ≤ (largest - clock) / q₀.tUpdate + 1)) ∧
      (·.2) <$> Run.steps workStep q₀ ops = watched ((·.2) <$> Run.steps step q₀ ops) := by
  have hclock : clock ≤ largest := hlargest.2 (List.mem_cons_self ..)
  obtain ⟨hsane, hlast⟩ := sane_ofArgs (hclock.trans_lt hfit) hq₀
  refine ⟨?_, ?_, steps_watched hsane⟩
  · intro hzero
    obtain ⟨f, hf⟩ := steps_fault hsane hzero
    cases hf
  · intro updates q hrun
    have hend : Sane q := Run.steps_inv (G := fun _ _ => True) (fun s op o s' hs _ hstep => (workStep_ok hs hstep).1)
      hsane (Run.along_of_forall (fun _ _ _ => trivial) q₀) hrun
    refine ⟨hend.inUnit.1, hend.inUnit.2, ?_⟩
    intro hnot
    obtain ⟨hsum, hle⟩ := steps_updates hfit hsane (by rw [hlast]; exact hclock)
      (fun t ht => hlargest.2 (List.mem_cons_of_mem _ ht)) hnot hrun
    rw [hsane.ticking.period]
    omega

/-- A packet arrives at 10 ms and leaves at 20 ms, and the clock has come to 100 ms when the probability is
updated: three updates. -/
theorem bounded_work_small : ∃ updates q,
    Run.steps workStep fresh [.enqueue fullPacket 10 0, .dequeue 20 100] = .ok (updates, q) ∧ 0 ≤ q.dropProb ∧
      q.dropProb ≤ 1 ∧ updates.sum ≤ 4 := by
  obtain ⟨⟨updates, q⟩, hrun⟩ := Run.ok_of_isOk (x := Run.steps workStep fresh
    [.enqueue fullPacket 10 0, .dequeue 20 100]) (by decide +kernel)
  obtain ⟨-, hruns, -⟩ := bounded_work (show ofArgs 100 0 20 100 0 = .ok fresh from rfl)
    (show IsGreatest {t | t ∈ 0 :: readings [.enqueue fullPacket 10 0, .dequeue 20 100]} 100 from
      ⟨by decide, (by decide : ∀ t ∈ 0 :: readings [.enqueue fullPacket 10 0, .dequeue 20 100], t ≤ 100)⟩) (by decide)
  obtain ⟨hlow, hhigh, hbound⟩ := hruns updates q hrun
  have hnot : Run.Along workStep NotBehind fresh [.enqueue fullPacket 10 0, .dequeue 20 100] := by
    refine ⟨Nat.zero_le _, fun n q₁ h₁ => ⟨?_, fun _ _ _ => trivial⟩⟩
    have hnext : (workStep fresh (.enqueue fullPacket 10 0)).map (fun r => r.2.lastUpdate) = .ok 0 := by
      decide +kernel
    rw [h₁] at hnext
    exact (Except.ok.inj hnext).trans_le (Nat.zero_le _)
  have hsum := hbound hnot
  exact ⟨updates, q, hrun, hlow, hhigh, hsum.trans (by decide)⟩

/-- The queue is made at 1 ms, and the clock has been stepped back to 0 when a packet arrives: the loop goes
through the values of a `uint64_t`, although no time has passed. -/
theorem bounded_work_behind : ∃ q₀ q,
    ofArgs 100 0 20 100 1 = .ok q₀ ∧ IsGreatest {t | t ∈ 1 :: readings [.enqueue fullPacket 0 0]} 1 ∧
      Run.steps workStep q₀ [.enqueue fullPacket 0 0] = .ok ([(2 ^ 64 - 2) / 30], q) ∧
      ¬ [(2 ^ 64 - 2) / 30].sum ≤ (1 - 1) / q₀.tUpdate + 1 := by
  obtain ⟨hsane, -⟩ := sane_ofArgs (by decide) (show ofArgs 100 0 20 100 1 = .ok { fresh with lastUpdate := 1 } from rfl)
  have hsize : fullPacket.contents.length = 1504 := List.length_replicate
  obtain ⟨q, hq, -⟩ := enqueue_spec (q := { fresh with lastUpdate := 1 }) (p := fullPacket)
    ⟨rfl, rfl, by decide, by decide, by simp [fresh]⟩ ⟨by omega, by rw [hsize]; decide⟩ 0 0
  refine ⟨{ fresh with lastUpdate := 1 }, q, rfl,
    ⟨by decide, (by decide : ∀ t ∈ 1 :: readings [.enqueue fullPacket 0 0], t ≤ 1)⟩, Run.steps_cons ?_ rfl, by decide⟩
  rw [workStep_eq hsane.ticking]
  unfold step
  dsimp only
  rw [hq]
  rfl

end AbcMahimahi.Packet.PIEPacketQueue
