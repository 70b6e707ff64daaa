/-
What `CODELPacketQueue` discards and when. The calls that `dequeue` makes of `dodequeue` are written down
in a log; `first_above_time_` is a deadline an interval after the first of an unbroken run of calls that
found a standing queue. `dequeue` returns the packet of its first call, since the results of the calls after it
are locals of the inner blocks.
-/
import AbcMahimahi.Lib.Streak
import AbcMahimahi.Packet.Codel

namespace AbcMahimahi.Packet

open DroppingPacketQueue

/-- A call of `dodequeue` that returned: the clock, its result and the queue it left. -/
structure Dodequeued where
  now : Nat
  r : DodequeueResult
  left : List QueuedPacket
  deriving DecidableEq, Repr

/-- A call of `dequeue`: the call of `dodequeue` whose packet it returned, and those before and after it. -/
structure Dequeued where
  before : List Dodequeued
  returned : Dodequeued
  after : List Dodequeued
  deriving DecidableEq, Repr

def Dequeued.calls (o : Dequeued) : List Dodequeued := o.before ++ o.returned :: o.after

/-- The calls of `dodequeue` in the calls of a run, in order. -/
def callLog (os : List (Option Dequeued)) : List Dodequeued := os.flatMap fun o => (o.map Dequeued.calls).getD []

namespace CODELPacketQueue

/-! ## The log -/

def dodequeueLogged (q : CODELPacketQueue) (now : Nat) : Except Fault (Dodequeued × CODELPacketQueue) := do
  let (r, q') ← q.dodequeue now
  pure (⟨now, r, q'.base.internalQueue⟩, q')

section

variable (sqrtQuotient : Nat → Nat → Nat)

/-- `dropLoop` with its calls of `dodequeue`. -/
def dropLoopLogged (now : Nat) : Nat → CODELPacketQueue → Except Fault (List Dodequeued × CODELPacketQueue)
  | 0, q =>
    if now ≥ q.dropNext ∧ q.dropping then throw (.assertion "not internal_queue_.empty()") else pure ([], q)
  | packets + 1, q =>
    if now ≥ q.dropNext ∧ q.dropping then do
      let (d, q) ← q.dodequeueLogged now
      let q := { q with count := u32 (q.count + 1) }
      let (ds, q) ← dropLoopLogged now packets
        (if !d.r.okToDrop then { q with dropping := false }
          else { q with dropNext := q.controlLaw sqrtQuotient q.dropNext q.count })
      pure (d :: ds, q)
    else pure ([], q)

/-- `dequeue` with its calls of `dodequeue`. -/
def dequeueLogged (q : CODELPacketQueue) (now : Nat) : Except Fault (Dequeued × CODELPacketQueue) := do
  let (d, q) ← q.dodequeueLogged now
  if q.dropping then
    let q := if !d.r.okToDrop then { q with dropping := false } else q
    let (ds, q) ← dropLoopLogged sqrtQuotient now q.base.internalQueue.length q
    pure (⟨[], d, ds⟩, q)
  else if d.r.okToDrop then
    let (d₂, q) ← q.dodequeueLogged now
    let delta := sub32 q.count q.lastcount
    let count := if delta > 1 ∧ sub64 now q.dropNext < u32 (16 * q.interval) then delta else 1
    pure (⟨[], d, [d₂]⟩, { q with
      dropping := true
      count := count
      dropNext := q.controlLaw sqrtQuotient now count
      lastcount := count })
  else
    pure (⟨[], d, []⟩, q)

/-- `step` with the calls of `dodequeue`. -/
def stepLogged (q : CODELPacketQueue) : Op → Except Fault (Option Dequeued × CODELPacketQueue)
  | .enqueue p => do pure (none, ← q.enqueue p)
  | .dequeue clock => do
    let (o, q') ← q.dequeueLogged sqrtQuotient clock
    pure (some o, q')

theorem dropLoop_eq (now : Nat) : ∀ (packets : Nat) (q : CODELPacketQueue),
    dropLoop sqrtQuotient now packets q = (·.2) <$> dropLoopLogged sqrtQuotient now packets q
  | 0, q => by
    unfold dropLoop dropLoopLogged
    split <;> rfl
  | packets + 1, q => by
    unfold dropLoop dropLoopLogged
    split
    · unfold dodequeueLogged
      cases q.dodequeue now with
      | error e => rfl
      | ok x =>
        obtain ⟨r, q₁⟩ := x
        simp only [Run.ok_bind, Run.pure_ok]
        rw [dropLoop_eq now packets]
        cases dropLoopLogged sqrtQuotient now packets (if (!r.okToDrop) = true then _ else _) with
        | error e => rfl
        | ok y => rfl
    · rfl

/-- The log changes nothing, and the packet returned is the one of the call marked so. -/
theorem dequeue_eq (q : CODELPacketQueue) (now : Nat) :
    q.dequeue sqrtQuotient now = (fun x => (x.1.returned.r.p, x.2)) <$> q.dequeueLogged sqrtQuotient now := by
  unfold dequeue dequeueLogged dodequeueLogged
  cases q.dodequeue now with
  | error e => rfl
  | ok x =>
    obtain ⟨r, q₁⟩ := x
    simp only [Run.ok_bind, Run.pure_ok]
    split
    · rw [dropLoop_eq]
      cases dropLoopLogged sqrtQuotient now _ (if (!r.okToDrop) = true then _ else _) with
      | error e => rfl
      | ok y => rfl
    · split
      · cases q₁.dodequeue now with
        | error e => rfl
        | ok y => rfl
      · rfl

theorem step_eq (q : CODELPacketQueue) (op : Op) :
    step sqrtQuotient q op = (fun x => (x.1.map (·.returned.r.p), x.2)) <$> stepLogged sqrtQuotient q op := by
  cases op with
  | enqueue p =>
    unfold step stepLogged
    dsimp only
    cases q.enqueue p with
    | error e => rfl
    | ok q' => rfl
  | dequeue clock =>
    unfold step stepLogged
    dsimp only
    rw [dequeue_eq]
    cases q.dequeueLogged sqrtQuotient clock with
    | error e => rfl
    | ok x => rfl

end

/-! ## One call -/

/-- A call that found a standing queue. -/
def Standing (target : Nat) (d : Dodequeued) : Prop :=
  target ≤ d.now - d.r.p.arrivalTime ∧ d.left ≠ [] ∧ packetSize < totalBytes d.left

/-- The byte counter is the size of the queue, as an `int` holds it. -/
def Counted (q : DroppingPacketQueue) : Prop := q.queueSizeInBytes = cInt (totalBytes q.internalQueue)

theorem cInt_cInt_add (a b : Int) : cInt (cInt a + b) = cInt (a + b) := Int.bmod_add_bmod

theorem cInt_cInt_sub (a b : Int) : cInt (cInt a - b) = cInt (a - b) := Int.bmod_sub_bmod

theorem cInt_toNat_le (n : Nat) : (cInt n).toNat ≤ n := by
  unfold cInt
  rw [Int.bmod_def]
  split <;> omega

theorem dequeue_bytes {q q' : DroppingPacketQueue} {p : QueuedPacket} (h : q.dequeue = .ok (p, q')) :
    q'.queueSizeInBytes = cInt (q.queueSizeInBytes - p.contents.length) := by
  unfold DroppingPacketQueue.dequeue at h
  split at h
  · cases h
  · obtain ⟨g, -, h⟩ := Run.bind_ok h
    obtain ⟨u, -, h⟩ := Run.bind_ok h
    cases h
    rfl

theorem Counted.dequeue {q q' : DroppingPacketQueue} {p : QueuedPacket} (h : Counted q) (hd : q.dequeue = .ok (p, q')) :
    Counted q' := by
  unfold Counted at h ⊢
  rw [dequeue_bytes hd, h, (dequeue_ok hd).1, cInt_cInt_sub, totalBytes_cons]
  congr 1
  push_cast
  ring

theorem Counted.acceptIfGood {q q' : DroppingPacketQueue} {p : QueuedPacket} (h : Counted q)
    (ha : q.acceptIfGood p = .ok q') : Counted q' := by
  unfold DroppingPacketQueue.acceptIfGood at ha
  obtain ⟨g, -, ha⟩ := Run.bind_ok ha
  obtain ⟨g', -, ha⟩ := Run.bind_ok ha
  obtain ⟨u, -, ha⟩ := Run.bind_ok ha
  cases ha
  split
  · unfold Counted DroppingPacketQueue.accept at *
    dsimp only
    rw [h, cInt_cInt_add, totalBytes_append, totalBytes_cons, totalBytes_nil]
    push_cast
    rfl
  · exact h

/-- The counter never shows more than there is. -/
theorem Counted.toNat_le {q : DroppingPacketQueue} (h : Counted q) :
    q.queueSizeInBytes.toNat ≤ totalBytes q.internalQueue := by
  rw [h]
  exact cInt_toNat_le _

/-- The clock reads no less than the arrival times of the packets in the queue, and an interval more fits. -/
structure Timely (q : CODELPacketQueue) (now : Nat) : Prop where
  fits : now + q.interval < 2 ^ 64
  arrived : ∀ p ∈ q.base.internalQueue, p.arrivalTime ≤ now

/-- The queue that a call leaves stands, by the counter: it is not empty, its packet has waited for the target and
more than 1504 bytes stay. -/
def Stands (q : CODELPacketQueue) (now : Nat) (p : QueuedPacket) (base : DroppingPacketQueue) : Prop :=
  base.internalQueue ≠ [] ∧ q.target ≤ sub64 now p.arrivalTime ∧ packetSize < base.queueSizeInBytes.toNat

/-- The branches of `dodequeue`: no standing queue, the first call that found one, and a later one. -/
theorem dodequeueLogged_cases {q q' : CODELPacketQueue} {now : Nat} {d : Dodequeued}
    (h : q.dodequeueLogged now = .ok (d, q')) : ∃ base, q.base.dequeue = .ok (d.r.p, base) ∧ d.now = now ∧
      d.left = base.internalQueue ∧
      (¬ Stands q now d.r.p base ∧ d.r.okToDrop = false ∧ q' = { q with base := base, firstAboveTime := 0 } ∨
        Stands q now d.r.p base ∧ q.firstAboveTime = 0 ∧ d.r.okToDrop = false ∧
          q' = { q with base := base, firstAboveTime := u64 (now + q.interval) } ∨
        Stands q now d.r.p base ∧ q.firstAboveTime ≠ 0 ∧ (d.r.okToDrop = true ↔ q.firstAboveTime ≤ now) ∧
          q' = { q with base := base }) := by
  unfold dodequeueLogged at h
  obtain ⟨⟨r, q₁⟩, hd, h⟩ := Run.bind_ok h
  cases h
  unfold dodequeue at hd
  obtain ⟨⟨p, base⟩, hbase, hd⟩ := Run.bind_ok hd
  dsimp only at hd
  split at hd
  -- nothing is left behind the packet
  · rename_i hempty
    cases hd
    exact ⟨base, hbase, rfl, rfl, Or.inl ⟨fun hstands => hstands.1 (List.isEmpty_iff.1 hempty), rfl, rfl⟩⟩
  · rename_i hempty
    have hne : base.internalQueue ≠ [] := fun hnil => hempty (by rw [DroppingPacketQueue.empty, hnil]; rfl)
    obtain ⟨bytes, hsize, hd⟩ := Run.bind_ok hd
    have hbytes : bytes = base.queueSizeInBytes.toNat := by
      unfold DroppingPacketQueue.sizeBytes at hsize
      obtain ⟨u, -, hsize⟩ := Run.bind_ok hsize
      cases hsize
      rfl
    subst hbytes
    split at hd
    -- the packet was quick, or too few bytes are left
    · rename_i hlow
      cases hd
      refine ⟨base, hbase, rfl, rfl, Or.inl ⟨fun hstands => ?_, rfl, rfl⟩⟩
      have hwaited := hstands.2.1
      have hstays := hstands.2.2
      dsimp only at hwaited
      omega
    · rename_i hlow
      rw [not_or, not_lt, not_le] at hlow
      split at hd
      -- the delay stands, for the first time or still
      · rename_i hzero
        cases hd
        exact ⟨base, hbase, rfl, rfl, Or.inr (Or.inl ⟨⟨hne, hlow⟩, hzero, rfl, rfl⟩)⟩
      · rename_i hset
        cases hd
        exact ⟨base, hbase, rfl, rfl, Or.inr (Or.inr ⟨⟨hne, hlow⟩, hset, decide_eq_true_iff, rfl⟩)⟩

/-- What one call of `dodequeue` does at a timely clock. -/
structure Popped (q : CODELPacketQueue) (now : Nat) (d : Dodequeued) (q' : CODELPacketQueue) : Prop where
  clock : d.now = now
  popped : q.base.internalQueue = d.r.p :: q'.base.internalQueue
  counted : Counted q'.base
  keptTarget : q'.target = q.target
  keptInterval : q'.interval = q.interval
  above : d.r.okToDrop = false ∧ q'.firstAboveTime = 0 ∨
    Standing q.target d ∧ d.r.okToDrop = false ∧ q'.firstAboveTime = now + q.interval ∨
    Standing q.target d ∧ q.firstAboveTime ≠ 0 ∧ q'.firstAboveTime = q.firstAboveTime ∧
      (d.r.okToDrop = true → q.firstAboveTime ≤ now)

theorem dodequeueLogged_popped {q q' : CODELPacketQueue} {now : Nat} {d : Dodequeued} (hc : Counted q.base)
    (ht : Timely q now) (h : q.dodequeueLogged now = .ok (d, q')) : Popped q now d q' := by
  obtain ⟨base, hbase, hclock, hleft, hcases⟩ := dodequeueLogged_cases h
  have hcounted := hc.dequeue hbase
  have hqueue := (dequeue_ok hbase).1
  have hfits := ht.fits
  have harrived := ht.arrived d.r.p (by rw [hqueue]; exact List.mem_cons_self ..)
  have hstanding : Stands q now d.r.p base → Standing q.target d := by
    rintro ⟨hne, hwaited, hstays⟩
    rw [sub64_eq harrived (by omega)] at hwaited
    exact ⟨by rw [hclock]; exact hwaited, by rw [hleft]; exact hne,
      by rw [hleft]; exact lt_of_lt_of_le hstays hcounted.toNat_le⟩
  rcases hcases with ⟨-, hno, rfl⟩ | ⟨hstands, -, hno, rfl⟩ | ⟨hstands, hset, hok, rfl⟩
  · exact ⟨hclock, hqueue, hcounted, rfl, rfl, Or.inl ⟨hno, rfl⟩⟩
  · exact ⟨hclock, hqueue, hcounted, rfl, rfl, Or.inr (Or.inl ⟨hstanding hstands, hno, u64_eq hfits⟩)⟩
  · exact ⟨hclock, hqueue, hcounted, rfl, rfl, Or.inr (Or.inr ⟨hstanding hstands, hset, rfl, hok.1⟩)⟩

/-! ## The deadline is an unbroken interval -/

/-- `first_above_time_` is zero, or an interval after the first of the calls of late that all found a standing
queue; and every call so far that let its packet be dropped was an interval after such a one. -/
structure History (target interval : Nat) (log : List Dodequeued) (q : CODELPacketQueue) : Prop where
  keptTarget : q.target = target
  keptInterval : q.interval = interval
  counted : Counted q.base
  armed : q.firstAboveTime = 0 ∨ Streak.Armed (Standing target) Dodequeued.now interval log q.firstAboveTime
  sound : Streak.Sound (Standing target) Dodequeued.now interval (·.r.okToDrop = true) log

theorem Popped.history {target interval now : Nat} {log : List Dodequeued} {q q' : CODELPacketQueue} {d : Dodequeued}
    (hp : Popped q now d q') (h : History target interval log q) : History target interval (log ++ [d]) q' := by
  obtain ⟨rfl, rfl, -, harmed, hsound⟩ := h
  have hclock := hp.clock
  refine ⟨hp.keptTarget, hp.keptInterval, hp.counted, ?_, ?_⟩
  · rcases hp.above with ⟨-, hreset⟩ | ⟨hstanding, -, hset⟩ | ⟨hstanding, hne, hkept, -⟩
    · exact Or.inl hreset
    · rw [hset, ← hclock]
      exact Or.inr (.start log hstanding)
    · rw [hkept]
      exact Or.inr ((harmed.resolve_left hne).extend hstanding)
  · refine hsound.snoc fun hok => ?_
    rcases hp.above with ⟨hno, -⟩ | ⟨-, hno, -⟩ | ⟨hstanding, hne, -, hdue⟩
    · exact absurd (hok.symm.trans hno) (by decide)
    · exact absurd (hok.symm.trans hno) (by decide)
    · exact (harmed.resolve_left hne).stood hstanding (by rw [hclock]; exact hdue hok)

/-- Counting, and the state of the control law, are no part of the history. -/
theorem History.congr {target interval : Nat} {log : List Dodequeued} {q q' : CODELPacketQueue}
    (h : History target interval log q) (hbase : q'.base = q.base) (htarget : q'.target = q.target)
    (hinterval : q'.interval = q.interval) (habove : q'.firstAboveTime = q.firstAboveTime) :
    History target interval log q' :=
  ⟨htarget.trans h.keptTarget, hinterval.trans h.keptInterval, by rw [hbase]; exact h.counted,
    by rw [habove]; exact h.armed, h.sound⟩

theorem Timely.popped {q q' : CODELPacketQueue} {now : Nat} {d : Dodequeued} (h : Timely q now)
    (hp : Popped q now d q') :
    Timely q' now :=
  ⟨by rw [hp.keptInterval]; exact h.fits,
    fun p hmem => h.arrived p (by rw [hp.popped]; exact List.mem_cons_of_mem _ hmem)⟩

section

variable {sqrtQuotient : Nat → Nat → Nat} {target interval : Nat}

theorem dropLoopLogged_history {now : Nat} : ∀ {packets : Nat} {q q' : CODELPacketQueue} {log ds : List Dodequeued},
    History target interval log q → Timely q now → dropLoopLogged sqrtQuotient now packets q = .ok (ds, q') →
    History target interval (log ++ ds) q' ∧ q.base.internalQueue = ds.map (·.r.p) ++ q'.base.internalQueue ∧
      (q.dropping = false → ds = [])
  | 0, q, q', log, ds, h, ht, hl => by
    unfold dropLoopLogged at hl
    split at hl
    · cases hl
    · cases hl
      exact ⟨by rw [List.append_nil]; exact h, rfl, fun _ => rfl⟩
  | packets + 1, q, q', log, ds, h, ht, hl => by
    unfold dropLoopLogged at hl
    split at hl
    · rename_i hcond
      obtain ⟨⟨d, q₁⟩, hd, hl⟩ := Run.bind_ok hl
      have hp := dodequeueLogged_popped h.counted ht hd
      obtain ⟨⟨ds', q₂⟩, hrest, hl⟩ := Run.bind_ok hl
      cases hl
      -- the state of the drop machine is not part of the history
      have hnext : ∀ q₂ : CODELPacketQueue,
          q₂ = (if !d.r.okToDrop then { q₁ with count := u32 (q₁.count + 1), dropping := false }
          else { q₁ with
            count := u32 (q₁.count + 1)
            dropNext := controlLaw sqrtQuotient { q₁ with count := u32 (q₁.count + 1) } q₁.dropNext (u32 (q₁.count + 1)) }) →
          q₂.base = q₁.base ∧ q₂.target = q₁.target ∧ q₂.interval = q₁.interval ∧
            q₂.firstAboveTime = q₁.firstAboveTime := by
        rintro _ rfl
        split <;> exact ⟨rfl, rfl, rfl, rfl⟩
      obtain ⟨hbase, htarget, hinterval, habove⟩ := hnext _ rfl
      have ht₁ := ht.popped hp
      have hlog := dropLoopLogged_history ((hp.history h).congr hbase htarget hinterval habove)
        ⟨by rw [hinterval]; exact ht₁.fits, by rw [hbase]; exact ht₁.arrived⟩ hrest
      obtain ⟨hhistory, hqueue, -⟩ := hlog
      rw [hbase] at hqueue
      refine ⟨by rw [List.append_cons]; exact hhistory, ?_, fun hno => absurd (hno.symm.trans hcond.2) (by decide)⟩
      rw [hp.popped, hqueue]
      rfl
    · cases hl
      exact ⟨by rw [List.append_nil]; exact h, rfl, fun _ => rfl⟩

/-- A call of `dequeue` extends the history by its calls, pops the front of the queue, and goes on popping only
if its first packet was let drop. -/
theorem dequeueLogged_history {now : Nat} {q q' : CODELPacketQueue} {log : List Dodequeued} {o : Dequeued}
    (h : History target interval log q) (ht : Timely q now) (hq : q.dequeueLogged sqrtQuotient now = .ok (o, q')) :
    History target interval (log ++ o.calls) q' ∧
      q.base.internalQueue = o.calls.map (·.r.p) ++ q'.base.internalQueue ∧
      o.before = [] ∧ (o.after ≠ [] → o.returned.r.okToDrop = true) := by
  unfold dequeueLogged at hq
  obtain ⟨⟨d, q₁⟩, hd, hq⟩ := Run.bind_ok hq
  have hp := dodequeueLogged_popped h.counted ht hd
  have h₁ := hp.history h
  have ht₁ := ht.popped hp
  dsimp only at hq
  split at hq
  -- in the dropping state the loop goes on behind the first call
  · rename_i hdropping
    obtain ⟨⟨ds, q₂⟩, hl, hq⟩ := Run.bind_ok hq
    cases hq
    have hstop : ∀ q₂ : CODELPacketQueue, q₂ = (if !d.r.okToDrop then { q₁ with dropping := false } else q₁) →
        q₂.base = q₁.base ∧ q₂.target = q₁.target ∧ q₂.interval = q₁.interval ∧
          q₂.firstAboveTime = q₁.firstAboveTime ∧ (d.r.okToDrop = false → q₂.dropping = false) := by
      rintro _ rfl
      cases d.r.okToDrop with
      | true => exact ⟨rfl, rfl, rfl, rfl, fun hno => by cases hno⟩
      | false => exact ⟨rfl, rfl, rfl, rfl, fun _ => rfl⟩
    obtain ⟨hbase, htarget, hinterval, habove, hoff⟩ := hstop _ rfl
    obtain ⟨hhistory, hqueue, hnone⟩ := dropLoopLogged_history (h₁.congr hbase htarget hinterval habove)
      ⟨by rw [hinterval]; exact ht₁.fits, by rw [hbase]; exact ht₁.arrived⟩ hl
    rw [hbase] at hqueue
    refine ⟨by rw [List.append_assoc] at hhistory; exact hhistory, ?_, rfl, fun hafter => ?_⟩
    · rw [hp.popped, hqueue]
      rfl
    · cases hok : d.r.okToDrop with
      | true => rfl
      | false => exact absurd (hnone (hoff hok)) hafter
  · split at hq
    -- the state is entered: one more call, and its packet is returned
    · rename_i hok
      obtain ⟨⟨d₂, q₂⟩, hd₂, hq⟩ := Run.bind_ok hq
      cases hq
      have hp₂ := dodequeueLogged_popped h₁.counted ht₁ hd₂
      have h₂ := hp₂.history h₁
      refine ⟨?_, ?_, rfl, fun _ => hok⟩
      · rw [List.append_assoc] at h₂
        exact h₂.congr rfl rfl rfl rfl
      · rw [hp.popped, hp₂.popped]
        rfl
    · cases hq
      exact ⟨h₁, hp.popped, rfl, fun hafter => absurd rfl hafter⟩

end

/-! ## Over runs -/

/-- A `dequeue` reads a timely clock. -/
def TimelyOp (q : CODELPacketQueue) : Op → Prop
  | .enqueue _ => True
  | .dequeue clock => Timely q clock

/-- The packets discarded, and the first one popped. -/
def LetDrop (o : Dequeued) : Prop :=
  o.before ++ o.after ≠ [] → ∃ first rest, o.calls = first :: rest ∧ first.r.okToDrop = true

section

variable {sqrtQuotient : Nat → Nat → Nat} {target interval : Nat}

theorem stepLogged_history {q q' : CODELPacketQueue} {log : List Dodequeued} {op : Op} {o : Option Dequeued}
    (h : History target interval log q) (ht : TimelyOp q op) (hs : stepLogged sqrtQuotient q op = .ok (o, q')) :
    History target interval (log ++ (o.map Dequeued.calls).getD []) q' ∧ ∀ o', o = some o' → LetDrop o' := by
  cases op with
  | enqueue p =>
    unfold stepLogged enqueue at hs
    obtain ⟨q₁, he, hs⟩ := Run.bind_ok hs
    obtain ⟨base, ha, he⟩ := Run.bind_ok he
    cases he
    cases hs
    refine ⟨⟨h.keptTarget, h.keptInterval, h.counted.acceptIfGood ha, ?_, ?_⟩, fun o' ho' => by cases ho'⟩
    · rw [show (Option.map Dequeued.calls none).getD [] = [] from rfl, List.append_nil]
      exact h.armed
    · rw [show (Option.map Dequeued.calls none).getD [] = [] from rfl, List.append_nil]
      exact h.sound
  | dequeue clock =>
    unfold stepLogged at hs
    obtain ⟨⟨o', q₁⟩, hd, hs⟩ := Run.bind_ok hs
    cases hs
    obtain ⟨hhistory, -, hbefore, hafter⟩ := dequeueLogged_history h ht hd
    refine ⟨hhistory, fun o'' ho'' => ?_⟩
    cases ho''
    intro hdiscarded
    rw [hbefore, List.nil_append] at hdiscarded
    refine ⟨o'.returned, o'.after, ?_, hafter hdiscarded⟩
    unfold Dequeued.calls
    rw [hbefore, List.nil_append]

theorem steps_history {q q' : CODELPacketQueue} {ops : List Op} {os : List (Option Dequeued)}
    (h : History target interval [] q) (ht : Run.Along (stepLogged sqrtQuotient) TimelyOp q ops)
    (hrun : Run.steps (stepLogged sqrtQuotient) q ops = .ok (os, q')) : History target interval (callLog os) q' := by
  have hfold := Run.steps_fold (R := fun q log => History target interval log q)
    (f := fun log o => log ++ (o.map Dequeued.calls).getD [])
      (fun s log i o s' h ht hs => (stepLogged_history h ht hs).1)
    h ht hrun
  rw [List.foldl_append_eq_append, List.nil_append, ← List.flatMap_def] at hfold
  exact hfold

/-- A packet arrives no later than the `dequeue` calls after it read the clock. -/
def Op.InOrder : Op → Op → Prop
  | .enqueue p, .dequeue clock => p.arrivalTime ≤ clock
  | _, _ => True

theorem stepLogged_queue {q q' : CODELPacketQueue} {log : List Dodequeued} {op : Op} {o : Option Dequeued}
    (h : History target interval log q) (ht : TimelyOp q op) (hs : stepLogged sqrtQuotient q op = .ok (o, q')) :
    ∀ p ∈ q'.base.internalQueue, p ∈ q.base.internalQueue ∨ op = .enqueue p := by
  intro p hp
  cases op with
  | enqueue p' =>
    unfold stepLogged enqueue at hs
    obtain ⟨q₁, he, hs⟩ := Run.bind_ok hs
    obtain ⟨base, ha, he⟩ := Run.bind_ok he
    cases he
    cases hs
    unfold DroppingPacketQueue.acceptIfGood at ha
    obtain ⟨g, -, ha⟩ := Run.bind_ok ha
    obtain ⟨g', -, ha⟩ := Run.bind_ok ha
    obtain ⟨u, -, ha⟩ := Run.bind_ok ha
    cases ha
    dsimp only at hp
    split at hp
    · rw [accept_internalQueue, List.mem_append, List.mem_singleton] at hp
      rcases hp with hp | rfl
      · exact Or.inl hp
      · exact Or.inr rfl
    · exact Or.inl hp
  | dequeue clock =>
    unfold stepLogged at hs
    obtain ⟨⟨o', q₁⟩, hd, hs⟩ := Run.bind_ok hs
    cases hs
    rw [(dequeueLogged_history h ht hd).2.1]
    exact Or.inl (List.mem_append_right _ hp)

/-- Calls in order read timely clocks all along. -/
theorem along_timely : ∀ {ops : List Op} {q : CODELPacketQueue} {log : List Dodequeued}, History target interval log q →
    (∀ clock, .dequeue clock ∈ ops → clock + interval < 2 ^ 64 ∧ ∀ p ∈ q.base.internalQueue, p.arrivalTime ≤ clock) →
    ops.Pairwise Op.InOrder → Run.Along (stepLogged sqrtQuotient) TimelyOp q ops
  | [], q, log, _, _, _ => trivial
  | op :: ops, q, log, h, hclocks, horder => by
    have ht : TimelyOp q op := by
      cases op with
      | enqueue p => trivial
      | dequeue clock =>
        obtain ⟨hfits, harrived⟩ := hclocks clock (List.mem_cons_self ..)
        exact ⟨by rw [h.keptInterval]; exact hfits, harrived⟩
    obtain ⟨hfirst, hrest⟩ := List.pairwise_cons.1 horder
    refine ⟨ht, fun o q' hs => along_timely (stepLogged_history h ht hs).1 (fun clock hmem => ?_) hrest⟩
    obtain ⟨hfits, harrived⟩ := hclocks clock (List.mem_cons_of_mem _ hmem)
    refine ⟨hfits, fun p hp => ?_⟩
    rcases stepLogged_queue h ht hs p hp with hp | rfl
    · exact harrived p hp
    · exact hfirst _ hmem

/-- In every run from construction, with clocks not before the arrival times and an interval short of `2 ^ 64`: a
call of `dodequeue` that lets its packet be dropped comes at least an interval after one since which
every call has popped a packet that had waited for the target, and left more than 1504 bytes; and a call of
`dequeue` discards packets only if the first one it popped was let drop. The log changes nothing of the run. -/
theorem drops_after_standing_queue {packets bytes : Nat} {q q' : CODELPacketQueue} {ops : List Op}
    {os : List (Option Dequeued)} (hq : ofArgs packets bytes target interval = .ok q)
    (hfits : ∀ clock, .dequeue clock ∈ ops → clock + interval < 2 ^ 64) (horder : ops.Pairwise Op.InOrder)
    (hrun : Run.steps (stepLogged sqrtQuotient) q ops = .ok (os, q')) :
    (∀ before d after, callLog os = before ++ d :: after → d.r.okToDrop = true →
      ∃ early first between, before = early ++ first :: between ∧ first.now + interval ≤ d.now ∧
        ∀ e ∈ first :: between ++ [d],
          target ≤ e.now - e.r.p.arrivalTime ∧ e.left ≠ [] ∧ packetSize < totalBytes e.left) ∧
      (∀ o, some o ∈ os → o.before ++ o.after ≠ [] →
        ∃ first rest, o.calls = first :: rest ∧ first.r.okToDrop = true) ∧
      Run.steps (step sqrtQuotient) q ops = .ok (os.map (Option.map (·.returned.r.p)), q') := by
  have hstart : History target interval [] q ∧ q.base.internalQueue = [] := by
    unfold ofArgs at hq
    obtain ⟨base, hbase, hq⟩ := Run.bind_ok hq
    obtain ⟨hrep, hempty, -⟩ := rep_ofArgs hbase
    split at hq
    · cases hq
    · cases hq
      refine ⟨⟨rfl, rfl, ?_, Or.inl rfl, .nil⟩, hempty⟩
      unfold Counted
      rw [hrep.bytes, hempty]
      rfl
  obtain ⟨hhistory, hempty⟩ := hstart
  have ht : Run.Along (stepLogged sqrtQuotient) TimelyOp q ops :=
    along_timely hhistory (fun clock hmem => ⟨hfits clock hmem, fun p hp => by rw [hempty] at hp; cases hp⟩) horder
  refine ⟨(steps_history hhistory ht hrun).sound, fun o ho => ?_, Run.steps_map (step_eq sqrtQuotient) hrun⟩
  have houts := Run.steps_outputs (P := fun q => ∃ log, History target interval log q)
    (Q := fun o => ∀ o', o = some o' → LetDrop o') (fun s i o s' hP hG hs => by
      obtain ⟨log, hlog⟩ := hP
      obtain ⟨hnext, hdrop⟩ := stepLogged_history hlog hG hs
      exact ⟨⟨_, hnext⟩, hdrop⟩) ⟨[], hhistory⟩ ht hrun
  exact houts _ ho o rfl

/-- A packet of 1600 bytes. -/
def packetAt (arrivalTime : Nat) : QueuedPacket := ⟨List.replicate 1600 0, arrivalTime⟩

@[simp] theorem packetAt_arrivalTime (arrivalTime : Nat) : (packetAt arrivalTime).arrivalTime = arrivalTime := rfl

/-- Four packets, the last two only just arrived when the second is let drop. -/
def twoOldTwoNew : List Op :=
  [.enqueue (packetAt 0), .enqueue (packetAt 0), .dequeue 10, .enqueue (packetAt 18), .enqueue (packetAt 18),
    .dequeue 20]

theorem drops_after_standing_queue_small : ∃ q os q', ofArgs 100 0 5 10 = .ok q ∧
    Run.steps (stepLogged fun interval _ => interval) q twoOldTwoNew = .ok (os, q') ∧
    (∀ before d after, callLog os = before ++ d :: after → d.r.okToDrop = true →
      ∃ early first between, before = early ++ first :: between ∧ first.now + 10 ≤ d.now ∧
        ∀ e ∈ first :: between ++ [d],
          5 ≤ e.now - e.r.p.arrivalTime ∧ e.left ≠ [] ∧ packetSize < totalBytes e.left) ∧
      (∀ o, some o ∈ os → o.before ++ o.after ≠ [] →
        ∃ first rest, o.calls = first :: rest ∧ first.r.okToDrop = true) ∧
      Run.steps (step fun interval _ => interval) q twoOldTwoNew = .ok (os.map (Option.map (·.returned.r.p)), q') := by
  have hstart : ofArgs 100 0 5 10 = .ok { base := ⟨100, 0, 0, 0, []⟩, target := 5, interval := 10 } := rfl
  obtain ⟨⟨os, q'⟩, hrun⟩ := Run.ok_of_isOk (x := Run.steps (stepLogged fun interval _ => interval)
    { base := ⟨100, 0, 0, 0, []⟩, target := 5, interval := 10 } twoOldTwoNew) (by decide +kernel)
  refine ⟨_, os, q', hstart, hrun, drops_after_standing_queue hstart ?_ ?_ hrun⟩
  · intro clock hmem
    simp only [twoOldTwoNew, List.mem_cons, Op.dequeue.injEq, reduceCtorEq, false_or, List.not_mem_nil,
      or_false] at hmem
    omega
  · simp [twoOldTwoNew, Op.InOrder]

end

/-! ## The packet returned -/

/-- The head may be dropped: it is not the last packet, it has waited for the target, more than 1504 bytes stay by
the counter, and the deadline is set and met. -/
def HeadDroppable (q : CODELPacketQueue) (now : Nat) : Prop :=
  ∃ p rest, q.base.internalQueue = p :: rest ∧ rest ≠ [] ∧ q.target ≤ sub64 now p.arrivalTime ∧
    packetSize < (cInt (q.base.queueSizeInBytes - p.contents.length)).toNat ∧
    q.firstAboveTime ≠ 0 ∧ q.firstAboveTime ≤ now

/-- `dequeue` stops at its first packet. -/
def StopsAtFirst (q : CODELPacketQueue) (now : Nat) : Prop :=
  ¬ HeadDroppable q now ∨ q.dropping = true ∧ now < q.dropNext

theorem dodequeueLogged_head {q q' : CODELPacketQueue} {now : Nat} {d : Dodequeued}
    (h : q.dodequeueLogged now = .ok (d, q')) :
    (d.r.okToDrop = true ↔ HeadDroppable q now) ∧ q'.dropping = q.dropping ∧ q'.dropNext = q.dropNext := by
  obtain ⟨base, hbase, -, -, hcases⟩ := dodequeueLogged_cases h
  have hqueue := (dequeue_ok hbase).1
  have hhead : HeadDroppable q now ↔ Stands q now d.r.p base ∧ q.firstAboveTime ≠ 0 ∧ q.firstAboveTime ≤ now := by
    unfold HeadDroppable Stands
    rw [hqueue, dequeue_bytes hbase]
    constructor
    · rintro ⟨p, rest, heq, hne, hwaited, hstays, hdue⟩
      cases heq
      exact ⟨⟨hne, hwaited, hstays⟩, hdue⟩
    · rintro ⟨⟨hne, hwaited, hstays⟩, hdue⟩
      exact ⟨_, _, rfl, hne, hwaited, hstays, hdue⟩
  rw [hhead]
  rcases hcases with ⟨hstands, hno, rfl⟩ | ⟨-, hzero, hno, rfl⟩ | ⟨hstands, hset, hok, rfl⟩
  · refine ⟨?_, rfl, rfl⟩
    rw [hno]
    exact ⟨fun hfalse => absurd hfalse Bool.false_ne_true, fun hdrop => absurd hdrop.1 hstands⟩
  · refine ⟨?_, rfl, rfl⟩
    rw [hno]
    exact ⟨fun hfalse => absurd hfalse Bool.false_ne_true, fun hdrop => absurd hzero hdrop.2.1⟩
  · refine ⟨?_, rfl, rfl⟩
    rw [hok]
    exact ⟨fun hdue => ⟨hstands, hset, hdue⟩, fun hdrop => hdrop.2.2⟩

theorem dropLoopLogged_nil_iff {sqrtQuotient : Nat → Nat → Nat} {now packets : Nat} {q q' : CODELPacketQueue}
    {ds : List Dodequeued} (h : dropLoopLogged sqrtQuotient now packets q = .ok (ds, q')) :
    ds = [] ↔ ¬ (now ≥ q.dropNext ∧ q.dropping = true) := by
  cases packets with
  | zero =>
    unfold dropLoopLogged at h
    split at h
    · cases h
    · rename_i hcond
      cases h
      exact ⟨fun _ => hcond, fun _ => rfl⟩
  | succ packets =>
    unfold dropLoopLogged at h
    split at h
    · rename_i hcond
      obtain ⟨⟨d, q₁⟩, -, h⟩ := Run.bind_ok h
      obtain ⟨⟨ds', q₂⟩, -, h⟩ := Run.bind_ok h
      cases h
      exact ⟨fun hnil => absurd hnil (List.cons_ne_nil _ _), fun hnot => absurd hcond hnot⟩
    · rename_i hcond
      cases h
      exact ⟨fun _ => hcond, fun _ => rfl⟩

/-- A call returns its first packet, and pops no other exactly when it stops there. -/
theorem dequeueLogged_after {sqrtQuotient : Nat → Nat → Nat} {now : Nat} {q q' : CODELPacketQueue} {o : Dequeued}
    (h : q.dequeueLogged sqrtQuotient now = .ok (o, q')) : o.before = [] ∧ (o.after = [] ↔ StopsAtFirst q now) := by
  unfold dequeueLogged at h
  obtain ⟨⟨d, q₁⟩, hd, h⟩ := Run.bind_ok h
  obtain ⟨hhead, hdropping, hnext⟩ := dodequeueLogged_head hd
  unfold StopsAtFirst
  rw [← hhead, ← hdropping, ← hnext]
  dsimp only at h
  split at h
  · rename_i hon
    obtain ⟨⟨ds, q₂⟩, hl, h⟩ := Run.bind_ok h
    cases h
    refine ⟨rfl, ?_⟩
    show ds = [] ↔ _
    rw [dropLoopLogged_nil_iff hl]
    cases d.r.okToDrop with
    | true => simp [hon]
    | false => simp
  · rename_i hoff
    split at h
    · rename_i hok
      obtain ⟨⟨d₂, q₂⟩, -, h⟩ := Run.bind_ok h
      cases h
      exact ⟨rfl, by simp [hoff, hok]⟩
    · rename_i hok
      cases h
      exact ⟨rfl, by simp [hok]⟩

/-- In every run, for each call of `dequeue` that returns: the packets popped and not returned were all let drop and
the one returned is the last one popped, exactly when the call stops at its first packet. -/
theorem forwards_last_iff (sqrtQuotient : Nat → Nat → Nat) (q : CODELPacketQueue) (ops : List Op) :
    Run.Along (stepLogged sqrtQuotient) (fun q op => ∀ clock o q', op = .dequeue clock →
      stepLogged sqrtQuotient q op = .ok (some o, q') →
      ((∀ d ∈ o.before ++ o.after, d.r.okToDrop = true) ∧ o.after = [] ↔ StopsAtFirst q clock)) q ops := by
  refine Run.along_of_forall (fun q op _ clock o q' hop hs => ?_) q
  subst hop
  unfold stepLogged at hs
  obtain ⟨⟨o', q₁⟩, hd, hs⟩ := Run.bind_ok hs
  cases hs
  obtain ⟨hbefore, hafter⟩ := dequeueLogged_after hd
  rw [← hafter, hbefore]
  refine ⟨fun hright => hright.2, fun hnil => ⟨fun d hmem => ?_, hnil⟩⟩
  rw [hnil] at hmem
  cases hmem

/-- The second call returns its first packet and discards the one behind it, which was not let drop: it had waited two
milliseconds of a target of five. -/
theorem forwards_first : ∃ q os o d q', ofArgs 100 0 5 10 = .ok q ∧
    Run.steps (stepLogged fun interval _ => interval) q twoOldTwoNew = .ok (os ++ [some o], q') ∧
    o.after = [d] ∧ d.r.okToDrop = false ∧ d.now - d.r.p.arrivalTime < 5 := by
  refine ⟨{ base := ⟨100, 0, 0, 0, []⟩, target := 5, interval := 10 },
    [none, none, some ⟨[], ⟨10, ⟨packetAt 0, false⟩, [packetAt 0]⟩, []⟩, none, none],
    ⟨[], ⟨20, ⟨packetAt 0, true⟩, [packetAt 18, packetAt 18]⟩, [⟨20, ⟨packetAt 18, false⟩, [packetAt 18]⟩]⟩,
    ⟨20, ⟨packetAt 18, false⟩, [packetAt 18]⟩,
    { base := ⟨100, 0, 1600, 1, [packetAt 18]⟩, target := 5, interval := 10, firstAboveTime := 0,
      dropNext := 30, count := 1,
      lastcount := 1, dropping := true }, rfl, ?_, rfl, rfl, ?_⟩
  · decide +kernel
  · simp

end CODELPacketQueue

end AbcMahimahi.Packet
