/-
The queues that average over windows of times (RCP, XCP and VCP), watched: a call that reads a window, or
takes a time off it, where there is none fails, and so does one that divides by zero. A queue stays
consistent where no call that is watched differs from the call.
-/
import AbcMahimahi.Packet.Dropping
import AbcMahimahi.Lib.Run

namespace AbcMahimahi.Packet

/-! ## What is watched -/

def readWatched {α : Type} : Option α → Except Hazard α
  | some a => .ok a
  | none => .error .outOfBounds

/-- `prune`, where no empty window is read. -/
def pruneWatched (limit now : Nat) (window : List Nat) : Except Hazard (List Nat) :=
  readWatched (SlidingWindow.pruneWatched (fun now t => decide (sub32 now t > limit)) now window)

/-- The loop that takes a value off for each time. -/
def pruneBothWatched (limit now : Nat) (window values : List Nat) : Except Hazard (List Nat × List Nat) :=
  readWatched (SlidingWindow.pruneBothWatched (fun now t => decide (sub32 now t > limit)) now window values)

/-- `x / y` on doubles. -/
def divWatched (x y : ℚ) : Except Hazard ℚ := if y = 0 then .error .divisionByZero else .ok (x / y)

/-- `x / y` on integers. -/
def quotWatched (x y : Nat) : Except Hazard Nat := if y = 0 then .error .divisionByZero else .ok (x / y)

theorem pruneWatched_ok {limit now : Nat} {window : List Nat} (h : window ≠ []) :
    pruneWatched limit now window = .ok (prune limit now window) := by
  unfold pruneWatched
  rw [SlidingWindow.pruneWatched_eq h]
  rfl

theorem pruneBothWatched_ok {limit now : Nat} {window values : List Nat} (h : window ≠ [])
    (hlen : window.length = values.length) :
    pruneBothWatched limit now window values =
      .ok (prune limit now window, pruneWith window (prune limit now window) values) := by
  unfold pruneBothWatched
  rw [SlidingWindow.pruneBothWatched_eq h hlen]
  rfl

theorem divWatched_ok {x y : ℚ} (h : y ≠ 0) : divWatched x y = .ok (x / y) := if_neg h

theorem quotWatched_ok {x y : Nat} (h : y ≠ 0) : quotWatched x y = .ok (x / y) := if_neg h

theorem prune_ne_nil_of {limit now : Nat} {window : List Nat} (h : window ≠ []) : prune limit now window ≠ [] :=
  SlidingWindow.prune_ne_nil h

/-- A window to which a time was added after pruning has two at least. -/
theorem two_le_recorded {limit now : Nat} {window : List Nat} (h : window ≠ []) :
    2 ≤ (prune limit now window ++ [now]).length := by
  have hpos := List.length_pos_iff.2 (@prune_ne_nil_of limit now window h)
  rw [List.length_append, List.length_singleton]
  omega

/-- The values stay as many as the times. -/
theorem length_recorded {limit now : Nat} {window values : List Nat} (h : window.length = values.length) (v : Nat) :
    (prune limit now window ++ [now]).length = (pruneWith window (prune limit now window) values ++ [v]).length := by
  have hlen : (pruneWith window (prune limit now window) values).length = (prune limit now window).length :=
    SlidingWindow.length_drop_prune h
  rw [List.length_append, List.length_append, hlen]
  rfl

theorem le_recorded {window kept values : List Nat} {bound v : Nat} (h : ∀ e ∈ values, bound ≤ e) (hv : bound ≤ v) :
    ∀ e ∈ pruneWith window kept values ++ [v], bound ≤ e := by
  intro e he
  rcases List.mem_append.1 he with he | he
  · exact h e (List.mem_of_mem_drop he)
  · rw [List.mem_singleton.1 he]
    exact hv

/-- A round-trip time, where no sum wraps around. -/
theorem le_roundTrip {now arrival : Nat} (hnow : now < 2 ^ 32) (harrival : arrival ≤ now)
    (hwaited : 100 + (now - arrival) < 2 ^ 32) : 100 ≤ u32 (100 + sub64 now arrival) := by
  rw [sub64_eq harrival (by omega), u32_eq hwaited]
  omega

/-- A mean is no less than a bound on what it is over. -/
theorem le_mean {l : List Nat} {bound n : Nat} (hn : n = l.length) (hpos : 0 < n) (h : ∀ e ∈ l, bound ≤ e)
    (hsum : l.sum < 2 ^ 32) : bound ≤ u32 l.sum / n := by
  have hle := List.card_nsmul_le_sum l bound h
  rw [smul_eq_mul, Nat.mul_comm, ← hn] at hle
  rw [u32_eq hsum]
  exact (Nat.le_div_iff_mul_le hpos).2 hle

/-! ## The queue underneath -/

theorem admit_internalQueue {base base' : DroppingPacketQueue} {p : QueuedPacket} {admitted : Bool}
    (h : base.admission p = .ok (admitted, base')) :
    base'.internalQueue = base.internalQueue ∨ base'.internalQueue = base.internalQueue ++ [p] := by
  unfold DroppingPacketQueue.admission at h
  obtain ⟨g, -, h⟩ := Run.bind_ok h
  split at h
  · cases h
    exact Or.inl rfl
  · obtain ⟨b, -, h⟩ := Run.bind_ok h
    obtain ⟨_, -, h⟩ := Run.bind_ok h
    cases h
    exact Or.inr rfl

/-- No packet in the queue came after the time given. -/
def Past (last : Nat) (base : DroppingPacketQueue) : Prop := ∀ p ∈ base.internalQueue, p.arrivalTime ≤ last

theorem past_ofArgs {packets bytes : Nat} {base : DroppingPacketQueue} (h : DroppingPacketQueue.ofArgs packets bytes = .ok base) :
    Past 0 base := by
  intro p hp
  rw [(DroppingPacketQueue.rep_ofArgs h).2.1] at hp
  exact absurd hp List.not_mem_nil

theorem Past.admission {last clock : Nat} {base base' : DroppingPacketQueue} {p : QueuedPacket} {admitted : Bool}
    (h : Past last base) (hle : last ≤ clock) (hp : p.arrivalTime ≤ clock) (ha : base.admission p = .ok (admitted, base')) :
    Past clock base' := by
  intro p' hp'
  rcases admit_internalQueue ha with heq | heq
  · rw [heq] at hp'
    exact (h p' hp').trans hle
  · rw [heq] at hp'
    rcases List.mem_append.1 hp' with hp' | hp'
    · exact (h p' hp').trans hle
    · rw [List.mem_singleton.1 hp']
      exact hp

theorem Past.dequeue {last clock : Nat} {base base' : DroppingPacketQueue} {p : QueuedPacket} (h : Past last base)
    (hle : last ≤ clock) (hd : base.dequeue = .ok (p, base')) : p.arrivalTime ≤ clock ∧ Past clock base' := by
  have hqueue := (DroppingPacketQueue.dequeue_ok hd).1
  refine ⟨(h p ?_).trans hle, fun p' hp' => (h p' ?_).trans hle⟩
  · rw [hqueue]
    exact List.mem_cons_self ..
  · rw [hqueue]
    exact List.mem_cons_of_mem _ hp'

/-! ## One call -/

theorem enqueue_step {Q : Type} {x : Except Hazard Q} {y : Except Fault Q} {P : Q → Prop} (h : x = watched y)
    (hok : ∀ q, y = .ok q → P q) :
    (do let q ← x; pure ((none : Option QueuedPacket), q)) = (do let q ← watched y; pure (none, q)) ∧
      ∀ out q, (do let q ← watched y; pure ((none : Option QueuedPacket), q)) = .ok (out, q) → P q := by
  rw [h]
  refine ⟨rfl, fun out q hs => ?_⟩
  obtain ⟨q', hy, hs⟩ := Run.bind_ok hs
  cases hs
  exact hok _ (watched_eq_ok hy)

theorem dequeue_step {Q : Type} {x y : Except Hazard (QueuedPacket × Q)} {P : Q → Prop} (h : x = y) (hok : ∀ ret q, y = .ok (ret, q) → P q) :
    (do let (ret, q) ← x; pure (some ret, q)) = (do let (ret, q) ← y; pure (some ret, q)) ∧
      ∀ out q, (do let (ret, q) ← y; pure (some ret, q)) = .ok (out, q) → P q := by
  rw [h]
  refine ⟨rfl, fun out q hs => ?_⟩
  obtain ⟨⟨ret, q'⟩, hy, hs⟩ := Run.bind_ok hs
  cases hs
  exact hok ret _ hy

/-! ## Runs -/

/-- A call on a queue, with what it reads from the clock. -/
inductive Call where
  | enqueue (p : QueuedPacket) (clock : Nat)
  | dequeue (clock : Nat)

def Call.clock : Call → Nat
  | .enqueue _ clock => clock
  | .dequeue clock => clock

/-- The clock of 32 bits does not go back, and it is not before the arrival of the packet. -/
structure Call.Timed (last : Nat) (call : Call) : Prop where
  later : last ≤ call.clock
  fits : call.clock < 2 ^ 32
  arrival : ∀ p clock, call = .enqueue p clock → p.arrivalTime ≤ clock

def Timed : Nat → List Call → Prop
  | _, [] => True
  | last, call :: calls => call.Timed last ∧ Timed call.clock calls

/-- A discipline that averages over windows. -/
class AveragingQueue (Q : Type) where
  /-- As constructed. -/
  Initial : Q → Prop
  base : Q → DroppingPacketQueue
  /-- One call and the packet it returns. -/
  step : Q → Call → Except Hazard (Option QueuedPacket × Q)
  /-- The same call, watched. -/
  stepWatched : Q → Call → Except Hazard (Option QueuedPacket × Q)
  /-- What the next `dequeue` adds up has 32 bits. -/
  Fits : Q → Nat → Prop
  /-- What holds of the windows between the calls. -/
  Consistent : Q → Prop

variable {Q : Type} [AveragingQueue Q]

open AveragingQueue

/-- A call meets a consistent queue, and watching it makes no difference. -/
structure Safe (q : Q) (call : Call) : Prop where
  consistent : Consistent q
  watched : stepWatched q call = step q call

def Call.Fits (q : Q) : Call → Prop
  | .enqueue _ _ => True
  | .dequeue clock => AveragingQueue.Fits q clock

variable (Q) in
/-- In every run each call is safe, and what it leaves is consistent. -/
def StaysConsistent : Prop :=
  ∀ (q₀ : Q) (calls : List Call), Initial q₀ → Timed 0 calls → Run.Along step Call.Fits q₀ calls →
    Run.Along step Safe q₀ calls ∧ ∀ outs q, Run.steps step q₀ calls = .ok (outs, q) → Consistent q

structure Settled (last : Nat) (q : Q) : Prop where
  consistent : Consistent q
  past : Past last (base q)

/-- What a call does is said once. -/
def Steps (Q : Type) [AveragingQueue Q] : Prop :=
  ∀ (last : Nat) (q : Q) (call : Call), Settled last q → call.Timed last → call.Fits q →
    stepWatched q call = step q call ∧ ∀ out q', step q call = .ok (out, q') → Settled call.clock q'

theorem run_settled (hsteps : Steps Q) : ∀ {calls : List Call} {last : Nat} {q : Q}, Settled last q → Timed last calls →
    Run.Along step Call.Fits q calls →
    Run.Along step Safe q calls ∧ ∀ outs q', Run.steps step q calls = .ok (outs, q') → Consistent q'
  | [], _, _, h, _, _ => by
    refine ⟨trivial, fun outs q' hrun => ?_⟩
    cases hrun
    exact h.consistent
  | call :: calls, last, q, h, ⟨htimed, hrest⟩, ⟨hfits, halong⟩ => by
    obtain ⟨hwatched, hnext⟩ := hsteps last q call h htimed hfits
    have hlater := fun out q' hs => run_settled hsteps (hnext out q' hs) hrest (halong out q' hs)
    refine ⟨⟨⟨h.consistent, hwatched⟩, fun out q' hs => (hlater out q' hs).1⟩, fun outs q' hrun => ?_⟩
    obtain ⟨out, q₁, outs', hs, hrest', -⟩ := Run.steps_cons_ok hrun
    exact (hlater out q₁ hs).2 outs' q' hrest'

end AbcMahimahi.Packet
