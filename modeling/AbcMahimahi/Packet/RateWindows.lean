/-
The rate windows of the ABC router. After an ECT packet has left, each window is the recorded times of
the last 20 ms, after one older record when no time in the window is in the past. The link window
records all that the dequeue window does, so the observed dequeue rate never exceeds the capacity.
-/
import AbcMahimahi.Lib.SlidingWindow
import AbcMahimahi.Packet.Tokens
import Mathlib.Data.List.ReduceOption

namespace AbcMahimahi.Packet.CELLULARPacketQueue

open DroppingPacketQueue SlidingWindow

/-! ## The windows prune lazily -/

/-- More than 20 ms ago. -/
def old (now h : Nat) : Bool := now - h > 20

theorem horizon : Horizon old where
  down now a b hab h := by
    simp only [old, decide_eq_true_eq] at h ⊢
    omega
  later now now' a hle h := by
    simp only [old, decide_eq_true_eq] at h ⊢
    omega
  past now a h := by
    simp only [old, decide_eq_true_eq] at h
    omega

/-- The subtraction of the loop does not wrap around while no time is in the future. -/
theorem prune_eq {now : Nat} (hnow : now < 2 ^ 32) : ∀ {window : List Nat}, (∀ h ∈ window, h ≤ now) →
    prune now window = SlidingWindow.prune old now window
  | [], _ => rfl
  | [_], _ => rfl
  | t₀ :: t₁ :: rest, hpast => by
    have hsub : sub32 now t₀ = now - t₀ := sub32_eq (hpast t₀ (List.mem_cons_self ..)) hnow
    have hcond : (sub32 now t₀ > 20 ∧ now > t₁) ↔ (old now t₀ = true ∧ t₁ < now) := by
      rw [hsub]
      simp only [old, decide_eq_true_eq, gt_iff_lt]
    unfold prune SlidingWindow.prune
    simp only [hcond]
    rw [prune_eq hnow (fun h hh => hpast h (List.mem_cons_of_mem _ hh))]

/-! ## What a run records -/

/-- What the clock reads in a `dequeue`. -/
def Op.clock : Op → Option Nat
  | .enqueue _ => none
  | .dequeue clock => some clock

/-- The time a call records in `dq_queue`: that of an ECT packet leaving. -/
def dqRecord : Op → Option Left → Option Nat
  | .dequeue clock, some left => if left.popped.any (ecn ·.contents ≠ iptosEcnNotEct) then some clock else none
  | _, _ => none

/-- The time a call records in `link_capacity_queue`: also that of an opportunity on an empty queue. -/
def capacityRecord : Op → Option Left → Option Nat
  | .dequeue clock, some left => if left.popped.all (ecn ·.contents ≠ iptosEcnNotEct) then some clock else none
  | _, _ => none

/-- The times a run records, after the one every window starts with. -/
def dqTimes (ops : List Op) (outs : List (Option Left)) : List Nat :=
  0 :: (List.zipWith dqRecord ops outs).reduceOption

def capacityTimes (ops : List Op) (outs : List (Option Left)) : List Nat :=
  0 :: (List.zipWith capacityRecord ops outs).reduceOption

/-- At `last` the two windows of a router keep what matters of what they recorded. -/
structure Windows (last : Nat) (dqs capacities : List Nat) (q : CELLULARPacketQueue) : Prop where
  dq : SlidingWindow.Kept old last dqs q.dqQueue
  capacity : SlidingWindow.Kept old last capacities q.linkCapacityQueue
  sub : dqs.Sublist capacities

theorem Windows.base {last : Nat} {dqs capacities : List Nat} {q : CELLULARPacketQueue} (h : Windows last dqs capacities q)
    (base : DroppingPacketQueue) : Windows last dqs capacities { q with base := base } := ⟨h.dq, h.capacity, h.sub⟩

theorem Windows.wait {last now : Nat} {dqs capacities : List Nat} {q : CELLULARPacketQueue} (h : Windows last dqs capacities q)
    (hle : last ≤ now) : Windows now dqs capacities q := ⟨h.dq.wait horizon hle, h.capacity.wait horizon hle, h.sub⟩

/-- What a window records with pruning, when no time is in the future. -/
theorem record_spec {last now : Nat} {times window : List Nat} (h : SlidingWindow.Kept old last times window) (hle : last ≤ now)
    (hnow : now < 2 ^ 32) : SlidingWindow.Kept old now (times ++ [now]) (record now window) ∧
      record now window = SlidingWindow.window old now (times ++ [now]) := by
  have hpast : ∀ a ∈ window, a ≤ now := by
    obtain ⟨dropped, hsplit, -, -⟩ := h.split
    intro a ha
    exact (h.bound a (by rw [hsplit]; exact List.mem_append_right _ ha)).trans hle
  unfold record
  rw [prune_eq hnow hpast]
  exact h.record horizon hle

/-- A call on the queue. When it pops an ECT packet, both windows are the windows of what was
recorded. -/
theorem Windows.step {last now : Nat} {dqs capacities : List Nat} {q q' : CELLULARPacketQueue} {out : Option Left}
    (h : Windows last dqs capacities q) (hle : last ≤ now) (hnow : now < 2 ^ 32)
    (hs : q.step (.dequeue now) = .ok (out, q')) :
    Windows now (dqs ++ (dqRecord (.dequeue now) out).toList) (capacities ++ (capacityRecord (.dequeue now) out).toList) q' ∧
      ∀ left p, out = some left → left.popped = some p → ecn p.contents ≠ iptosEcnNotEct →
        q'.dqQueue = window old now (dqs ++ [now]) ∧ q'.linkCapacityQueue = window old now (capacities ++ [now]) := by
  obtain ⟨⟨ret, q₁⟩, h1, hs⟩ := Run.bind_ok hs
  cases hs
  have hclock : u32 now = now := u32_eq hnow
  obtain ⟨hnil, -, rfl⟩ | ⟨p, base, hd, ⟨hect, -, rfl⟩ | ⟨hect, h2⟩⟩ := dequeue_cases h1
  · -- an opportunity on an empty queue
    rw [hnil, hclock]
    refine ⟨⟨?_, h.capacity.push horizon hle, ?_⟩, fun left p hl hp => ?_⟩
    · simpa [dqRecord] using h.dq.wait horizon hle
    · simpa [dqRecord, capacityRecord] using h.sub.trans (List.sublist_append_left _ _)
    · cases hl
      cases hp
  · -- a Not-ECT packet
    have hhead : q.base.internalQueue.head? = some p := by rw [(dequeue_ok hd).1]; rfl
    rw [hhead]
    refine ⟨?_, fun left p' hl hp hne => ?_⟩
    · simpa [dqRecord, capacityRecord, hect] using (h.wait hle).base base
    · cases hl
      cases hp
      exact absurd hect hne
  · -- an ECT packet
    have hhead : q.base.internalQueue.head? = some p := by rw [(dequeue_ok hd).1]; rfl
    have hq : q' = _ := congrArg Prod.snd h2
    obtain ⟨hdq, hdqw⟩ := record_spec h.dq hle hnow
    obtain ⟨hcap, hcapw⟩ := record_spec h.capacity hle hnow
    rw [hhead, hq, spend_queue, hclock]
    refine ⟨?_, fun _ _ _ _ _ => ⟨hdqw, hcapw⟩⟩
    simp only [dqRecord, capacityRecord, Option.any_some, Option.all_some, ne_eq, hect, not_false_eq_true, decide_true,
      if_true, Option.toList_some]
    exact ⟨hdq, hcap, h.sub.append (List.Sublist.refl _)⟩

/-! ## Runs -/

theorem windows_initial {q : CELLULARPacketQueue} (h : Initial q) : Windows 0 [0] [0] q := by
  obtain ⟨packets, bytes, qdelayRef, delta, h⟩ := h
  unfold ofArgs at h
  obtain ⟨base, -, h⟩ := Run.bind_ok h
  split at h
  · cases h
  · cases h
    have hkept : SlidingWindow.Kept old 0 [0] [0] := ⟨by simp, by simp, by simp, [], rfl, by simp, by simp⟩
    exact ⟨hkept, hkept, List.Sublist.refl _⟩

theorem Windows.run : ∀ {ops : List Op} {last now : Nat} {dqs capacities : List Nat} {q q' : CELLULARPacketQueue}
    {outs : List (Option Left)}, Windows last dqs capacities q → (last :: ops.filterMap Op.clock ++ [now]).Pairwise (· ≤ ·) →
    now < 2 ^ 32 → Run.steps CELLULARPacketQueue.step q ops = .ok (outs, q') →
    ∃ last', last' ≤ now ∧ Windows last' (dqs ++ (List.zipWith dqRecord ops outs).reduceOption)
      (capacities ++ (List.zipWith capacityRecord ops outs).reduceOption) q'
  | [], last, now, dqs, capacities, q, q', outs, h, hclocks, _, hrun => by
    cases hrun
    refine ⟨last, (List.pairwise_cons.1 hclocks).1 now (by simp), ?_⟩
    rwa [List.zipWith_nil_left, List.zipWith_nil_left, List.reduceOption_nil, List.append_nil, List.append_nil]
  | op :: ops, last, now, dqs, capacities, q, q', outs, h, hclocks, hnow, hrun => by
    obtain ⟨out, q₁, outs', h1, hrest, rfl⟩ := Run.steps_cons_ok hrun
    have hzip : ∀ f : Op → Option Left → Option Nat, (List.zipWith f (op :: ops) (out :: outs')).reduceOption =
        (f op out).toList ++ (List.zipWith f ops outs').reduceOption := by
      intro f
      rw [List.zipWith_cons_cons]
      cases f op out with
      | none => rfl
      | some t => rfl
    rw [hzip, hzip, ← List.append_assoc, ← List.append_assoc]
    cases op with
    | enqueue p =>
      obtain ⟨rfl, base, rfl⟩ := step_enqueue h1
      simp only [dqRecord, capacityRecord, Option.toList_none, List.append_nil]
      exact Windows.run (h.base base) hclocks hnow hrest
    | dequeue clock =>
      rw [List.filterMap_cons_some (show Op.clock (.dequeue clock) = some clock from rfl)] at hclocks
      obtain ⟨hfirst, hclocks⟩ := List.pairwise_cons.1 hclocks
      have hlast := (List.pairwise_cons.1 hclocks).1 now (by simp)
      exact Windows.run (h.step (hfirst clock (by simp)) (by omega) h1).1 hclocks hnow hrest

theorem record_length (now : Nat) {window : List Nat} (h : window ≠ []) : 2 ≤ (record now window).length := by
  have hlen : 0 < (prune now window).length := List.length_pos_iff.2 (prune_ne_nil now h)
  unfold record
  rw [List.length_append, List.length_singleton]
  omega

theorem rate_le {window window' : List Nat} (h : window.length ≤ window'.length) : rate window ≤ rate window' := by
  have hcast : ((window.length - 1 : Nat) : ℚ) ≤ (window'.length - 1 : Nat) := by exact_mod_cast Nat.sub_le_sub_right h 1
  unfold rate
  linarith

/-- In every run with clock values that never decrease below `2 ^ 32`, after every `dequeue` of an
ECT packet: each window is exactly the recorded times of the last 20 ms, after the latest older one
when none of them is in the past; both hold at least two times, no divisor is zero, and the
observed dequeue rate is at most the link capacity. -/
theorem rate_windows {q₀ q q' : CELLULARPacketQueue} {ops : List Op} {outs : List (Option Left)} {now : Nat} {left : Left}
    {p : QueuedPacket} (hinit : Initial q₀) (hrun : Run.steps step q₀ ops = .ok (outs, q))
    (hlast : q.step (.dequeue now) = .ok (some left, q')) (hpopped : left.popped = some p)
    (hect : ecn p.contents ≠ iptosEcnNotEct) (hclocks : (ops.filterMap Op.clock ++ [now]).Pairwise (· ≤ ·))
    (hnow : now < 2 ^ 32) :
    q'.dqQueue = window old now (dqTimes ops outs ++ [now]) ∧
      q'.linkCapacityQueue = window old now (capacityTimes ops outs ++ [now]) ∧
      2 ≤ q'.dqQueue.length ∧ 2 ≤ q'.linkCapacityQueue.length ∧
      0 < rate q'.dqQueue ∧ 0 < rate q'.linkCapacityQueue ∧ 0 < q'.delta ∧
      rate q'.dqQueue ≤ rate q'.linkCapacityQueue := by
  have hstart : (0 :: ops.filterMap Op.clock ++ [now]).Pairwise (· ≤ ·) :=
    List.pairwise_cons.2 ⟨fun _ _ => Nat.zero_le _, hclocks⟩
  obtain ⟨last, hle, hwindows⟩ := (windows_initial hinit).run hstart hnow hrun
  obtain ⟨-, hstep⟩ := hwindows.step hle hnow hlast
  obtain ⟨hdq, hcapacity⟩ := hstep left p rfl hpopped hect
  have hreachable : Run.Reachable step Initial q := ⟨q₀, ops, outs, hinit, hrun⟩
  have hready : Ready q' := (ready_of_reachable hreachable).step hlast
  obtain ⟨-, hdqRecord⟩ := record_spec hwindows.dq hle hnow
  obtain ⟨-, hcapacityRecord⟩ := record_spec hwindows.capacity hle hnow
  -- what left is among the opportunities, so its window is no longer than theirs
  have hlonger : q'.dqQueue.length ≤ q'.linkCapacityQueue.length := by
    rw [hdq, hcapacity]
    exact window_length_le (hwindows.sub.append (List.Sublist.refl _))
  refine ⟨hdq, hcapacity, ?_, ?_, ?_, ?_, hready.delta, rate_le hlonger⟩
  · rw [hdq, ← hdqRecord]
    exact record_length now hwindows.dq.nonempty
  · rw [hcapacity, ← hcapacityRecord]
    exact record_length now hwindows.capacity.nonempty
  · rw [hdq, ← hdqRecord]
    exact rate_record_pos now hwindows.dq.nonempty
  · rw [hcapacity, ← hcapacityRecord]
    exact rate_record_pos now hwindows.capacity.nonempty

/-- An ECT packet leaves at 30 ms, an opportunity finds the queue empty at 40 ms, and another packet
leaves at 45 ms. -/
theorem rate_windows_small : ∃ outs q left q',
    Run.steps step small [.enqueue bareEct, .dequeue 30, .dequeue 40, .enqueue bareEct] = .ok (outs, q) ∧
    q.step (.dequeue 45) = .ok (some left, q') ∧ 2 ≤ q'.dqQueue.length ∧
      rate q'.dqQueue ≤ rate q'.linkCapacityQueue := by
  have hinit : Initial small := ⟨10, 0, 50, 100, rfl⟩
  obtain ⟨outs, q, left, q', hrun, hlast, hpopped⟩ : ∃ outs q left q',
      Run.steps step small [.enqueue bareEct, .dequeue 30, .dequeue 40, .enqueue bareEct] = .ok (outs, q) ∧
      q.step (.dequeue 45) = .ok (some left, q') ∧ left.popped = some bareEct := ⟨_, _, _, _, rfl, rfl, rfl⟩
  obtain ⟨-, -, hlength, -, -, -, -, hle⟩ :=
    rate_windows hinit hrun hlast hpopped (by decide) (by decide) (by decide)
  exact ⟨outs, q, left, q', hrun, hlast, hlength, hle⟩

end AbcMahimahi.Packet.CELLULARPacketQueue
