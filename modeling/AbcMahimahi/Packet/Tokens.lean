/-
The token accounting of the ABC router: each `dequeue` is one step of a token bucket with cap 5
and a credit of at most 0.49, so the bucket's bounds hold of every run. The credit stays below
half because the target rate is at most 0.98 of the observed one, whatever the two windows hold,
as long as they hold something.
-/
import AbcMahimahi.Lib.TokenBucket
import AbcMahimahi.Packet.Cellular

namespace AbcMahimahi.Packet.CELLULARPacketQueue

open DroppingPacketQueue TokenBucket

/-! ## The invariant -/

/-- What every reachable router has: tokens, a positive `delta`, windows that are not empty. -/
structure Ready (q : CELLULARPacketQueue) : Prop where
  tokens : 0 ≤ q.tokens
  delta : 0 < q.delta
  limit : q.tokenLimit = 5
  link : q.linkCapacityQueue ≠ []
  dq : q.dqQueue ≠ []

theorem prune_ne_nil (now : Nat) : ∀ {window : List Nat}, window ≠ [] → prune now window ≠ []
  | [], h => absurd rfl h
  | [_], _ => by simp [prune]
  | t₀ :: t₁ :: rest, _ => by
    unfold prune
    split
    · exact prune_ne_nil now (by simp)
    · simp

/-- A window holds at least two times when a rate is read off it. -/
theorem rate_record_pos (now : Nat) {window : List Nat} (h : window ≠ []) : 0 < rate (record now window) := by
  have hlen : 0 < (prune now window).length := List.length_pos_iff.2 (prune_ne_nil now h)
  have hcast : (0 : ℚ) < ((record now window).length - 1 : Nat) := by
    unfold record
    exact_mod_cast (by simp; omega)
  unfold rate
  linarith

theorem creditProb_bounds {q : CELLULARPacketQueue} (hdelta : 0 < q.delta) (hlink : 0 < rate q.linkCapacityQueue)
    (hdq : 0 < rate q.dqQueue) (sizePackets : Nat) :
    0 ≤ q.creditProb sizePackets ∧ q.creditProb sizePackets ≤ 0.49 := by
  unfold creditProb
  refine ⟨le_min (by norm_num) (le_max_left _ _), le_trans (min_le_right _ _) (max_le (by norm_num) ?_)⟩
  -- the queueing delay only ever lowers the target
  have hdelay : rate q.linkCapacityQueue / q.delta *
      min 0 (q.qdelayRef - (sizePackets + 1 : Nat) / rate q.linkCapacityQueue) ≤ 0 :=
    mul_nonpos_of_nonneg_of_nonpos (le_of_lt (div_pos hlink hdelta)) (min_le_left _ _)
  have htarget : (0.98 * rate q.dqQueue + rate q.linkCapacityQueue / q.delta *
      min 0 (q.qdelayRef - (sizePackets + 1 : Nat) / rate q.linkCapacityQueue)) / rate q.dqQueue ≤ 0.98 := by
    rw [div_le_iff₀ hdq]; linarith
  linarith

/-! ## One call is one step of the bucket -/

/-- The event of a `dequeue`, seen from outside. -/
def Left.event (l : Left) : Event :=
  match l.popped with
  | none => .idle
  | some p =>
    if ecn p.contents = iptosEcnNotEct then .pass
    else if ecn l.returned.contents ≠ iptosEcnCe then .spend
    else if ecn p.contents = iptosEcnCe then .earn
    else .refuse

theorem ecn_or_ce (f : UInt8) : (f ||| iptosEcnCe) &&& iptosEcnMask = iptosEcnCe := by
  have h : ∀ b : BitVec 8, (b ||| 3) &&& 3 = 3 := by decide
  exact UInt8.toBitVec_inj.1 (h f.toBitVec)

theorem tos_markCe {contents : Bytes} (h : 24 ≤ contents.length) : tos (markCe contents) = tos contents ||| iptosEcnCe := by
  have h5 : 5 < contents.length := by omega
  simp [tos, markCe, setCheck, h5]

theorem ecn_markCe {contents : Bytes} (h : 24 ≤ contents.length) : ecn (markCe contents) = iptosEcnCe := by
  unfold ecn
  rw [tos_markCe h, ecn_or_ce]

/-- What `dequeue` does when it returns. -/
theorem dequeue_cases {q q' : CELLULARPacketQueue} {clock : Nat} {ret : QueuedPacket}
    (h : q.dequeue clock = .ok (ret, q')) :
    (q.base.internalQueue = [] ∧ ret = ⟨Bytes.ascii "arbit", 0⟩ ∧ q' =
      { q with linkCapacityQueue := q.linkCapacityQueue ++ [u32 clock], tokens := q.tokens + 0.49 }) ∨
    ∃ p base, q.base.dequeue = .ok (p, base) ∧ (ecn p.contents = iptosEcnNotEct ∧ ret = p ∧ q' = { q with base := base } ∨
      ecn p.contents ≠ iptosEcnNotEct ∧ (ret, q') = CELLULARPacketQueue.spend
        { ({ q with base := base }.recordDequeue (u32 clock)) with tokens := q.tokens + q.nextCredit clock } p) := by
  unfold dequeue at h
  simp only at h
  split at h
  · rename_i he
    cases h
    exact Or.inl ⟨by simpa [DroppingPacketQueue.empty] using he, rfl, rfl⟩
  · obtain ⟨⟨p, base⟩, hd, h⟩ := Run.bind_ok h
    right
    refine ⟨p, base, hd, ?_⟩
    simp only at h
    split at h
    · rename_i hect
      cases h
      exact Or.inl ⟨hect, rfl, rfl⟩
    · rename_i hect
      obtain ⟨n, hn, h⟩ := Run.bind_ok h
      obtain ⟨u, -, hn⟩ := Run.bind_ok hn
      cases hn
      cases h
      have hcredit : q.nextCredit clock =
          ({ q with base := base }.recordDequeue (u32 clock)).creditProb base.queueSizeInPackets.toNat := by
        unfold nextCredit; rw [hd]; simp only [hect, if_false]
      rw [hcredit]
      exact Or.inr ⟨hect, rfl⟩

theorem Ready.creditProb {q : CELLULARPacketQueue} (h : Ready q) (now sizePackets : Nat) :
    0 ≤ (q.recordDequeue now).creditProb sizePackets ∧ (q.recordDequeue now).creditProb sizePackets ≤ 0.49 := by
  have hlink : 0 < rate (q.recordDequeue now).linkCapacityQueue := rate_record_pos now h.link
  have hdq : 0 < rate (q.recordDequeue now).dqQueue := rate_record_pos now h.dq
  exact creditProb_bounds (q := q.recordDequeue now) h.delta hlink hdq sizePackets

theorem Ready.base {q : CELLULARPacketQueue} (h : Ready q) (base : DroppingPacketQueue) : Ready { q with base := base } :=
  ⟨h.tokens, h.delta, h.limit, h.link, h.dq⟩

theorem Ready.nextCredit {q : CELLULARPacketQueue} (h : Ready q) (clock : Nat) :
    0 ≤ q.nextCredit clock ∧ q.nextCredit clock ≤ 0.49 := by
  unfold CELLULARPacketQueue.nextCredit
  split
  · split
    · norm_num
    · exact (h.base _).creditProb _ _
  · norm_num

/-- The router after a packet is let through or marked. -/
theorem spend_queue (q : CELLULARPacketQueue) (p : QueuedPacket) :
    (q.spend p).2 =
      { q with
        tokens := min q.tokenLimit (if q.tokens > 1 ∧ ecn p.contents ≠ iptosEcnCe then q.tokens - 1 else q.tokens) } := by
  have hmin : ∀ a b : ℚ, (if a > b then b else a) = min b a := by
    intro a b
    rcases le_or_gt a b with h | h
    · rw [if_neg (not_lt.2 h), min_eq_right h]
    · rw [if_pos h, min_eq_left (le_of_lt h)]
  unfold CELLULARPacketQueue.spend
  by_cases h1 : q.tokens > 1
  · by_cases h2 : ecn p.contents = iptosEcnCe <;> simp [h1, h2, hmin]
  · simp [h1, hmin]

/-- The packet after that: marked for want of a token, else untouched. -/
theorem spend_packet (q : CELLULARPacketQueue) (p : QueuedPacket) :
    (q.spend p).1 =
      if q.tokens > 1 then p
      else if p.contents.length > 4 then { p with contents := markCe p.contents }
      else p := by
  unfold CELLULARPacketQueue.spend
  by_cases h1 : q.tokens > 1 <;> simp only [h1, if_true, if_false]

/-- An ECT packet that is not cut short leaves unmarked exactly when it spends a token. -/
theorem spend_event {q : CELLULARPacketQueue} {p : QueuedPacket} (hect : ecn p.contents ≠ iptosEcnNotEct)
    (hlen : 24 ≤ p.contents.length) (c : ℚ) :
    Left.event ⟨some p, (q.spend p).1, c⟩ =
      if ecn p.contents = iptosEcnCe then .earn else if q.tokens > 1 then .spend else .refuse := by
  have h4 : p.contents.length > 4 := by omega
  unfold Left.event
  rw [spend_packet]
  simp only [if_neg hect, if_pos h4]
  by_cases h1 : q.tokens > 1
  · by_cases h2 : ecn p.contents = iptosEcnCe <;> simp [h1, h2]
  · simp [h1, ecn_markCe hlen]

/-- The packets an ABC network carries: every ECT packet holds a whole IP header. -/
def LongEct (q : CELLULARPacketQueue) : Op → Prop
  | .enqueue _ => True
  | .dequeue _ => ∀ p ∈ q.base.internalQueue.head?, ecn p.contents ≠ iptosEcnNotEct → 24 ≤ p.contents.length

/-- Enqueueing touches nothing but the queue underneath. -/
theorem step_enqueue {q q' : CELLULARPacketQueue} {p : QueuedPacket} {o : Option Left}
    (h : q.step (.enqueue p) = .ok (o, q')) : o = none ∧ ∃ base, q' = { q with base := base } := by
  obtain ⟨q₁, h1, h⟩ := Run.bind_ok h
  cases h
  refine ⟨rfl, ?_⟩
  unfold enqueue at h1
  obtain ⟨g, -, h1⟩ := Run.bind_ok h1
  simp only at h1
  split at h1
  · cases h1; exact ⟨q.base, rfl⟩
  · obtain ⟨g', -, h1⟩ := Run.bind_ok h1
    obtain ⟨u, -, h1⟩ := Run.bind_ok h1
    cases h1; exact ⟨_, rfl⟩

theorem Ready.step {q q' : CELLULARPacketQueue} {op : Op} {o : Option Left} (h : Ready q)
    (hs : q.step op = .ok (o, q')) : Ready q' := by
  cases op with
  | enqueue p =>
    obtain ⟨-, base, rfl⟩ := step_enqueue hs
    exact h.base base
  | dequeue clock =>
    obtain ⟨⟨ret, q₁⟩, h1, hs⟩ := Run.bind_ok hs
    cases hs
    obtain ⟨-, -, rfl⟩ | ⟨p, base, -, ⟨-, -, rfl⟩ | ⟨-, h2⟩⟩ := dequeue_cases h1
    · exact ⟨by have := h.tokens; simp only; linarith, h.delta, h.limit, by simp, h.dq⟩
    · exact h.base base
    · have hq : q' = _ := congrArg Prod.snd h2
      rw [hq, spend_queue]
      have hc := (h.nextCredit clock).1
      have ht := h.tokens
      refine ⟨?_, h.delta, h.limit, by simp [recordDequeue, record], by simp [recordDequeue, record]⟩
      simp only [recordDequeue, h.limit]
      refine le_min (by norm_num) ?_
      split
      · rename_i hone; linarith [hone.1]
      · linarith

theorem ready_ofArgs {q : CELLULARPacketQueue} (h : Initial q) : Ready q := by
  obtain ⟨packets, bytes, qdelayRef, delta, h⟩ := h
  unfold ofArgs at h
  obtain ⟨base, -, h⟩ := Run.bind_ok h
  split at h
  · cases h
  · rename_i hpos
    cases h
    exact ⟨by norm_num, by simp only; exact_mod_cast Nat.pos_of_ne_zero (fun h0 => hpos (Or.inr h0)), rfl, by simp,
      by simp⟩

theorem ready_of_reachable {q : CELLULARPacketQueue} (h : Run.Reachable step Initial q) : Ready q :=
  h.inv (fun _ => ready_ofArgs) (fun _ _ _ _ hr hs => hr.step hs)

/-- A `dequeue` is a step of the bucket. -/
theorem Ready.bucketStep {q q' : CELLULARPacketQueue} {clock : Nat} {o : Option Left} (h : Ready q)
    (hlong : LongEct q (.dequeue clock)) (hs : q.step (.dequeue clock) = .ok (o, q')) :
    ∃ l, o = some l ∧ TokenBucket.Step 5 0.49 q.tokens l.event l.credit q'.tokens := by
  obtain ⟨⟨ret, q₁⟩, h1, hs⟩ := Run.bind_ok hs
  cases hs
  refine ⟨_, rfl, ?_⟩
  obtain ⟨hc0, hc1⟩ := h.nextCredit clock
  obtain ⟨hnil, -, rfl⟩ | ⟨p, base, hd, h2⟩ := dequeue_cases h1
  · have h0 : q.nextCredit clock = 0 := by
      unfold CELLULARPacketQueue.nextCredit DroppingPacketQueue.dequeue; rw [hnil]; rfl
    simp only [Left.event, hnil, List.head?_nil, h0]
    exact .idle _
  · have hhead : q.base.internalQueue.head? = some p := by rw [(dequeue_ok hd).1]; rfl
    obtain ⟨hect, rfl, rfl⟩ | ⟨hect, h2⟩ := h2
    · have h0 : q.nextCredit clock = 0 := by
        unfold CELLULARPacketQueue.nextCredit; rw [hd]; simp only [hect, if_true]
      simp only [Left.event, hhead, hect, if_true, h0]
      exact .pass _
    · obtain ⟨rfl, rfl⟩ : ret = _ ∧ q' = _ := ⟨congrArg Prod.fst h2, congrArg Prod.snd h2⟩
      rw [hhead, spend_event hect (hlong p hhead hect), spend_queue]
      simp only [recordDequeue, h.limit]
      by_cases hce : ecn p.contents = iptosEcnCe
      · simp only [hce, if_true, ne_eq, not_true_eq_false, and_false, if_false]
        exact .earn _ _ hc0 hc1
      · by_cases hone : q.tokens + q.nextCredit clock > 1
        · simp only [hce, hone, if_false, if_true, ne_eq, not_false_eq_true, and_self]
          exact .spend _ _ hc0 hc1 hone
        · simp only [hce, hone, if_false, false_and]
          exact .refuse _ _ hc0 hc1 (not_lt.1 hone)

/-! ## Runs -/

/-- The `dequeue` calls of a run as events of the bucket. -/
def bucketEvents (os : List (Option Left)) : List (Event × ℚ) := os.reduceOption.map fun l => (l.event, l.credit)

theorem Ready.bucketRun : ∀ {ops : List Op} {q q' : CELLULARPacketQueue} {os : List (Option Left)}, Ready q →
    Run.Along CELLULARPacketQueue.step LongEct q ops → Run.steps CELLULARPacketQueue.step q ops = .ok (os, q') →
    TokenBucket.Run 5 0.49 q.tokens (bucketEvents os) q'.tokens
  | [], q, q', os, _, _, hrun => by cases hrun; exact .nil _
  | op :: ops, q, q', os, h, hlong, hrun => by
    obtain ⟨o, q₁, os', h1, hrest, rfl⟩ := Run.steps_cons_ok hrun
    have ih := Ready.bucketRun (h.step h1) (hlong.2 o q₁ h1) hrest
    cases op with
    | enqueue p =>
      obtain ⟨rfl, base, rfl⟩ := step_enqueue h1
      exact ih
    | dequeue clock =>
      obtain ⟨l, rfl, hl⟩ := h.bucketStep hlong.1 h1
      exact .cons hl ih

/-- Does an ECT packet leave without CE? -/
def Left.unmarked (l : Left) : Bool :=
  l.popped.any (fun p => ecn p.contents != iptosEcnNotEct) && ecn l.returned.contents != iptosEcnCe

/-- Was an ECT packet popped that did not carry CE yet? -/
def Left.ectNotCe (l : Left) : Bool :=
  l.popped.any fun p => ecn p.contents != iptosEcnNotEct && ecn p.contents != iptosEcnCe

theorem Left.event_eq_spend (l : Left) : l.event = .spend ↔ l.unmarked = true := by
  unfold Left.event Left.unmarked
  cases l.popped with
  | none => simp
  | some p => simp only [Option.any_some]; grind

theorem Left.event_of_ectNotCe {l : Left} (h : l.ectNotCe = true) : l.event = .spend ∨ l.event = .refuse := by
  unfold Left.ectNotCe at h
  unfold Left.event
  cases hp : l.popped with
  | none => simp [hp] at h
  | some p => simp only [hp, Option.any_some] at h ⊢; grind

theorem spent_bucketEvents (os : List (Option Left)) : spent (bucketEvents os) = os.reduceOption.countP Left.unmarked := by
  unfold spent bucketEvents
  rw [List.countP_map]
  exact List.countP_congr fun l _ => by simp [Left.event_eq_spend]

/-- Token accounting over every window of a run from any reachable router: the tokens never go
negative, each credit is at most 0.49, the ECT packets let through unmarked are at most 6 and 0.49
for each call, and while only unmarked ECT packets leave they follow the credit. -/
theorem token_accounting {q q' : CELLULARPacketQueue} {ops : List Op} {os : List (Option Left)}
    (hq : Run.Reachable step Initial q) (hlong : Run.Along step LongEct q ops)
    (hrun : Run.steps step q ops = .ok (os, q')) :
    0 ≤ q'.tokens ∧ (∀ l ∈ os.reduceOption, 0 ≤ l.credit ∧ l.credit ≤ 0.49) ∧
      (os.reduceOption.countP Left.unmarked : ℚ) ≤ 6 + 0.49 * os.reduceOption.length ∧
      (q.tokens ≤ 5 → (∀ l ∈ os.reduceOption, l.ectNotCe = true) →
        |(os.reduceOption.countP Left.unmarked : ℚ) - (os.reduceOption.map Left.credit).sum| ≤ 5) := by
  have h := ready_of_reachable hq
  have hb := h.bucketRun hlong hrun
  rw [← spent_bucketEvents]
  refine ⟨hb.nonneg (by norm_num) (by norm_num) h.tokens, fun l hl => ?_, ?_, fun hcap hnotCe => ?_⟩
  · exact hb.credit (by norm_num) (l.event, l.credit) (List.mem_map.2 ⟨l, hl, rfl⟩)
  · have := hb.spent_le (by norm_num) (by norm_num) h.tokens
    rw [bucketEvents, List.length_map, ← bucketEvents] at this
    linarith
  · have hev : ∀ e ∈ bucketEvents os, e.1 = .spend ∨ e.1 = .refuse := by
      intro e he
      obtain ⟨l, hl, rfl⟩ := List.mem_map.1 he
      exact Left.event_of_ectNotCe (hnotCe l hl)
    have hearned : earned (bucketEvents os) = (os.reduceOption.map Left.credit).sum := by
      unfold earned bucketEvents; rw [List.map_map]; rfl
    rw [← hearned]
    exact hb.abs_spent_sub_earned (by norm_num) (by norm_num) (by norm_num) h.tokens hcap hev

/-- A packet that carries nothing but an IP header with ECT(0), in its TUN frame. -/
def bareEct : QueuedPacket := ⟨[0, 0, 8, 0, 0x45, 2] ++ List.replicate 22 0, 0⟩

/-- A router with room for ten packets. -/
def small : CELLULARPacketQueue :=
  { base := { packetLimit := 10, byteLimit := 0 }, qdelayRef := 50, delta := 100 }

theorem small_reachable : Run.Reachable step Initial small := .start ⟨10, 0, 50, 100, rfl⟩

/-- The same packet, of a sender without ECN. -/
def bareNotEct : QueuedPacket := ⟨[0, 0, 8, 0, 0x45, 0] ++ List.replicate 22 0, 0⟩

instance decidableLongEct (q : CELLULARPacketQueue) : ∀ op : Op, Decidable (LongEct q op)
  | .enqueue _ => isTrue trivial
  | .dequeue _ =>
    inferInstanceAs (Decidable (∀ p ∈ q.base.internalQueue.head?, ecn p.contents ≠ iptosEcnNotEct → 24 ≤ p.contents.length))

/-- So many packets with ECT(0) arrive and leave, one in a millisecond. -/
def burst (packets : Nat) : List Op :=
  List.replicate packets (.enqueue bareEct) ++ (List.range packets).map fun i => .dequeue (31 + i)

/-- An opportunity is not used, a packet without ECN leaves, and then nine with ECT(0), until a token is missing. -/
def threePaths : List Op := [.dequeue 1, .enqueue bareNotEct, .dequeue 30] ++ burst 9

theorem token_accounting_small : (∃ os q', Run.steps step small threePaths = .ok (os, q') ∧
      os.reduceOption.map Left.event = [.idle, .pass] ++ List.replicate 8 .spend ++ [.refuse] ∧
      0 ≤ q'.tokens ∧ (os.reduceOption.countP Left.unmarked : ℚ) ≤ 6 + 0.49 * os.reduceOption.length) ∧
    ∃ os q', Run.steps step small (burst 9) = .ok (os, q') ∧
      |(os.reduceOption.countP Left.unmarked : ℚ) - (os.reduceOption.map Left.credit).sum| ≤ 5 := by
  have hpaths : Run.Along step LongEct small threePaths :=
    Run.along_of_check (fun _ _ => of_decide_eq_true) (by decide +kernel)
  have hburst : Run.Along step LongEct small (burst 9) :=
    Run.along_of_check (fun _ _ => of_decide_eq_true) (by decide +kernel)
  constructor
  · obtain ⟨⟨os, q'⟩, hrun⟩ := Run.ok_of_isOk (x := Run.steps step small threePaths) (by decide +kernel)
    have hevents : os.reduceOption.map Left.event = [.idle, .pass] ++ List.replicate 8 .spend ++ [.refuse] :=
      Run.value_of_map (fun r => r.1.reduceOption.map Left.event) hrun (by decide +kernel)
    have h := token_accounting small_reachable hpaths hrun
    exact ⟨os, q', hrun, hevents, h.1, h.2.2.1⟩
  · obtain ⟨⟨os, q'⟩, hrun⟩ := Run.ok_of_isOk (x := Run.steps step small (burst 9)) (by decide +kernel)
    have hect : os.reduceOption.all Left.ectNotCe = true :=
      Run.value_of_map (fun r => r.1.reduceOption.all Left.ectNotCe) hrun (by decide +kernel)
    have hall := List.all_eq_true.1 hect
    exact ⟨os, q', hrun, (token_accounting small_reachable hburst hrun).2.2.2 (by decide +kernel) hall⟩

end AbcMahimahi.Packet.CELLULARPacketQueue
