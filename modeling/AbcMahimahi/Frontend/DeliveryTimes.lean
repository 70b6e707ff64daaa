/-
The times of the delivery opportunities: those of the schedule, pass after pass, each pass moved on by
the last entry. A call of `rationalize` uses those that are due and not used yet, and without `repeat_`
there is one for each entry.

Two things take the link off its schedule. A finished link says that its next delivery is at 2^64 - 1,
and a clock that reads just that finds it due, again and again. And the index of the next opportunity is
an `unsigned int`, which comes round before a schedule of more than 2^32 entries does.
-/
import AbcMahimahi.Frontend.Fluid
import AbcMahimahi.Frontend.Polling

namespace AbcMahimahi.Frontend

open Bytes Packet CatchUp

/-! ## The times of a schedule -/

/-- When the opportunity with this number is due, of a link constructed at `base`. -/
def opportunity (schedule : List Nat) (base k : Nat) : Nat :=
  base + schedule.getD (k % schedule.length) 0 + k / schedule.length * schedule.getLastD 0

/-- The link has an opportunity with this number. -/
def Has (schedule : List Nat) (repeats : Bool) (k : Nat) : Prop := repeats = true ∨ k < schedule.length

/-- The sums that the link forms in catching up with `now` are below `2 ^ 64`. -/
def SumsFit (schedule : List Nat) (base : Nat) (repeats : Bool) (now : Nat) : Prop :=
  ∀ k, Has schedule repeats (k + 1) → opportunity schedule base k ≤ now → opportunity schedule base (k + 1) < 2 ^ 64

/-- The link keeps to its schedule in catching up with `now`. -/
structure InReach (schedule : List Nat) (base : Nat) (repeats : Bool) (now : Nat) : Prop where
  sentinel : repeats = false → now < 2 ^ 64 - 1
  narrow : 2 ^ 32 < schedule.length → now < opportunity schedule base (2 ^ 32 - 1)

section

variable {schedule : List Nat} {base k : Nat}

theorem LinkQueue.Trace.length_pos (h : LinkQueue.Trace schedule) : 0 < schedule.length := by
  have hlast := h.last
  cases schedule with
  | nil => simp at hlast
  | cons ms rest => simp

theorem LinkQueue.Trace.getD_le (h : LinkQueue.Trace schedule) {i : Nat} (hi : i < schedule.length) :
    schedule.getD i 0 ≤ schedule.getLastD 0 :=
  h.le_last (by rw [List.getD_eq_getElem?_getD, List.getElem?_eq_getElem hi]; rfl)

/-- The number of the next opportunity: the next entry of this pass, or the first of the next one. -/
theorem next_cases (hpos : 0 < schedule.length) (k : Nat) :
    (k % schedule.length + 1 < schedule.length ∧ (k + 1) % schedule.length = k % schedule.length + 1 ∧
      (k + 1) / schedule.length = k / schedule.length) ∨
    (k % schedule.length + 1 = schedule.length ∧ (k + 1) % schedule.length = 0 ∧
      (k + 1) / schedule.length = k / schedule.length + 1) := by
  have hlt := Nat.mod_lt k hpos
  have hdiv : (k + 1) / schedule.length = _ := Nat.succ_div
  rcases Nat.lt_or_ge (k % schedule.length + 1) schedule.length with h | h
  · have hnext : (k + 1) % schedule.length = k % schedule.length + 1 := by
      rw [← Nat.mod_add_mod, Nat.mod_eq_of_lt h]
    have hnot : ¬ schedule.length ∣ k + 1 := by
      rw [Nat.dvd_iff_mod_eq_zero, hnext]
      omega
    rw [if_neg hnot] at hdiv
    exact Or.inl ⟨h, hnext, hdiv⟩
  · have hlast : k % schedule.length + 1 = schedule.length := by omega
    have hnext : (k + 1) % schedule.length = 0 := by
      rw [← Nat.mod_add_mod, hlast, Nat.mod_self]
    rw [if_pos (Nat.dvd_of_mod_eq_zero hnext)] at hdiv
    exact Or.inr ⟨hlast, hnext, hdiv⟩

theorem opportunity_mono (h : LinkQueue.Trace schedule) : Monotone (opportunity schedule base) := by
  refine monotone_nat_of_le_succ fun k => ?_
  have hlt := Nat.mod_lt k h.length_pos
  unfold opportunity
  rcases next_cases h.length_pos k with ⟨hin, hmod, hdiv⟩ | ⟨-, hmod, hdiv⟩
  · have hle : schedule.getD (k % schedule.length) 0 ≤ schedule.getD (k % schedule.length + 1) 0 := by
      rw [List.getD_eq_getElem?_getD, List.getD_eq_getElem?_getD, List.getElem?_eq_getElem hlt, List.getElem?_eq_getElem hin]
      exact List.pairwise_iff_getElem.1 h.sorted _ _ _ _ (Nat.lt_succ_self _)
    rw [hmod, hdiv]
    omega
  · have hle := h.getD_le hlt
    rw [hmod, hdiv, Nat.succ_mul]
    omega

/-- Each pass takes a millisecond at least. -/
theorem lt_of_opportunity_le (h : LinkQueue.Trace schedule) {now : Nat} (hle : opportunity schedule base k ≤ now) :
    k < (now + 1) * schedule.length := by
  have hpass : k / schedule.length ≤ k / schedule.length * schedule.getLastD 0 :=
    Nat.le_mul_of_pos_right _ h.last
  unfold opportunity at hle
  exact (Nat.div_lt_iff_lt_mul h.length_pos).1 (by omega)

end

/-! ## The clock after some opportunities -/

namespace Clock

variable {schedule : List Nat} {base k : Nat} {repeats : Bool}

/-- The clock of a link that has used so many. -/
def after (schedule : List Nat) (base : Nat) (repeats : Bool) (k : Nat) : Clock :=
  if repeats = true ∨ k < schedule.length then
    ⟨k % schedule.length, schedule, base + k / schedule.length * schedule.getLastD 0, repeats, false⟩
  else ⟨0, schedule, base, false, true⟩

theorem after_of_has (h : Has schedule repeats k) : after schedule base repeats k =
    ⟨k % schedule.length, schedule, base + k / schedule.length * schedule.getLastD 0, repeats, false⟩ := if_pos h

theorem after_of_not (h : ¬ Has schedule repeats k) : after schedule base repeats k = ⟨0, schedule, base, false, true⟩ :=
  if_neg h

theorem time_after (h : Has schedule repeats k) (hfit : opportunity schedule base k < 2 ^ 64) :
    (after schedule base repeats k).time = opportunity schedule base k := by
  rw [after_of_has h]
  unfold time
  rw [if_neg Bool.false_ne_true]
  dsimp only
  unfold opportunity at hfit ⊢
  rw [u64_eq (by omega)]
  omega

theorem time_after_last (h : ¬ Has schedule repeats k) : (after schedule base repeats k).time = 2 ^ 64 - 1 := by
  rw [after_of_not h]
  exact if_pos rfl

/-- The index goes on to the next entry, as long as an `unsigned int` can hold it. -/
theorem next_index (hpos : 0 < schedule.length) (hnarrow : 2 ^ 32 < schedule.length → k + 1 < 2 ^ 32) :
    u32 (k % schedule.length + 1) % schedule.length = (k + 1) % schedule.length := by
  have hlt := Nat.mod_lt k hpos
  have hle := Nat.mod_le k schedule.length
  rcases Nat.lt_or_ge (k % schedule.length + 1) (2 ^ 32) with h | h
  · rw [u32_eq h, Nat.mod_add_mod]
  · have hfull : k % schedule.length + 1 = 2 ^ 32 ∧ schedule.length = 2 ^ 32 := by
      by_contra hne
      have := hnarrow (by omega)
      omega
    rw [← Nat.mod_add_mod, hfull.1, hfull.2]
    rfl

theorem tick_after (hpos : 0 < schedule.length) (h : Has schedule repeats k)
    (hnarrow : 2 ^ 32 < schedule.length → k + 1 < 2 ^ 32)
    (hfit : Has schedule repeats (k + 1) → opportunity schedule base (k + 1) < 2 ^ 64) :
    (after schedule base repeats k).tick = after schedule base repeats (k + 1) := by
  rw [after_of_has h]
  unfold tick
  dsimp only
  rw [next_index hpos hnarrow]
  rcases next_cases hpos k with ⟨hin, hmod, hdiv⟩ | ⟨hlast, hmod, hdiv⟩
  · -- the next entry of this pass
    have hnext : Has schedule repeats (k + 1) := by
      rcases h with h | h
      · exact Or.inl h
      · rw [Nat.mod_eq_of_lt h] at hin
        exact Or.inr hin
    rw [if_neg (by omega), after_of_has hnext, hdiv]
  -- the last entry of the pass: back to the first one, or to the end of the link
  · rw [if_pos hmod, hmod]
    cases repeats with
    | true =>
      have hfit := hfit (Or.inl rfl)
      unfold opportunity at hfit
      rw [hdiv, Nat.succ_mul] at hfit
      rw [if_pos rfl, after_of_has (Or.inl rfl), hmod, hdiv, Nat.succ_mul, u64_eq (by omega), Nat.add_assoc]
    | false =>
      have hlt := h.resolve_left Bool.false_ne_true
      rw [Nat.mod_eq_of_lt hlt] at hlast
      have hnot : ¬ Has schedule false (k + 1) := by
        rintro (h | h)
        · cases h
        · omega
      rw [if_neg Bool.false_ne_true, after_of_not hnot, Nat.div_eq_of_lt hlt, Nat.zero_mul, Nat.add_zero]

end Clock

/-! ## Catching up -/

namespace LinkQueue

variable {Q : Type} {schedule : List Nat} {base : Nat} {repeats : Bool}

/-- The link has used this many opportunities. -/
structure Used (schedule : List Nat) (base : Nat) (repeats : Bool) (k : Nat) (q : LinkQueue Q) : Prop where
  clock : q.clock = Clock.after schedule base repeats k
  bound : repeats = true ∨ k ≤ schedule.length
  fits : Has schedule repeats k → opportunity schedule base k < 2 ^ 64

theorem Used.of_clock {k : Nat} {q q' : LinkQueue Q} (h : Used schedule base repeats k q) (hclock : q'.clock = q.clock) :
    Used schedule base repeats k q' := ⟨hclock.trans h.clock, h.bound, h.fits⟩

/-- What is due by a time that the link can reach is its next opportunity. -/
theorem Used.due {k now t : Nat} {q : LinkQueue Q} (h : Used schedule base repeats k q)
    (hreach : InReach schedule base repeats now) (ht : q.nextDeliveryTime = .ok t) (hle : t ≤ now) :
    Has schedule repeats k ∧ t = opportunity schedule base k := by
  have htime := nextDeliveryTime_ok ht
  rw [h.clock] at htime
  by_cases hk : Has schedule repeats k
  · rw [Clock.time_after hk (h.fits hk)] at htime
    exact ⟨hk, htime.symm⟩
  · rw [Clock.time_after_last hk] at htime
    have hfalse : repeats = false := by
      rw [← Bool.not_eq_true]
      exact fun ht => hk (Or.inl ht)
    have := hreach.sentinel hfalse
    omega

/-- What is due later is the next opportunity too, or none is left. -/
theorem Used.later {k now t : Nat} {q : LinkQueue Q} (htrace : Trace schedule) (h : Used schedule base repeats k q)
    (ht : q.nextDeliveryTime = .ok t) (hlt : now < t) {j : Nat} (hkj : k ≤ j) (hj : Has schedule repeats j) :
    now < opportunity schedule base j := by
  have hk : Has schedule repeats k := hj.imp id fun h => lt_of_le_of_lt hkj h
  have htime := nextDeliveryTime_ok ht
  rw [h.clock, Clock.time_after hk (h.fits hk)] at htime
  have hmono : opportunity schedule base k ≤ opportunity schedule base j := opportunity_mono htrace hkj
  omega

section

variable [AbstractPacketQueue Q]

/-- A turn of `rationalize` uses the next opportunity. -/
theorem Used.turn {k now : Nat} {q q' : LinkQueue Q} {s : Service Q} (htrace : Trace schedule)
    (h : Used schedule base repeats k q) (hfit : SumsFit schedule base repeats now)
    (hreach : InReach schedule base repeats now) (hk : Has schedule repeats k) (hle : opportunity schedule base k ≤ now)
    (hd : q.deliver = .ok (s, q')) : s.time = opportunity schedule base k ∧ Used schedule base repeats (k + 1) q' := by
  obtain ⟨-, ht, hclock⟩ := deliver_ok hd
  have htime := nextDeliveryTime_ok ht
  rw [h.clock, Clock.time_after hk (h.fits hk)] at htime
  have hnarrow : 2 ^ 32 < schedule.length → k + 1 < 2 ^ 32 := by
    intro hlong
    have hlt := hreach.narrow hlong
    by_contra hge
    have hmono : opportunity schedule base (2 ^ 32 - 1) ≤ opportunity schedule base k := opportunity_mono htrace (by omega)
    omega
  have hnext := fun h => hfit k h hle
  refine ⟨htime.symm, ?_, ?_, hnext⟩
  · rw [hclock, h.clock]
    exact Clock.tick_after htrace.length_pos hk hnarrow hnext
  · exact hk.imp id Nat.succ_le_of_lt

/-- So all turns use the opportunities in order, each of them due. -/
theorem Used.turns {now : Nat} (htrace : Trace schedule) (hfit : SumsFit schedule base repeats now)
    (hreach : InReach schedule base repeats now) {q q' : LinkQueue Q} {ss : List (Service Q)}
    (hturns : Turns nextDeliveryTime deliver now q ss q') : ∀ {k : Nat}, Used schedule base repeats k q →
    Used schedule base repeats (k + ss.length) q' ∧
      ss.map (·.time) = (List.range' k ss.length).map (opportunity schedule base) ∧
      ∀ j, k ≤ j → j < k + ss.length → opportunity schedule base j ≤ now := by
  induction hturns with
  | nil q =>
    intro k h
    exact ⟨h, rfl, fun j hkj hj => absurd hj (by simp only [List.length_nil]; omega)⟩
  | @cons q q₁ q₂ t s ss hdue hle hturn _ ih =>
    intro k h
    obtain ⟨hk, rfl⟩ := h.due hreach hdue hle
    obtain ⟨htime, h₁⟩ := h.turn htrace hfit hreach hk hle hturn
    obtain ⟨hlast, htimes, hdues⟩ := ih h₁
    refine ⟨?_, ?_, ?_⟩
    · rw [List.length_cons, show k + (ss.length + 1) = k + 1 + ss.length by omega]
      exact hlast
    · rw [List.map_cons, List.length_cons, List.range'_succ, List.map_cons, htime, htimes]
    · intro j hkj hj
      rw [List.length_cons] at hj
      rcases Nat.eq_or_lt_of_le hkj with rfl | hlt
      · exact hle
      · exact hdues j hlt (by omega)

/-- There are not many: `rationalize` ends. -/
theorem Used.turns_le {k now : Nat} {q q' : LinkQueue Q} {ss : List (Service Q)} (htrace : Trace schedule)
    (h : Used schedule base repeats k q) (hfit : SumsFit schedule base repeats now)
    (hreach : InReach schedule base repeats now)
    (hturns : Turns nextDeliveryTime deliver now q ss q') : ss.length ≤ (now + 1) * schedule.length := by
  obtain ⟨-, -, hdues⟩ := Used.turns htrace hfit hreach hturns h
  rcases Nat.eq_zero_or_pos ss.length with hnone | hpos
  · omega
  · have hlast := lt_of_opportunity_le htrace (hdues (k + ss.length - 1) (by omega) (by omega))
    omega

/-- A call that reads the clock catches up with it; one that does not uses nothing. -/
theorem step_cases {q q' : LinkQueue Q} {op : Op} {ss : List (Service Q)} (h : q.step op = .ok (ss, q')) :
    (op.time = none ∧ ss = [] ∧ q'.clock = q.clock) ∨
    ∃ now q₁, op.time = some now ∧ Done nextDeliveryTime deliver now q ss q₁ ∧ q'.clock = q₁.clock := by
  cases op with
  | readPacket contents now =>
    obtain ⟨-, q₁, packetQueue, hr, -, rfl⟩ := step_readPacket_iff.1 h
    exact Or.inr ⟨now, q₁, rfl, rationalizeLoop_ok hr, rfl⟩
  | waitTime now =>
    obtain ⟨⟨w, ts, q₁⟩, hw, h⟩ := Run.bind_ok h
    obtain ⟨⟨us, q₂⟩, hr, hw⟩ := Run.bind_ok hw
    obtain ⟨next, -, hw⟩ := Run.bind_ok hw
    cases hw
    cases h
    exact Or.inr ⟨now, q', rfl, rationalizeLoop_ok hr, rfl⟩
  | writePackets =>
    cases h
    exact Or.inl ⟨rfl, rfl, rfl⟩

/-! ## Runs -/

/-- In a run the opportunities are used in order, and those that a reading of the clock has come to. -/
theorem Used.steps (htrace : Trace schedule) : ∀ {ops : List Op} {k : Nat} {q q' : LinkQueue Q}
    {outs : List (List (Service Q))}, Used schedule base repeats k q →
    (∀ now ∈ ops.filterMap Op.time, SumsFit schedule base repeats now ∧ InReach schedule base repeats now) →
    Run.steps step q ops = .ok (outs, q') →
    Used schedule base repeats (k + outs.flatten.length) q' ∧
      outs.flatten.map (·.time) = (List.range' k outs.flatten.length).map (opportunity schedule base) ∧
      ∀ j, k ≤ j → Has schedule repeats j →
        (j < k + outs.flatten.length ↔ ∃ now ∈ ops.filterMap Op.time, opportunity schedule base j ≤ now)
  | [], k, q, q', outs, h, _, hrun => by
    cases hrun
    exact ⟨h, rfl, fun j hkj _ => by simp; omega⟩
  | op :: ops, k, q, q', outs, h, hread, hrun => by
    obtain ⟨ss, q₁, outs', hs, hrest, rfl⟩ := Run.steps_cons_ok hrun
    rw [List.filterMap_cons] at hread ⊢
    -- a call that reads no time uses no opportunity
    rcases step_cases hs with ⟨htime, rfl, hclock⟩ | ⟨now, q₂, htime, ⟨hturns, t, ht, hlt⟩, hclock⟩
    · rw [htime] at hread ⊢
      rw [List.flatten_cons, List.nil_append]
      exact Used.steps htrace (h.of_clock hclock) hread hrest
    · rw [htime] at hread ⊢
      obtain ⟨hfit, hreach⟩ := hread now (List.mem_cons_self ..)
      obtain ⟨h₂, htimes, hdues⟩ := Used.turns htrace hfit hreach hturns h
      obtain ⟨hend, htimes', hiff⟩ := Used.steps htrace (h₂.of_clock hclock)
        (fun now' hmem => hread now' (List.mem_cons_of_mem _ hmem)) hrest
      have hlen : (ss :: outs').flatten.length = ss.length + outs'.flatten.length := by
        rw [List.flatten_cons, List.length_append]
      refine ⟨?_, ?_, ?_⟩
      · rw [hlen, ← Nat.add_assoc]
        exact hend
      · rw [hlen, List.flatten_cons, List.map_append, htimes, htimes', ← List.map_append, List.range'_append_1]
      · intro j hkj hj
        rw [hlen, ← Nat.add_assoc]
        -- used in this call, or due only at a later one
        rcases Nat.lt_or_ge j (k + ss.length) with hused | hnot
        · exact ⟨fun _ => ⟨now, List.mem_cons_self .., hdues j hkj hused⟩, fun _ => by omega⟩
        · have hlater := h₂.later htrace ht hlt hnot hj
          rw [hiff j hnot hj]
          constructor
          · rintro ⟨now', hmem, hle⟩
            exact ⟨now', List.mem_cons_of_mem _ hmem, hle⟩
          · rintro ⟨now', hmem, hle⟩
            rcases List.mem_cons.1 hmem with rfl | hmem
            · omega
            · exact ⟨now', hmem, hle⟩

/-- In every run of a link from its construction, at readings that leave it on its schedule: its opportunities
are used in order, each at its time in the schedule, those that a reading has come to and no others; the times
never decrease; without `repeat_` there is one opportunity for each entry, and the link is finished when the last
one is used. From then on nothing is delivered. And wherever it has come to, `rationalize` ends. -/
theorem follows_trace {packetQueue : Q} {log : Option (List LogLine)} {ops : List Op} {outs : List (List (Service Q))}
    {q : LinkQueue Q} (htrace : Trace schedule) (hbase : opportunity schedule base 0 < 2 ^ 64)
    (hfit : ∀ now ∈ ops.filterMap Op.time, SumsFit schedule base repeats now)
    (hreach : ∀ now ∈ ops.filterMap Op.time, InReach schedule base repeats now)
    (hrun : Run.steps step { schedule := schedule, baseTimestamp := base, packetQueue := packetQueue, log := log, repeats := repeats }
      ops = .ok (outs, q)) :
    outs.flatten.map (·.time) = (List.range outs.flatten.length).map (opportunity schedule base) ∧
    (outs.flatten.map (·.time)).Pairwise (· ≤ ·) ∧
    (∀ k, Has schedule repeats k →
      (k < outs.flatten.length ↔ ∃ now ∈ ops.filterMap Op.time, opportunity schedule base k ≤ now)) ∧
    (repeats = false → outs.flatten.length ≤ schedule.length) ∧
    (q.finished = true ↔ repeats = false ∧ outs.flatten.length = schedule.length) ∧
    (∀ now, SumsFit schedule base repeats now → InReach schedule base repeats now →
      (∀ ss q', Turns nextDeliveryTime deliver now q ss q' → ss.length ≤ (now + 1) * schedule.length) ∧
      (q.finished = true → q.rationalize now = .ok ([], q))) := by
  have hstart : Used schedule base repeats 0
      { schedule := schedule, baseTimestamp := base, packetQueue := packetQueue, log := log, repeats := repeats : LinkQueue Q } := by
    refine ⟨?_, Or.inr (Nat.zero_le _), fun _ => hbase⟩
    rw [Clock.after_of_has (Or.inr htrace.length_pos), Nat.zero_mod, Nat.zero_div, Nat.zero_mul]
    rfl
  obtain ⟨hend, htimes, hiff⟩ := hstart.steps htrace (fun now h => ⟨hfit now h, hreach now h⟩) hrun
  rw [Nat.zero_add] at hend
  have hfinished : q.finished = true ↔ repeats = false ∧ outs.flatten.length = schedule.length := by
    have hclock : q.finished = (Clock.after schedule base repeats outs.flatten.length).finished :=
      congrArg Clock.finished hend.clock
    rw [hclock]
    -- the link is finished exactly when the opportunities have run out
    by_cases hk : Has schedule repeats outs.flatten.length
    · rw [Clock.after_of_has hk]
      constructor
      · intro h
        cases h
      · rintro ⟨hrepeats, hall⟩
        rcases hk with hk | hk
        · rw [hrepeats] at hk
          cases hk
        · omega
    · rw [Clock.after_of_not hk]
      have hrepeats : ¬ repeats = true := fun h => hk (Or.inl h)
      have hall : ¬ outs.flatten.length < schedule.length := fun h => hk (Or.inr h)
      have hle := hend.bound.resolve_left hrepeats
      rw [Bool.not_eq_true] at hrepeats
      exact ⟨fun _ => ⟨hrepeats, by omega⟩, fun _ => rfl⟩
  refine ⟨?_, ?_, ?_, ?_, hfinished, ?_⟩
  · rw [List.range_eq_range']
    exact htimes
  · rw [htimes, List.pairwise_map]
    exact (List.pairwise_le_range' ..).imp fun hle => opportunity_mono htrace hle
  · intro k hk
    have hiff := hiff k (Nat.zero_le _) hk
    rwa [Nat.zero_add] at hiff
  · intro hrepeats
    exact hend.bound.resolve_left (by rw [hrepeats]; exact Bool.false_ne_true)
  · intro now hfits hreaches
    refine ⟨fun ss q' hturns => hend.turns_le htrace hfits hreaches hturns, fun hlast => ?_⟩
    -- a finished link says that its next opportunity is at the end of time
    obtain ⟨hrepeats, -⟩ := hfinished.1 hlast
    have hnow := hreaches.sentinel hrepeats
    have hnext : q.nextDeliveryTime = .ok (2 ^ 64 - 1) := if_pos hlast
    exact rationalizeLoop_of_done (.nil q) ⟨_, hnext, hnow⟩ (Nat.zero_le _)

end

/-- A link with two opportunities at 1 ms and one at 3 ms, over and over. -/
def triple : LinkQueue InfinitePacketQueue :=
  { schedule := [1, 1, 3], baseTimestamp := 10, packetQueue := {}, repeats := true }

theorem opportunity_triple (k : Nat) : opportunity [1, 1, 3] 10 k = 10 + [1, 1, 3].getD (k % 3) 0 + k / 3 * 3 := rfl

theorem sumsFit_triple {now : Nat} (h : now < 100) : SumsFit [1, 1, 3] 10 true now := by
  intro k _ hle
  have hnext : opportunity [1, 1, 3] 10 (k + 1) ≤ opportunity [1, 1, 3] 10 (k + 3) :=
    opportunity_mono ⟨by decide, by decide⟩ (by omega)
  have hpass : opportunity [1, 1, 3] 10 (k + 3) = opportunity [1, 1, 3] 10 k + 3 := by
    rw [opportunity_triple, opportunity_triple, Nat.add_mod_right, Nat.add_div_right _ (by decide)]
    omega
  omega

/-- By 15 ms the link has used its first five opportunities. -/
theorem follows_trace_small : ∃ outs q, Run.steps step triple [.waitTime 12, .writePackets, .waitTime 15] = .ok (outs, q) ∧
    outs.flatten.map (·.time) = (List.range outs.flatten.length).map (opportunity [1, 1, 3] 10) ∧
    (∀ k, Has [1, 1, 3] true k → (k < outs.flatten.length ↔ ∃ now ∈ [12, 15], opportunity [1, 1, 3] 10 k ≤ now)) := by
  obtain ⟨⟨outs, q⟩, hrun⟩ := Run.ok_of_isOk (x := Run.steps step triple [.waitTime 12, .writePackets, .waitTime 15])
    (by decide +kernel)
  obtain ⟨htimes, -, hiff, -⟩ := follows_trace (⟨by decide, by decide⟩ : Trace [1, 1, 3]) (by decide)
    (fun now hmem => sumsFit_triple (by revert now; decide))
    (fun now _ => ⟨fun h => absurd h (by decide), fun h => absurd h (by decide)⟩) hrun
  exact ⟨outs, q, hrun, htimes, hiff⟩

/-- A link with one opportunity, at 1 ms. -/
def single : LinkQueue InfinitePacketQueue :=
  { schedule := [1], baseTimestamp := 0, packetQueue := {}, repeats := false }

/-- The link when its opportunity has been used and a packet has arrived, and when that has been delivered. -/
def waiting : LinkQueue InfinitePacketQueue :=
  { single with packetQueue := ⟨[⟨List.replicate 28 0, 5⟩]⟩, finished := true }

def delivered : LinkQueue InfinitePacketQueue :=
  { single with packetInTransit := ⟨[], 5⟩, outputQueue := [List.replicate 28 0], finished := true }

theorem waiting_deliver : ∃ s, waiting.deliver = .ok (s, delivered) := ⟨_, rfl⟩

theorem delivered_deliver : ∃ s, delivered.deliver = .ok (s, delivered) := ⟨_, rfl⟩

theorem delivered_turns : ∀ n, ∃ ss, Turns nextDeliveryTime deliver (2 ^ 64 - 1) delivered ss delivered ∧
    ss.length = n
  | 0 => ⟨[], .nil _, rfl⟩
  | n + 1 => by
    obtain ⟨s, hs⟩ := delivered_deliver
    obtain ⟨ss, hturns, hlen⟩ := delivered_turns n
    exact ⟨s :: ss, .cons rfl le_rfl hs hturns, by rw [List.length_cons, hlen]⟩

/-- Once the clock reads the time that a finished link says, no number of turns is enough. -/
theorem rationalizeLoop_finished {q : LinkQueue Q} [AbstractPacketQueue Q] (hq : q.finished = true) : ∀ (turns : Nat)
    {r : List (Service Q) × LinkQueue Q}, rationalizeLoop (2 ^ 64 - 1) turns q ≠ .ok r := by
  intro turns r h
  obtain ⟨hturns, t, ht, hlt⟩ := rationalizeLoop_ok h
  have htime := nextDeliveryTime_ok ht
  have hlast : r.2.clock.finished = true := by
    rw [(hturns.orbit ticks).1]
    exact Clock.iterate_finished _ hq
  unfold Clock.time at htime
  rw [if_pos hlast] at htime
  omega

/-- The opportunity has been used at 5 ms, and then a packet arrives. When the clock reads 2^64 - 1, which it does
after it has been stepped back to the millisecond before the program was started, the packet is delivered, and
`rationalize` goes on for ever. -/
theorem follows_trace_sentinel :
    Trace [1] ∧ opportunity [1] 0 0 < 2 ^ 64 ∧ SumsFit [1] 0 false (2 ^ 64 - 1) ∧
    ∃ outs q, Run.steps step single [.waitTime 5, .readPacket (List.replicate 28 0) 5] = .ok (outs, q) ∧
      q.finished = true ∧ (∀ turns r, rationalizeLoop (2 ^ 64 - 1) turns q ≠ .ok r) ∧
      ∀ n, ∃ ss q', Turns nextDeliveryTime deliver (2 ^ 64 - 1) q ss q' ∧ ss.length = n + 1 ∧
        q'.outputQueue = [List.replicate 28 0] := by
  refine ⟨⟨by decide, by decide⟩, by decide, ?_, _, waiting, rfl, rfl, ?_, ?_⟩
  · rintro k (h | h) _
    · cases h
    · rw [List.length_singleton] at h
      omega
  · intro turns r
    exact rationalizeLoop_finished rfl turns
  · intro n
    obtain ⟨s, hs⟩ := waiting_deliver
    obtain ⟨ss, hturns, hlen⟩ := delivered_turns n
    exact ⟨s :: ss, delivered, .cons rfl le_rfl hs hturns, by rw [List.length_cons, hlen], rfl⟩

end LinkQueue

end AbcMahimahi.Frontend
