/-
The trace file of a link, as the constructor of `LinkQueue` loads it: an integer on each line, in
milliseconds, that never decrease, the last one positive.

The integers are read as a `long` and kept as a `uint64_t`. A negative one becomes a time far in the future,
and passes the checks if no other follows but negative ones in order.
-/
import AbcMahimahi.Frontend.DeliveryTimes
import AbcMahimahi.Util.Ezio

namespace AbcMahimahi.Frontend

open Bytes

/-! ## Loading -/

/-- The lines that `getline` reads, the first of which it has come to. -/
def getlines : Bytes → Bytes → List Bytes
  | line, [] => if line = [] then [] else [line]
  | line, b :: rest => if b = 10 then line :: getlines [] rest else getlines (line ++ [b]) rest

def lines (content : Bytes) : List Bytes := getlines [] content

/-- A `long`, converted to a `uint64_t`. -/
def toUint64 (n : Int) : Nat := (n % 2 ^ 64).toNat

def loadLine (filename : Bytes) (schedule : List Nat) (line : Bytes) : Except Fault (List Nat) := do
  if line = [] then throw (.runtimeError (filename ++ ascii ": invalid empty line"))
  let ms := toUint64 (← myatoi line 10)
  if schedule ≠ [] then
    if ms < schedule.getLastD 0 then
      throw (.runtimeError (filename ++ ascii ": timestamps must be monotonically nondecreasing"))
  pure (schedule ++ [ms])

/-- The schedule in a file, or in none where it could not be opened. -/
def loadSchedule (filename : Bytes) : Option Bytes → Except Fault (List Nat)
  | none => throw (.runtimeError (filename ++ ascii ": error opening for reading"))
  | some content => do
    let schedule ← (lines content).foldlM (loadLine filename) []
    if schedule = [] then throw (.runtimeError (filename ++ ascii ": no valid timestamps found"))
    if schedule.getLastD 0 = 0 then
      throw (.runtimeError (filename ++ ascii ": trace must last for a nonzero amount of time"))
    pure schedule

/-- The values of `next_delivery_time` as the opportunities are used, from now on. -/
def LinkQueue.deliveryTimes {Q : Type} : Nat → LinkQueue Q → Except Fault (List Nat)
  | 0, _ => pure []
  | n + 1, q => do
    let t ← q.nextDeliveryTime
    let q ← q.useADeliveryOpportunity
    let ts ← deliveryTimes n q
    pure (t :: ts)

/-! ## What is loaded -/

/-- A `long` that a line reads as. -/
structure Reads (line : Bytes) (v : Int) : Prop where
  decimal : SignedDecimal line v
  low : -2 ^ 63 ≤ v
  high : v < 2 ^ 63

theorem toUint64_of_nonneg {v : Int} (hlow : 0 ≤ v) (hhigh : v < 2 ^ 63) : (toUint64 v : Int) = v := by
  unfold toUint64
  omega

theorem le_getLastD {l : List Nat} (h : l.Pairwise (· ≤ ·)) {a : Nat} (ha : a ∈ l) : a ≤ l.getLastD 0 := by
  have hne := List.ne_nil_of_mem ha
  rw [List.getLastD_eq_getLast?, List.getLast?_eq_getLast_of_ne_nil hne, Option.getD_some]
  rw [← List.dropLast_append_getLast hne] at h ha
  rcases List.mem_append.1 ha with ha | ha
  · exact (List.pairwise_append.1 h).2.2 a ha _ (List.mem_singleton_self _)
  · exact (List.mem_singleton.1 ha).le

theorem loadLine_ok {filename line : Bytes} {schedule schedule' : List Nat} (hsorted : schedule.Pairwise (· ≤ ·))
    (h : loadLine filename schedule line = .ok schedule') :
    ∃ v, Reads line v ∧ schedule' = schedule ++ [toUint64 v] ∧ schedule'.Pairwise (· ≤ ·) := by
  unfold loadLine at h
  dsimp only at h
  split at h
  · cases h
  · obtain ⟨v, hv, h⟩ := Run.bind_ok h
    obtain ⟨hdecimal, hlow, hhigh⟩ := myatoi_ok_iff.1 hv
    have hnext : schedule' = schedule ++ [toUint64 v] ∧ (schedule ≠ [] → schedule.getLastD 0 ≤ toUint64 v) := by
      split at h
      · split at h
        · cases h
        · rename_i hle
          cases h
          exact ⟨rfl, fun _ => by omega⟩
      · rename_i hne
        cases h
        exact ⟨rfl, fun hs => absurd hs hne⟩
    obtain ⟨rfl, hle⟩ := hnext
    refine ⟨v, ⟨hdecimal, hlow, hhigh⟩, rfl, ?_⟩
    rw [List.pairwise_append]
    refine ⟨hsorted, List.pairwise_singleton _ _, fun a ha b hb => ?_⟩
    obtain rfl := List.mem_singleton.1 hb
    exact (le_getLastD hsorted ha).trans (hle (List.ne_nil_of_mem ha))

theorem loadLines_ok {filename : Bytes} : ∀ {ls : List Bytes} {schedule schedule' : List Nat}, schedule.Pairwise (· ≤ ·) →
    ls.foldlM (loadLine filename) schedule = .ok schedule' →
    ∃ vs, List.Forall₂ Reads ls vs ∧ schedule' = schedule ++ vs.map toUint64 ∧ schedule'.Pairwise (· ≤ ·)
  | [], schedule, schedule', hsorted, h => by
    cases h
    exact ⟨[], .nil, by simp, hsorted⟩
  | line :: ls, schedule, schedule', hsorted, h => by
    rw [List.foldlM_cons] at h
    obtain ⟨schedule₁, hline, h⟩ := Run.bind_ok h
    obtain ⟨v, hv, rfl, hsorted₁⟩ := loadLine_ok hsorted hline
    obtain ⟨vs, hvs, rfl, hsorted'⟩ := loadLines_ok hsorted₁ h
    exact ⟨v :: vs, .cons hv hvs, by simp, hsorted'⟩

/-- A file that is accepted has an integer on each line, and as `uint64_t` they make a trace. -/
theorem loadSchedule_ok {filename content : Bytes} {schedule : List Nat}
    (h : loadSchedule filename (some content) = .ok schedule) :
    ∃ vs, List.Forall₂ Reads (lines content) vs ∧ schedule = vs.map toUint64 ∧ LinkQueue.Trace schedule := by
  unfold loadSchedule at h
  dsimp only at h
  obtain ⟨schedule', hlines, h⟩ := Run.bind_ok h
  split at h
  · cases h
  · split at h
    · cases h
    · rename_i hlast
      cases h
      obtain ⟨vs, hvs, heq, hsorted⟩ := loadLines_ok List.Pairwise.nil hlines
      exact ⟨vs, hvs, heq, hsorted, by omega⟩

/-! ## The times that are produced -/

namespace Clock

/-- The sum that `next_delivery_time` forms. -/
def sum (c : Clock) : Nat := c.schedule.getD c.nextDelivery 0 + c.baseTimestamp

/-- The sums are below `2 ^ 63` while the clock makes so many ticks. -/
def SumsBelow (n : Nat) (c : Clock) : Prop := ∀ i < n, (tick^[i] c).finished = false → (tick^[i] c).sum < 2 ^ 63

/-- The next opportunity of a clock that has gone through its schedule from the first one on. -/
structure Running (c : Clock) : Prop where
  index : c.nextDelivery < c.schedule.length
  narrow : c.nextDelivery < 2 ^ 32
  base : c.baseTimestamp < 2 ^ 64
  trace : LinkQueue.Trace c.schedule
  last : c.schedule.getLastD 0 < 2 ^ 63

theorem time_of_sum {c : Clock} (hrunning : c.finished = false) (hsum : c.sum < 2 ^ 63) : c.time = c.sum := by
  unfold time
  rw [if_neg (by rw [hrunning]; exact Bool.false_ne_true)]
  exact u64_eq (by unfold sum at hsum; omega)

theorem time_of_finished {c : Clock} (h : c.finished = true) : c.time = 2 ^ 64 - 1 := if_pos h

theorem Running.tick {c : Clock} (h : Running c) : Running c.tick := by
  obtain ⟨hindex, hbase⟩ := InSchedule.tick ⟨h.index, h.base⟩
  refine ⟨hindex, ?_, hbase, by rw [tick_schedule]; exact h.trace, by rw [tick_schedule]; exact h.last⟩
  have hle := Nat.mod_le (u32 (c.nextDelivery + 1)) c.schedule.length
  have hlt : u32 (c.nextDelivery + 1) < 2 ^ 32 := Nat.mod_lt _ (by decide)
  have hnext : c.tick.nextDelivery = u32 (c.nextDelivery + 1) % c.schedule.length := by
    unfold Clock.tick
    dsimp only
    split <;> [split; skip] <;> rfl
  omega

/-- Using an opportunity never takes the next delivery back. -/
theorem time_le_tick {c : Clock} (h : Running c) (hsum : c.finished = false → c.sum < 2 ^ 63)
    (hnext : c.tick.finished = false → c.tick.sum < 2 ^ 63) : c.time ≤ c.tick.time := by
  cases hc : c.finished with
  | true => rw [time_of_finished hc, time_of_finished (tick_finished hc)]
  | false =>
    have hsum := hsum hc
    have hlast := h.last
    rw [time_of_sum hc hsum]
    cases ht : c.tick.finished with
    | true =>
      -- a finished clock is past every opportunity
      rw [time_of_finished ht]
      omega
    | false =>
      rw [time_of_sum ht (hnext ht)]
      have hnarrow := h.narrow
      unfold Clock.tick at ht ⊢
      dsimp only at ht ⊢
      unfold sum at hsum ⊢
      by_cases hwrap : u32 (c.nextDelivery + 1) % c.schedule.length = 0
      · rw [if_pos hwrap] at ht ⊢
        by_cases hrepeats : c.repeats = true
        · rw [if_pos hrepeats]
          have hle := h.trace.getD_le h.index
          dsimp only
          -- the first entry a pass later, and no entry is past the last one
          rw [u64_eq (by omega)]
          omega
        · rw [if_neg hrepeats] at ht
          cases ht
      · -- the entry after this one
        rw [if_neg hwrap]
        dsimp only
        -- the index counts in 32 bits, and where it wraps around it is the first one
        have hin : u32 (c.nextDelivery + 1) % c.schedule.length = c.nextDelivery + 1 ∧
            c.nextDelivery + 1 < c.schedule.length := by
          have hlt := h.index
          rcases Nat.lt_or_ge (c.nextDelivery + 1) (2 ^ 32) with hfit | hover
          · rw [u32_eq hfit] at hwrap ⊢
            rcases Nat.lt_or_ge (c.nextDelivery + 1) c.schedule.length with hmore | hend
            · exact ⟨Nat.mod_eq_of_lt hmore, hmore⟩
            · rw [show c.nextDelivery + 1 = c.schedule.length by omega, Nat.mod_self] at hwrap
              exact absurd rfl hwrap
          · rw [show c.nextDelivery + 1 = 2 ^ 32 by omega] at hwrap
            exact absurd (Nat.zero_mod _) hwrap
        have hmono : opportunity c.schedule c.baseTimestamp c.nextDelivery ≤ opportunity c.schedule c.baseTimestamp (c.nextDelivery + 1) :=
          opportunity_mono h.trace (Nat.le_succ c.nextDelivery)
        unfold opportunity at hmono
        rw [hin.1]
        rw [Nat.mod_eq_of_lt h.index, Nat.mod_eq_of_lt hin.2, Nat.div_eq_of_lt h.index, Nat.div_eq_of_lt hin.2] at hmono
        omega

theorem Running.iterate : ∀ (i : Nat) {c : Clock}, Running c → Running (Clock.tick^[i] c)
  | 0, _, h => h
  | i + 1, _, h => h.tick.iterate i

theorem time_mono {n : Nat} {c : Clock} (h : Running c) (hsums : SumsBelow n c) {i j : Nat} (hij : i ≤ j) (hj : j < n) :
    (tick^[i] c).time ≤ (tick^[j] c).time := by
  induction j, hij using Nat.le_induction with
  | base => exact le_rfl
  | succ j hij ih =>
    have hnext := hsums (j + 1) hj
    rw [Function.iterate_succ_apply'] at hnext ⊢
    exact (ih (by omega)).trans (time_le_tick (h.iterate j) (hsums j (by omega)) hnext)

end Clock

namespace LinkQueue

variable {Q : Type} {q : LinkQueue Q}

theorem nextDeliveryTime_of_index (h : q.nextDelivery < q.schedule.length) : q.nextDeliveryTime = .ok q.clock.time := by
  unfold nextDeliveryTime Clock.time clock
  dsimp only
  split
  · rfl
  · rw [List.getElem?_eq_getElem h, List.getD_eq_getElem?_getD, List.getElem?_eq_getElem h]
    rfl

/-- An opportunity can be used where the next delivery has a time. -/
theorem use_of_nextDeliveryTime {t : Nat} (h : q.nextDeliveryTime = .ok t) : ∃ q', q.useADeliveryOpportunity = .ok q' := by
  unfold useADeliveryOpportunity recordDepartureOpportunity
  rw [h]
  simp only [Run.ok_bind, Run.pure_ok]
  split
  · split
    · exact ⟨_, rfl⟩
    · exact ⟨_, rfl⟩
  · exact ⟨_, rfl⟩

theorem deliveryTimes_eq : ∀ (n : Nat) {q : LinkQueue Q}, q.clock.Running →
    q.deliveryTimes n = .ok ((List.range n).map fun i => (Clock.tick^[i] q.clock).time)
  | 0, _, _ => rfl
  | n + 1, q, h => by
    have htime := nextDeliveryTime_of_index h.index
    obtain ⟨q', hq'⟩ := use_of_nextDeliveryTime htime
    have hclock := (use_ok hq').1
    unfold deliveryTimes
    rw [htime, Run.ok_bind, hq', Run.ok_bind, deliveryTimes_eq n (by rw [hclock]; exact h.tick), Run.ok_bind, hclock,
      List.range_succ_eq_map, List.map_cons, List.map_map]
    rfl

theorem deliveryTimes_sorted {n : Nat} (h : q.clock.Running) (hsums : q.clock.SumsBelow n) :
    ∃ times, q.deliveryTimes n = .ok times ∧ times.Pairwise (· ≤ ·) := by
  refine ⟨_, deliveryTimes_eq n h, ?_⟩
  rw [List.pairwise_map]
  refine List.pairwise_lt_range.imp_of_mem fun _ hj hlt => ?_
  exact Clock.time_mono h hsums hlt.le (List.mem_range.1 hj)

/-! ## What is accepted -/

/-- The file gives a valid trace: on every line a decimal integer that is not negative and that a `long` holds, in
order, and the last one positive. -/
def ValidFile (content : Bytes) : Prop :=
  ∃ values : List Nat, List.Forall₂ (fun line (n : Nat) => SignedDecimal line n ∧ n < 2 ^ 63) (lines content) values ∧
    values.Pairwise (· ≤ ·) ∧ 0 < values.getLastD 0

/-- Where no line is negative the conversion changes nothing. -/
theorem values_of_nonneg {ls : List Bytes} {vs : List Int} (h : List.Forall₂ Reads ls vs)
    (hnonneg : ∀ line ∈ ls, ∀ n, SignedDecimal line n → 0 ≤ n) :
    List.Forall₂ (fun line (n : Nat) => SignedDecimal line n ∧ n < 2 ^ 63) ls (vs.map toUint64) ∧
      ∀ n ∈ vs.map toUint64, n < 2 ^ 63 := by
  induction h with
  | nil => exact ⟨.nil, by simp⟩
  | @cons line v ls vs hv _ ih =>
    obtain ⟨hvalues, hbounds⟩ := ih fun line hline => hnonneg line (List.mem_cons_of_mem _ hline)
    have hsame := toUint64_of_nonneg (hnonneg line (List.mem_cons_self ..) v hv.decimal) hv.high
    have hfit : toUint64 v < 2 ^ 63 := by
      have := hv.high
      omega
    refine ⟨.cons ⟨by rw [hsame]; exact hv.decimal, hfit⟩ hvalues, fun n hn => ?_⟩
    rcases List.mem_cons.1 hn with rfl | hn
    · exact hfit
    · exact hbounds n hn

/-- A file that is accepted gives a valid trace, and a link whose deliveries never go back, exactly when no line
of it is a negative integer. -/
theorem accepted_valid_iff {filename content : Bytes} {schedule : List Nat} {packetQueue : Q} {log : Option (List LogLine)}
    (hload : loadSchedule filename (some content) = .ok schedule) :
    (ValidFile content ∧ ∀ base < 2 ^ 64, ∀ repeats n,
      (Clock.mk 0 schedule base repeats false).SumsBelow n →
      ∃ times, deliveryTimes n { schedule := schedule, baseTimestamp := base, packetQueue := packetQueue, log := log, repeats := repeats } =
        .ok times ∧ times.Pairwise (· ≤ ·)) ↔
    ∀ line ∈ lines content, ∀ n, SignedDecimal line n → 0 ≤ n := by
  obtain ⟨vs, hvs, rfl, htrace⟩ := loadSchedule_ok hload
  constructor
  · rintro ⟨⟨values, hvalues, -⟩, -⟩ line hline n hn
    obtain ⟨i, hi, rfl⟩ := List.getElem_of_mem hline
    obtain ⟨hdecimal, -⟩ := List.Forall₂.get hvalues hi (by rw [← hvalues.length_eq]; exact hi)
    rw [hn.unique hdecimal]
    exact Int.natCast_nonneg _
  · intro hnonneg
    obtain ⟨hvalues, hbounds⟩ := values_of_nonneg hvs hnonneg
    refine ⟨⟨_, hvalues, htrace.sorted, htrace.last⟩, fun base hbase repeats n hsums => ?_⟩
    have hlast : (vs.map toUint64).getLastD 0 < 2 ^ 63 := by
      refine hbounds _ ?_
      have hne : vs.map toUint64 ≠ [] := List.length_pos_iff.1 htrace.length_pos
      rw [List.getLastD_eq_getLast?, List.getLast?_eq_getLast_of_ne_nil hne]
      exact List.getLast_mem hne
    have hrunning : (Clock.mk 0 (vs.map toUint64) base repeats false).Running :=
      ⟨htrace.length_pos, by dsimp only; omega, hbase, htrace, hlast⟩
    exact deliveryTimes_sorted hrunning hsums

/-- The entries of a file, one a line. -/
def file (entries : List String) : Bytes := entries.flatMap fun entry => ascii entry ++ [10]

/-- White space and a plus sign are let through. -/
theorem accepted_valid_small : loadSchedule (ascii "trace") (some (file ["5", " +7"])) = .ok [5, 7] ∧
    ValidFile (file ["5", " +7"]) := by
  have hload : loadSchedule (ascii "trace") (some (file ["5", " +7"])) = .ok [5, 7] := by decide +kernel
  have hlines : lines (file ["5", " +7"]) = [ascii "5", ascii " +7"] := by decide +kernel
  have hfive : SignedDecimal (ascii "5") 5 := (myatoi_ok_iff.1 (by decide +kernel : myatoi (ascii "5") 10 = .ok 5)).1
  have hseven : SignedDecimal (ascii " +7") 7 := (myatoi_ok_iff.1 (by decide +kernel : myatoi (ascii " +7") 10 = .ok 7)).1
  have hnonneg : ∀ line ∈ lines (file ["5", " +7"]), ∀ n, SignedDecimal line n → 0 ≤ n := by
    intro line hline n hn
    rw [hlines] at hline
    rcases List.mem_pair.1 hline with rfl | rfl
    · rw [hn.unique hfive]
      decide
    · rw [hn.unique hseven]
      decide
  obtain ⟨hvalid, -⟩ := (@accepted_valid_iff Unit _ _ _ () none hload).2 hnonneg
  exact ⟨hload, hvalid⟩

/-- The last line is negative, and the deliveries of a link that is constructed at 10 ms go back from 15 ms to 7. -/
theorem negative_last_line :
    loadSchedule (ascii "trace") (some (file ["5", "-3"])) = .ok [5, 2 ^ 64 - 3] ∧
    ascii "-3" ∈ lines (file ["5", "-3"]) ∧ (∀ n : Nat, ¬ SignedDecimal (ascii "-3") n) ∧
    deliveryTimes 2 { schedule := [5, 2 ^ 64 - 3], baseTimestamp := 10, packetQueue := (), repeats := true } = .ok [15, 7] := by
  refine ⟨by decide +kernel, by decide +kernel, fun n hn => ?_, by decide +kernel⟩
  have hthree : SignedDecimal (ascii "-3") (-3) := (myatoi_ok_iff.1 (by decide +kernel : myatoi (ascii "-3") 10 = .ok (-3))).1
  have := hn.unique hthree
  omega

end LinkQueue

end AbcMahimahi.Frontend
