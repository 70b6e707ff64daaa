/-
The subscripts of `WEIGHTEDPacketQueue`: `enqueue` and `dequeue` again, watched for one past the end of a vector. There
are none but in what a `dequeue` prints now and then, which reads the six largest demands, however many there are.
-/
import AbcMahimahi.Packet.WeightedOrder
import AbcMahimahi.Packet.WeightedShares

namespace AbcMahimahi.Packet.WEIGHTEDPacketQueue

open Bytes CELLULARPacketQueue

/-! ## The code, watched -/

/-- `v[i]`. -/
def index (v : List ℚ) (i : Nat) : Except Hazard ℚ := if i < v.length then .ok (v.getD i 0) else .error .outOfBounds

/-- The update of `zombie1` or `zombie2`. -/
def watchedZombies (zombie : List ℚ) (src draw draw' : Nat) : Except Hazard (List ℚ) := do
  let zombie := zombie.set 0 ((1 - alpha) * (← index zombie 0))
  let random := draw % zombies + 1
  if zombie.length ≤ zombies then do
    let zombie := zombie ++ [(src : ℚ)]
    pure (zombie.set 0 ((← index zombie 0) + alpha))
  else do
    let other ← index zombie random
    if other = src then pure (zombie.set 0 ((← index zombie 0) + alpha))
    else if ((draw' % zombies : Nat) : ℚ) < zombies * prob then do
      let _ ← index zombie random
      pure (zombie.set random src)
    else pure zombie

def watchedEnqueue1 (q : WEIGHTEDPacketQueue) (p : QueuedPacket) (src draw draw' : Nat) :
    Except Hazard WEIGHTEDPacketQueue := do
  let zombie1 ← watchedZombies q.zombie1 src draw draw'
  let queue1 ← watched (DropTailPacketQueue.enqueue q.queue1 p)
  pure { q with category1 := addAlpha src q.category1, zombie1 := zombie1, queue1 := queue1 }

def watchedEnqueue2 (q : WEIGHTEDPacketQueue) (p : QueuedPacket) (src draw draw' : Nat) :
    Except Hazard WEIGHTEDPacketQueue := do
  let zombie2 ← watchedZombies q.zombie2 src draw draw'
  let queue2 ← watched (q.queue2.enqueue p)
  pure { q with category2 := addAlpha src q.category2, zombie2 := zombie2, queue2 := queue2 }

def watchedEnqueue (q : WEIGHTEDPacketQueue) (p : QueuedPacket) (draw draw' : Nat) : Except Hazard WEIGHTEDPacketQueue := do
  let ports ← watched (orOutOfRange (substr p.contents 24 4))
  let src := (parsePorts ports).1
  let q ← (if toQueue1 src then q.watchedEnqueue1 p src draw draw' else q.watchedEnqueue2 p src draw draw')
  watched (do
    check "good()" (← q.base.good)
    pure q)

/-- The loop that adds the sums to `v4`, from the indices left. -/
def watchedSums (v3 : List ℚ) : List Nat → List ℚ → Except Hazard (List ℚ)
  | [], v4 => pure v4
  | i :: is, v4 => do
    let sum ← index v4 i
    let d ← index v3 i
    watchedSums v3 is (v4 ++ [sum + d])

/-- The loop that finds `alpha_water`, from the indices left. -/
def watchedLoop (v3 v4 : List ℚ) (actualDequeOverall : ℚ) : List Nat → ℚ → Except Hazard ℚ
  | [], alphaWater => pure alphaWater
  | i :: is, _ => do
    let sum ← index v4 i
    let d ← index v3 i
    if sum + d * (v3.length - i : Nat) > actualDequeOverall then
      pure ((actualDequeOverall - sum) / (v3.length - i : Nat))
    else watchedLoop v3 v4 actualDequeOverall is d

/-- What is printed from `v3` and `v4`. A `size_t` has 64 bits. -/
def printed (v3 v4 : List ℚ) : Except Hazard (List ℚ) := do
  let demands ← [6, 1, 2, 3, 4, 5].mapM fun k => index v3 (sub64 v3.length k)
  let sum ← index v4 (sub64 v4.length 7)
  pure (demands ++ [sum])

/-- The weight for the rates there are, when the draw that decides on the printing is `print`. -/
def watchedWeight (q : WEIGHTEDPacketQueue) (print : Nat) : Except Hazard ℚ := do
  let v3 := ((q.category1 ++ q.category2).map fun c => demand c.1 c.2).mergeSort
  let v4 ← watchedSums v3 (List.range v3.length) [0]
  let level ← watchedLoop v3 v4 (actualDequeOverall q.category1 q.category2) (List.range v3.length) 0
  let rand1 := share level q.category1
  let rand2 := share level q.category2
  let _ ← index q.zombie1 0
  let _ ← index q.zombie2 0
  let _ ← (if print % 1000 > 990 then printed v3 v4 else pure [])
  pure (clampWeight q.actualDeque (rand1 / (rand1 + rand2)))

def watchedDequeue (q : WEIGHTEDPacketQueue) (print clock draw : Nat) :
    Except Hazard (QueuedPacket × WEIGHTEDPacketQueue) :=
  if q.empty then watched (q.dequeue2 clock)
  else do
    let weight ← q.decay.watchedWeight print
    watched ((q.decay.setWeight weight).pick clock draw)

/-! ## An enqueue -/

theorem index_eq {v : List ℚ} {i : Nat} (h : i < v.length) : index v i = .ok (v.getD i 0) := if_pos h

/-- The zombies begin with the counter. -/
structure Counted (q : WEIGHTEDPacketQueue) : Prop where
  zombie1 : 0 < q.zombie1.length
  zombie2 : 0 < q.zombie2.length

theorem watchedZombies_eq {zombie : List ℚ} (h : 0 < zombie.length) (src draw draw' : Nat) :
    watchedZombies zombie src draw draw' = .ok (updateZombies zombie src draw draw') := by
  unfold watchedZombies updateZombies
  rw [index_eq h, Run.ok_bind]
  dsimp only
  generalize hset : zombie.set 0 ((1 - alpha) * zombie.getD 0 0) = zombie'
  have hlen : 0 < zombie'.length := by
    rw [← hset, List.length_set]
    exact h
  split
  · rw [index_eq (by rw [List.length_append]; omega)]
    rfl
  · rename_i hfull
    have hrandom : draw % zombies + 1 < zombie'.length := by
      have := Nat.mod_lt draw (show 0 < zombies by decide)
      omega
    rw [index_eq hrandom, Run.ok_bind]
    split
    · rw [index_eq hlen]
      rfl
    · split
      · rfl
      · rfl

theorem length_updateZombies {zombie : List ℚ} (h : 0 < zombie.length) (src draw draw' : Nat) :
    0 < (updateZombies zombie src draw draw').length := by
  unfold updateZombies
  dsimp only
  split
  · simp
  · split
    · simpa using h
    · split
      · simpa using h
      · simpa using h

/-- There is nothing to watch for in an `enqueue`. -/
theorem watchedEnqueue_eq {q : WEIGHTEDPacketQueue} (h : Counted q) (p : QueuedPacket) (draw draw' : Nat) :
    q.watchedEnqueue p draw draw' = watched (q.enqueue p draw draw') := by
  unfold watchedEnqueue enqueue
  cases orOutOfRange (substr p.contents 24 4) with
  | error e => rfl
  | ok ports =>
    rw [watched_ok, Run.ok_bind, Run.ok_bind]
    dsimp only
    split
    · unfold watchedEnqueue1 enqueue1
      rw [watchedZombies_eq h.zombie1, Run.ok_bind]
      cases DropTailPacketQueue.enqueue q.queue1 p with
      | error e => rfl
      | ok queue1 => rfl
    · unfold watchedEnqueue2 enqueue2
      rw [watchedZombies_eq h.zombie2, Run.ok_bind]
      cases q.queue2.enqueue p with
      | error e => rfl
      | ok queue2 => rfl

/-! ## A dequeue -/

/-- The sums that are there so far are read for the next. -/
theorem watchedSums_eq (v : List ℚ) : ∀ (n i : Nat), i + n = v.length →
    watchedSums v (List.range' i n) ((v.take i).scanl (· + ·) 0) = .ok (v.scanl (· + ·) 0)
  | 0, i, hi => by
    rw [List.take_of_length_le (by omega)]
    rfl
  | n + 1, i, hi => by
    have hlt : i < v.length := by omega
    have hlen : (v.take i).length = i := by
      rw [List.length_take]
      omega
    rw [List.range'_succ]
    unfold watchedSums
    rw [index_eq (by rw [List.length_scanl, hlen]; omega), Run.ok_bind, index_eq hlt, Run.ok_bind, getD_scanl hlen.ge,
      List.take_of_length_le hlen.le, List.getD_eq_getElem?_getD, List.getElem?_eq_getElem hlt, Option.getD_some]
    have hnext : (v.take i).scanl (· + ·) 0 ++ [(v.take i).sum + v[i]] = (v.take (i + 1)).scanl (· + ·) 0 := by
      rw [List.take_succ_eq_append_getElem hlt, List.scanl_append, List.scanl_singleton, List.tail_cons,
        ← List.sum_eq_foldl]
    rw [hnext, watchedSums_eq v n (i + 1) (by omega)]

theorem watchedLoop_eq {v3 v4 : List ℚ} (hlen : v4.length = v3.length + 1) (capacity : ℚ) :
    ∀ (is : List Nat) (level : ℚ), (∀ i ∈ is, i < v3.length) →
      watchedLoop v3 v4 capacity is level = .ok (waterLoop v3 v4 capacity is level)
  | [], level, _ => rfl
  | i :: is, level, his => by
    have hi := his i (List.mem_cons_self ..)
    unfold watchedLoop waterLoop
    rw [index_eq (by omega), Run.ok_bind, index_eq hi, Run.ok_bind]
    split
    · rfl
    · exact watchedLoop_eq hlen capacity is _ fun j hj => his j (List.mem_cons_of_mem _ hj)

/-- Six demands are printed, if there are so many. -/
theorem printed_ok_iff {v3 v4 : List ℚ} (hlen : v4.length = v3.length + 1) :
    ((∃ values, printed v3 v4 = .ok values) ↔ 6 ≤ v3.length) ∧
      (v3.length < 6 → printed v3 v4 = .error .outOfBounds) := by
  have hfew : v3.length < 6 → printed v3 v4 = .error .outOfBounds := by
    intro hfew
    -- the subscript goes below zero, and as a `size_t` past any end
    have hpast : ¬ sub64 v3.length 6 < v3.length := by
      unfold sub64
      omega
    unfold printed
    rw [List.mapM_cons, index, if_neg hpast]
    rfl
  refine ⟨⟨?_, ?_⟩, hfew⟩
  · rintro ⟨values, hok⟩
    by_contra hlt
    rw [hfew (not_le.1 hlt)] at hok
    cases hok
  · intro hsix
    have hin : ∀ k ∈ [6, 1, 2, 3, 4, 5], index v3 (sub64 v3.length k) = .ok (v3.getD (sub64 v3.length k) 0) := by
      intro k hk
      refine index_eq ?_
      have hk : 1 ≤ k ∧ k ≤ 6 := by
        simp only [List.mem_cons, List.not_mem_nil, or_false] at hk
        omega
      unfold sub64
      omega
    have hsum : sub64 v4.length 7 < v4.length := by
      unfold sub64
      omega
    unfold printed
    simp only [List.mem_cons, List.not_mem_nil, or_false, forall_eq_or_imp, forall_eq] at hin
    obtain ⟨h6, h1, h2, h3, h4, h5⟩ := hin
    simp only [List.mapM_cons, List.mapM_nil, h6, h1, h2, h3, h4, h5, index_eq hsum, Run.ok_bind, Run.pure_ok]
    exact ⟨_, rfl⟩

/-- The weight is computed in bounds, unless too few demands are printed. -/
theorem watchedWeight_eq {q : WEIGHTEDPacketQueue} (h : Counted q) (print : Nat) :
    (print % 1000 ≤ 990 ∨ 6 ≤ q.category1.length + q.category2.length → q.watchedWeight print = .ok q.nextWeight) ∧
    (¬ (print % 1000 ≤ 990 ∨ 6 ≤ q.category1.length + q.category2.length) →
      q.watchedWeight print = .error .outOfBounds) := by
  unfold watchedWeight
  dsimp only
  generalize hv : ((q.category1 ++ q.category2).map fun c => demand c.1 c.2).mergeSort = v3
  have hlen : v3.length = q.category1.length + q.category2.length := by
    rw [← hv, List.length_mergeSort, List.length_map, List.length_append]
  -- one sum more than there are demands, so the loops over them stay inside
  have hsums : watchedSums v3 (List.range v3.length) [0] = .ok (v3.scanl (· + ·) 0) := by
    rw [List.range_eq_range']
    exact watchedSums_eq v3 v3.length 0 (Nat.zero_add _)
  have hlevel : waterLoop v3 (v3.scanl (· + ·) 0) (actualDequeOverall q.category1 q.category2) (List.range v3.length) 0 =
      alphaWater q.category1 q.category2 := by
    rw [← hv]
    rfl
  have hscan : (v3.scanl (· + ·) 0).length = v3.length + 1 := List.length_scanl
  have hloop := watchedLoop_eq hscan
    (actualDequeOverall q.category1 q.category2) (List.range v3.length) 0 fun i hi => List.mem_range.1 hi
  obtain ⟨hprinted, hfew⟩ := printed_ok_iff hscan
  rw [hsums, Run.ok_bind, hloop, Run.ok_bind, hlevel, index_eq h.zombie1, Run.ok_bind, index_eq h.zombie2, Run.ok_bind]
  rw [hlen] at hprinted hfew
  constructor
  · intro hcond
    split
    · rename_i hprint
      obtain ⟨values, hok⟩ := hprinted.2 (hcond.resolve_left (by omega))
      rw [hok, Run.ok_bind]
      rfl
    · rfl
  · intro hcond
    rw [not_or, not_le, not_le] at hcond
    rw [if_pos hcond.1, hfew hcond.2]
    rfl

/-- A `dequeue` from a queue that holds a packet does what it does unwatched, or prints too few demands. -/
theorem watchedDequeue_eq {q : WEIGHTEDPacketQueue} (h : Counted q) (hne : q.empty = false) (print clock draw : Nat) :
    (print % 1000 ≤ 990 ∨ 6 ≤ q.category1.length + q.category2.length →
      q.watchedDequeue print clock draw = watched (q.dequeue clock draw)) ∧
    (¬ (print % 1000 ≤ 990 ∨ 6 ≤ q.category1.length + q.category2.length) →
      q.watchedDequeue print clock draw = .error .outOfBounds) := by
  have hcount : q.decay.category1.length + q.decay.category2.length = q.category1.length + q.category2.length := by
    unfold decay
    rw [List.length_map, List.length_map]
  have hdecay : Counted q.decay := ⟨h.zombie1, h.zombie2⟩
  obtain ⟨hok, herror⟩ := watchedWeight_eq hdecay print
  rw [hcount] at hok herror
  unfold watchedDequeue dequeue dequeueAt
  rw [hne]
  constructor
  · intro hcond
    rw [if_neg Bool.false_ne_true, if_neg Bool.false_ne_true, hok hcond, Run.ok_bind]
  · intro hcond
    rw [if_neg Bool.false_ne_true, herror hcond]
    rfl

/-! ## Runs -/

theorem enqueue_counted {q q' : WEIGHTEDPacketQueue} {p : QueuedPacket} {draw draw' : Nat} (h : Counted q)
    (he : q.enqueue p draw draw' = .ok q') : Counted q' := by
  unfold enqueue at he
  obtain ⟨ports, -, he⟩ := Run.bind_ok he
  obtain ⟨q₁, h₁, he⟩ := Run.bind_ok he
  obtain ⟨_, -, he⟩ := Run.bind_ok he
  obtain ⟨_, -, he⟩ := Run.bind_ok he
  cases he
  split at h₁
  · obtain ⟨queue1, -, h₁⟩ := Run.bind_ok h₁
    cases h₁
    exact ⟨length_updateZombies h.zombie1 _ _ _, h.zombie2⟩
  · obtain ⟨queue2, -, h₁⟩ := Run.bind_ok h₁
    cases h₁
    exact ⟨h.zombie1, length_updateZombies h.zombie2 _ _ _⟩

/-- The zombies are left alone. -/
def SameZombies (q q' : WEIGHTEDPacketQueue) : Prop := q'.zombie1 = q.zombie1 ∧ q'.zombie2 = q.zombie2

theorem dequeue1_zombies {q q' : WEIGHTEDPacketQueue} {below : Bool} {clock : Nat} {ret : QueuedPacket}
    (hd : q.dequeue1 below clock = .ok (ret, q')) : SameZombies q q' := by
  unfold dequeue1 at hd
  obtain ⟨⟨p, queue1⟩, -, hd⟩ := Run.bind_ok hd
  dsimp only at hd
  split at hd
  · obtain ⟨⟨arbit, queue2⟩, -, hd⟩ := Run.bind_ok hd
    cases hd
    exact ⟨rfl, rfl⟩
  · cases hd
    exact ⟨rfl, rfl⟩

theorem dequeue2_zombies {q q' : WEIGHTEDPacketQueue} {clock : Nat} {ret : QueuedPacket}
    (hd : q.dequeue2 clock = .ok (ret, q')) : SameZombies q q' := by
  obtain ⟨⟨p, queue2⟩, -, hd⟩ := Run.bind_ok hd
  cases hd
  exact ⟨rfl, rfl⟩

theorem dequeueAt_zombies {q q' : WEIGHTEDPacketQueue} {weight : ℚ} {clock draw : Nat} {ret : QueuedPacket}
    (hd : q.dequeueAt weight clock draw = .ok (ret, q')) : SameZombies q q' := by
  unfold dequeueAt at hd
  split at hd
  · exact dequeue2_zombies hd
  · obtain ⟨⟨p, q₁⟩, hp, hd⟩ := Run.bind_ok hd
    cases hd
    split at hp
    · obtain ⟨h₁, h₂⟩ := dequeue1_zombies hp
      exact ⟨h₁, h₂⟩
    · obtain ⟨h₁, h₂⟩ := dequeue2_zombies hp
      exact ⟨h₁, h₂⟩

theorem step_counted {q q' : WEIGHTEDPacketQueue} {op : Op} {out : Outcome} (h : Counted q)
    (hs : q.step op = .ok (out, q')) : Counted q' := by
  cases op with
  | enqueue p draw draw' =>
    obtain ⟨q₁, he, hs⟩ := Run.bind_ok hs
    cases hs
    exact enqueue_counted h he
  | dequeue weight clock draw =>
    obtain ⟨⟨ret, q₁⟩, hd, hs⟩ := Run.bind_ok hs
    cases hs
    obtain ⟨h₁, h₂⟩ := dequeueAt_zombies hd
    exact ⟨by rw [h₁]; exact h.zombie1, by rw [h₂]; exact h.zombie2⟩

theorem Initial.counted {q : WEIGHTEDPacketQueue} (h : Initial q) : Counted q := by
  obtain ⟨packets, bytes, qdelayRef, beta, delta, hq⟩ := h
  unfold ofArgs at hq
  obtain ⟨base, -, hq⟩ := Run.bind_ok hq
  obtain ⟨queue1, -, hq⟩ := Run.bind_ok hq
  obtain ⟨queue2, -, hq⟩ := Run.bind_ok hq
  split at hq
  · cases hq
  · cases hq
    exact ⟨Nat.one_pos, Nat.one_pos⟩

theorem run_counted {q₀ q : WEIGHTEDPacketQueue} {ops : List Op} {outs : List Outcome} (hq₀ : Initial q₀)
    (hrun : Run.steps step q₀ ops = .ok (outs, q)) : Counted q :=
  Run.steps_inv (G := fun _ _ => True) (fun _ _ _ _ h _ hs => step_counted h hs) hq₀.counted
    (Run.along_of_forall (fun _ _ _ => trivial) q₀) hrun

/-- In any state that a run has come to, no subscript of an `enqueue` is out of bounds, and one of a `dequeue` from a
queue that holds a packet is exactly when it prints, and has seen packets from fewer than six ports. -/
theorem in_bounds_iff {q₀ q : WEIGHTEDPacketQueue} {ops : List Op} {outs : List Outcome} (hq₀ : Initial q₀)
    (hrun : Run.steps step q₀ ops = .ok (outs, q)) :
    (∀ p draw draw', q.watchedEnqueue p draw draw' ≠ .error .outOfBounds) ∧
    ∀ print clock draw, q.empty = false → (q.watchedDequeue print clock draw ≠ .error .outOfBounds ↔
      print % 1000 ≤ 990 ∨ 6 ≤ q.category1.length + q.category2.length) := by
  have hcounted := run_counted hq₀ hrun
  refine ⟨fun p draw draw' h => ?_, fun print clock draw hne => ?_⟩
  · rw [watchedEnqueue_eq hcounted] at h
    obtain ⟨f, hf⟩ := watched_error h
    cases hf
  · obtain ⟨hok, herror⟩ := watchedDequeue_eq hcounted hne print clock draw
    constructor
    · intro h
      by_contra hcond
      exact h (herror hcond)
    · intro hcond h
      rw [hok hcond] at h
      obtain ⟨f, hf⟩ := watched_error h
      cases hf

/-- One packet has come, from port 0. -/
theorem one_packet : ∃ outs q, Run.steps step pair [.enqueue bareEct 0 0] = .ok (outs, q) ∧ q.empty = false ∧
    q.category1.length + q.category2.length = 1 := by
  have hrun : (fun r => (r.2.empty, r.2.category1.length + r.2.category2.length)) <$>
      Run.steps step pair [.enqueue bareEct 0 0] = .ok (false, 1) := by decide +kernel
  obtain ⟨⟨outs, q⟩, hq, hfacts⟩ := Run.map_eq_ok hrun
  obtain ⟨hne, hports⟩ := Prod.mk.inj hfacts
  exact ⟨outs, q, hq, hne, hports⟩

/-- Most of the draws print nothing. -/
theorem in_bounds_small : ∃ outs q, Run.steps step pair [.enqueue bareEct 0 0] = .ok (outs, q) ∧
    q.watchedDequeue 990 0 0 ≠ .error .outOfBounds := by
  obtain ⟨outs, q, hrun, hne, -⟩ := one_packet
  exact ⟨outs, q, hrun, ((in_bounds_iff pair_initial hrun).2 990 0 0 hne).2 (Or.inl (by decide))⟩

/-- The draw 991 prints the six largest of one demand. -/
theorem prints_past_end : Initial pair ∧ ∃ outs q, Run.steps step pair [.enqueue bareEct 0 0] = .ok (outs, q) ∧
    q.empty = false ∧ q.watchedDequeue 991 0 0 = .error .outOfBounds := by
  obtain ⟨outs, q, hrun, hne, hports⟩ := one_packet
  refine ⟨pair_initial, outs, q, hrun, hne, (watchedDequeue_eq (run_counted pair_initial hrun) hne 991 0 0).2 ?_⟩
  rw [hports]
  decide

end AbcMahimahi.Packet.WEIGHTEDPacketQueue
