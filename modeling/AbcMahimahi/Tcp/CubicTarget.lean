/-
The target of the cubic function against its value over the integers. `bictcp_update` computes
`c/rtt * (t - K)^3` in 64 bits and takes it from the origin, or adds it, in 32. That is the
value over the integers as long as the age of the epoch is within 355668 units of `K`, some 347 seconds, and
the part below the origin does not fall below zero.
-/
import AbcMahimahi.Tcp.CubicGrowth

namespace AbcMahimahi.Tcp.TcpAbcCubic

open Word

/-! ## The intermediate values -/

/-- `offs`. -/
def offsOf (ca : Bictcp) (t : UInt64) : UInt64 :=
  if t < ca.bicK.toUInt64 then ca.bicK.toUInt64 - t else t - ca.bicK.toUInt64

/-- `cube_rtt_scale * offs * offs * offs`. -/
def cubedOf (offs : UInt64) : UInt64 := cubeRttScale * offs * offs * offs

/-- `delta`. -/
def deltaOf (offs : UInt64) : UInt32 := (cubedOf offs >>> (10 + 3 * bictcpHz)).toUInt32

theorem bicTarget_eq (ca : Bictcp) (t : UInt64) :
    bicTarget ca t = if t < ca.bicK.toUInt64 then ca.bicOriginPoint - deltaOf (offsOf ca t)
      else ca.bicOriginPoint + deltaOf (offsOf ca t) := rfl

/-! ## Over the integers -/

/-- The age of the epoch. -/
def idealTime (k : Kernel) (ca : Bictcp) (now : UInt32) : Nat :=
  ((now - ca.epochStart).toNat + (k.msecsToJiffies (ca.delayMin >>> 3)).toNat) * 2 ^ 10 / k.hz.toNat

/-- The distance to `K`. -/
def idealOffs (K t : Nat) : Nat := if t < K then K - t else t - K

def idealDelta (offs : Nat) : Nat := 410 * offs ^ 3 / 2 ^ 40

def idealTarget (origin K t : Nat) : Int :=
  if t < K then origin - idealDelta (idealOffs K t) else origin + idealDelta (idealOffs K t)

def idealCnt (lastMax cwnd : Nat) (target : Int) : Nat :=
  let cnt := if target > cwnd then cwnd / (target - cwnd).toNat else 100 * cwnd
  if lastMax = 0 ∧ cnt > 20 then 20 else cnt

/-- Every intermediate value is the one over the integers, and so is `cnt`. -/
structure Exact (k : Kernel) (ca : Bictcp) (now : UInt32) : Prop where
  time : (epochTime k ca now).toNat = idealTime k ca now
  offs : (offsOf ca (epochTime k ca now)).toNat = idealOffs ca.bicK.toNat (idealTime k ca now)
  cubed : (cubedOf (offsOf ca (epochTime k ca now))).toNat = 410 * idealOffs ca.bicK.toNat (idealTime k ca now) ^ 3
  delta : (deltaOf (offsOf ca (epochTime k ca now))).toNat = idealDelta (idealOffs ca.bicK.toNat (idealTime k ca now))
  target : (bicTarget ca (epochTime k ca now)).toNat =
    idealTarget ca.bicOriginPoint.toNat ca.bicK.toNat (idealTime k ca now)
  cnt : ∀ ca', cubicCnt ca ca.cubicSndCwnd (bicTarget ca (epochTime k ca now)) = .ok ca' →
    ca'.cnt.toNat = idealCnt ca.lastMaxCwnd.toNat ca.cubicSndCwnd.toNat
      (idealTarget ca.bicOriginPoint.toNat ca.bicK.toNat (idealTime k ca now))

/-- The age is within 355668 units of `K`, and below the origin the cubic is not below zero. -/
structure InReach (k : Kernel) (ca : Bictcp) (now : UInt32) : Prop where
  near : idealOffs ca.bicK.toNat (idealTime k ca now) ≤ 355668
  nonneg : idealTime k ca now < ca.bicK.toNat →
    410 * (ca.bicK.toNat - idealTime k ca now) ^ 3 / 2 ^ 40 ≤ ca.bicOriginPoint.toNat

/-- Windows below a million, a delay below 100 seconds and an age below `2 ^ 31` jiffies. -/
structure Moderate (ca : Bictcp) (now : UInt32) : Prop where
  cubic : ca.cubicSndCwnd.toNat < 10 ^ 6
  origin : ca.bicOriginPoint.toNat < 10 ^ 6
  delay : ca.delayMin.toNat / 8 < 100 * 1000
  elapsed : (now - ca.epochStart).toNat < 2 ^ 31

/-- A millisecond is no more than `HZ` jiffies. -/
def Kernel.MsecsBounded (k : Kernel) : Prop :=
  ∀ m, m.toNat < 100 * 1000 → (k.msecsToJiffies m).toNat ≤ m.toNat * k.hz.toNat

/-! ## The values, one by one -/

theorem epochTime_toNat {k : Kernel} (hk : k.MsecsBounded) {ca : Bictcp} {now : UInt32} (h : Moderate ca now) :
    (epochTime k ca now).toNat = idealTime k ca now := by
  have hmsec : (ca.delayMin >>> 3).toNat = ca.delayMin.toNat / 8 := by
    rw [UInt32.toNat_shiftRight]
    simp only [UInt32.reduceToNat, Nat.reduceMod, Nat.shiftRight_eq_div_pow, Nat.reducePow]
  have hdelay := h.delay
  have helapsed := h.elapsed
  have hjiffies := hk (ca.delayMin >>> 3) (by rw [hmsec]; exact hdelay)
  rw [hmsec] at hjiffies
  have hbound : ca.delayMin.toNat / 8 * k.hz.toNat ≤ 100 * 1000 * 2 ^ 32 :=
    Nat.mul_le_mul (le_of_lt hdelay) (le_of_lt k.hz.toNat_lt)
  have hsum : ((now - ca.epochStart).toInt32.toInt64.toUInt64 + k.msecsToJiffies (ca.delayMin >>> 3)).toNat =
      (now - ca.epochStart).toNat + (k.msecsToJiffies (ca.delayMin >>> 3)).toNat := by
    rw [UInt64.toNat_add, toNat_toInt64_of_lt helapsed, Nat.mod_eq_of_lt (by omega)]
  unfold epochTime idealTime
  dsimp only
  rw [UInt64.toNat_div, UInt64.toNat_shiftLeft, Nat.shiftLeft_eq, hsum, UInt32.toNat_toUInt64]
  show (_ * 2 ^ 10) % 2 ^ 64 / _ = _
  rw [Nat.mod_eq_of_lt (by omega)]

theorem offsOf_toNat (ca : Bictcp) (t : UInt64) : (offsOf ca t).toNat = idealOffs ca.bicK.toNat t.toNat := by
  unfold offsOf idealOffs
  simp only [UInt64.lt_iff_toNat_lt, UInt32.toNat_toUInt64]
  split
  · rename_i h
    rw [UInt64.toNat_sub_of_le _ _ (UInt64.le_iff_toNat_le.2 (by rw [UInt32.toNat_toUInt64]; omega)),
      UInt32.toNat_toUInt64]
  · rename_i h
    rw [UInt64.toNat_sub_of_le _ _ (UInt64.le_iff_toNat_le.2 (by rw [UInt32.toNat_toUInt64]; omega)),
      UInt32.toNat_toUInt64]

theorem cubedOf_toNat (offs : UInt64) : (cubedOf offs).toNat = 410 * offs.toNat ^ 3 % 2 ^ 64 := by
  have hscale : cubeRttScale.toNat = 410 := by decide
  unfold cubedOf
  simp only [UInt64.toNat_mul, hscale, Nat.mod_mul_mod]
  congr 1
  ring

/-- The largest distance whose cube fits. -/
theorem cubed_lt_iff (offs : Nat) : 410 * offs ^ 3 < 2 ^ 64 ↔ offs ≤ 355668 := by
  constructor
  · intro h
    by_contra hlt
    have hcube : 355669 ^ 3 ≤ offs ^ 3 := Nat.pow_le_pow_left (by omega) 3
    omega
  · intro h
    have hcube : offs ^ 3 ≤ 355668 ^ 3 := Nat.pow_le_pow_left h 3
    omega

theorem deltaOf_toNat {offs : UInt64} (h : offs.toNat ≤ 355668) :
    (deltaOf offs).toNat = idealDelta offs.toNat ∧ idealDelta offs.toNat < 2 ^ 24 := by
  have hfit := (cubed_lt_iff offs.toNat).2 h
  unfold deltaOf idealDelta
  rw [UInt64.toNat_toUInt32, UInt64.toNat_shiftRight, Nat.shiftRight_eq_div_pow, cubedOf_toNat, Nat.mod_eq_of_lt hfit]
  show 410 * offs.toNat ^ 3 / 2 ^ 40 % 2 ^ 32 = _ ∧ _
  omega

theorem bicTarget_toNat {ca : Bictcp} {t : UInt64} (horigin : ca.bicOriginPoint.toNat < 10 ^ 6)
    (hnear : idealOffs ca.bicK.toNat t.toNat ≤ 355668)
    (habove : t.toNat < ca.bicK.toNat → idealDelta (idealOffs ca.bicK.toNat t.toNat) ≤ ca.bicOriginPoint.toNat) :
    ((bicTarget ca t).toNat : Int) = idealTarget ca.bicOriginPoint.toNat ca.bicK.toNat t.toNat := by
  rw [← offsOf_toNat] at hnear habove
  obtain ⟨hdelta, hlt⟩ := deltaOf_toNat hnear
  rw [bicTarget_eq]
  unfold idealTarget
  simp only [UInt64.lt_iff_toNat_lt, UInt32.toNat_toUInt64, ← offsOf_toNat]
  split
  · rename_i h
    have hle := habove h
    rw [toNat_sub_of_le (by rw [hdelta]; exact hle), hdelta]
    omega
  · rw [toNat_add_of_lt (by rw [hdelta]; omega), hdelta]
    omega

/-- `cnt` is what the target makes it. -/
theorem cubicCnt_toNat {ca ca' : Bictcp} {cwnd target : UInt32} (hcwnd : cwnd.toNat < 10 ^ 6)
    (h : cubicCnt ca cwnd target = .ok ca') :
    ca'.cnt.toNat = idealCnt ca.lastMaxCwnd.toNat cwnd.toNat target.toNat := by
  have hcap : ∀ x : UInt32,
      (if ca.lastMaxCwnd = 0 ∧ x > 20 then { ca with cnt := 20 } else { ca with cnt := x }).cnt.toNat =
      if ca.lastMaxCwnd.toNat = 0 ∧ x.toNat > 20 then 20 else x.toNat := by
    intro x
    have hzero : ca.lastMaxCwnd = 0 ↔ ca.lastMaxCwnd.toNat = 0 := UInt32.toNat_inj.symm
    have hmore : x > 20 ↔ x.toNat > 20 := UInt32.lt_iff_toNat_lt
    simp only [hzero, hmore]
    split <;> rfl
  unfold cubicCnt at h
  unfold idealCnt
  dsimp only at h ⊢
  by_cases hgt : target > cwnd
  · have hlt := UInt32.lt_iff_toNat_lt.1 hgt
    rw [if_pos hgt, divU32_ok (sub_ne_zero_of_gt hgt), Run.ok_bind] at h
    cases h
    have hideal : (target.toNat : Int) > cwnd.toNat := by omega
    have hdiff : ((target.toNat : Int) - cwnd.toNat).toNat = target.toNat - cwnd.toNat := by omega
    rw [hcap, if_pos hideal, hdiff, UInt32.toNat_div, toNat_sub_of_le (by omega)]
  · have hle : ¬ cwnd.toNat < target.toNat := fun hlt => hgt (UInt32.lt_iff_toNat_lt.2 hlt)
    rw [if_neg hgt, Run.pure_ok, Run.ok_bind] at h
    cases h
    have hideal : ¬ (target.toNat : Int) > cwnd.toNat := by omega
    rw [hcap, if_neg hideal, toNat_mul_of_lt (by simp only [UInt32.reduceToNat]; omega)]
    rfl

/-- One evaluation is exact just when it is in reach. -/
theorem exact_iff {k : Kernel} (hk : k.MsecsBounded) {ca : Bictcp} {now : UInt32} (h : Moderate ca now) :
    Exact k ca now ↔ InReach k ca now := by
  have htime := epochTime_toNat hk h
  have hoffs := offsOf_toNat ca (epochTime k ca now)
  rw [htime] at hoffs
  constructor
  · intro hexact
    -- the cube fits a word just as far as the offset is in reach
    have hnear : idealOffs ca.bicK.toNat (idealTime k ca now) ≤ 355668 := by
      rw [← cubed_lt_iff, ← hexact.cubed]
      exact UInt64.toNat_lt _
    refine ⟨hnear, fun hbelow => ?_⟩
    have htarget := hexact.target
    have hoff : idealOffs ca.bicK.toNat (idealTime k ca now) = ca.bicK.toNat - idealTime k ca now := if_pos hbelow
    unfold idealTarget idealDelta at htarget
    rw [if_pos hbelow, hoff] at htarget
    omega
  · intro hreach
    have hnear := hreach.near
    -- below the plateau the delta is taken off the origin
    have habove : idealTime k ca now < ca.bicK.toNat →
        idealDelta (idealOffs ca.bicK.toNat (idealTime k ca now)) ≤ ca.bicOriginPoint.toNat := by
      intro hbelow
      have hoff : idealOffs ca.bicK.toNat (idealTime k ca now) = ca.bicK.toNat - idealTime k ca now := if_pos hbelow
      rw [hoff]
      exact hreach.nonneg hbelow
    have htarget : ((bicTarget ca (epochTime k ca now)).toNat : Int) =
        idealTarget ca.bicOriginPoint.toNat ca.bicK.toNat (idealTime k ca now) := by
      rw [← htime] at hnear habove ⊢
      exact bicTarget_toNat h.origin hnear habove
    refine ⟨htime, hoffs, ?_, ?_, htarget, fun ca' hcnt => ?_⟩
    · rw [cubedOf_toNat, hoffs, Nat.mod_eq_of_lt ((cubed_lt_iff _).2 hnear)]
    · rw [← hoffs] at hnear ⊢
      exact (deltaOf_toNat hnear).1
    · rw [← htarget]
      exact cubicCnt_toNat h.cubic hcnt

/-! ## Over runs -/

/-- `bictcp_cong_avoid` goes on to `bictcp_update`, with the socket `s₁` and `acked` packets. -/
def Handed (s : Sock Bictcp) (clock n : UInt32) (s₁ : Sock Bictcp) (acked : UInt32) : Prop :=
  cubictcpIsCwndLimited s = true ∧
    (cubictcpInSlowStart s = true ∧ (slowStartPhase clock s n).1 ≠ 0 ∧ (acked, s₁) = slowStartPhase clock s n ∨
      cubictcpInSlowStart s = false ∧ (acked, s₁) = (n, s))

theorem Handed.congAvoid {s s₁ : Sock Bictcp} {clock n acked : UInt32} (h : Handed s clock n s₁ acked) (k : Kernel)
    (j : Nat → UInt32) : bictcpCongAvoid k j clock s n = updateWindow k j s₁ acked := by
  obtain ⟨hlimited, hwhich⟩ := h
  unfold bictcpCongAvoid
  rw [hlimited, if_neg (by decide)]
  rcases hwhich with ⟨hslow, hrest, heq⟩ | ⟨hslow, heq⟩
  · rw [hslow, if_pos rfl, ← heq]
    rw [← heq] at hrest
    exact if_neg hrest
  · cases heq
    rw [hslow, if_neg (by decide)]

/-- `bictcp_update` goes on to evaluate the cubic function, in the state `ca'`. -/
def Evaluates (k : Kernel) (j : Nat → UInt32) (ca : Bictcp) (cwnd acked : UInt32) (ca' : Bictcp) : Prop :=
  ¬ (ca.lastCwnd = cwnd ∧ s32 (j 0 - ca.lastTime) ≤ k.hz.toNat / 32) ∧ ¬ (ca.epochStart ≠ 0 ∧ j 1 = ca.lastTime) ∧
    (if ca.epochStart = 0 then
      startEpoch { ca with ackCnt := ca.ackCnt + acked, lastCwnd := cwnd, lastTime := j 2 } cwnd acked (j 3)
    else pure { ca with ackCnt := ca.ackCnt + acked, lastCwnd := cwnd, lastTime := j 2 }) = .ok ca'

theorem Evaluates.update {k : Kernel} {j : Nat → UInt32} {ca ca' : Bictcp} {cwnd acked : UInt32}
    (h : Evaluates k j ca cwnd acked ca') : bictcpUpdate k j ca cwnd acked = (do
      let ca₂ ← cubicCnt ca' cwnd (bicTarget ca' (epochTime k ca' (j 4)))
      friendlyCnt ca₂ cwnd) := by
  obtain ⟨hlast, hjiffy, hepoch⟩ := h
  unfold bictcpUpdate
  dsimp only
  rw [if_neg hlast, if_neg hjiffy]
  split at hepoch
  · rename_i hzero
    rw [if_pos hzero, hepoch, Run.ok_bind]
  · rename_i hzero
    cases hepoch
    rw [if_neg hzero, Run.pure_ok, Run.ok_bind]

/-- A callback evaluates the cubic function in the state `ca`. -/
def Evaluation (k : Kernel) (s : Sock Bictcp) (e : Event) (ca : Bictcp) : Prop :=
  ∃ n s₁ acked, e.callback = .congAvoid n ∧ Handed (e.writes.apply s) e.clock n s₁ acked ∧
    Evaluates k e.jiffies s₁.ca s₁.ca.cubicSndCwnd acked ca

/-- What a callback does with the `cnt` of its evaluation. -/
theorem Evaluation.handle {k : Kernel} {s : Sock Bictcp} {e : Event} {ca : Bictcp} (h : Evaluation k s e ca) :
    ∃ (s₁ : Sock Bictcp) (acked : UInt32), TcpAbcCubic.handle k (e.writes.apply s) e = (do
      let ca₂ ← cubicCnt ca ca.cubicSndCwnd (bicTarget ca (epochTime k ca (e.jiffies 4)))
      let ca₃ ← friendlyCnt ca₂ ca.cubicSndCwnd
      let s₂ ← cubictcpTcpCongAvoidAi { s₁ with ca := ca₃ } ca₃.cnt acked
      pure (capWindows s₂)) := by
  obtain ⟨n, s₁, acked, hc, hhanded, heval⟩ := h
  have hcubic : ca.cubicSndCwnd = s₁.ca.cubicSndCwnd := by
    obtain ⟨-, -, hepoch⟩ := heval
    split at hepoch
    · obtain ⟨ca', hs, hsame⟩ := startEpoch_ok { s₁.ca with
        ackCnt := s₁.ca.ackCnt + acked, lastCwnd := s₁.ca.cubicSndCwnd, lastTime := e.jiffies 2 }
        s₁.ca.cubicSndCwnd acked (e.jiffies 3)
      rw [hepoch] at hs
      cases hs
      exact hsame.cubic
    · cases hepoch
      rfl
  refine ⟨s₁, acked, ?_⟩
  unfold TcpAbcCubic.handle
  rw [hc]
  dsimp only
  rw [hhanded.congAvoid]
  unfold updateWindow
  rw [heval.update, hcubic, bind_assoc]

/-- In every run from the module's init, with windows below a million, a delay below 100 seconds and the
epoch no older than `2 ^ 31` jiffies: each evaluation of the cubic function is the one over the integers
exactly when its age is within 355668 units of `K` and the part taken off the origin does not exceed it. -/
theorem targets_exact_iff {k : Kernel} (hk : k.MsecsBounded) (s₀ : Sock Bictcp) (clock : UInt32) (es : List Event) :
    Run.Along (step k) (fun s e => ∀ ca, Evaluation k s e ca → Moderate ca (e.jiffies 4) →
      (Exact k ca (e.jiffies 4) ↔ InReach k ca (e.jiffies 4))) (bictcpInit s₀ clock) es :=
  Run.along_of_forall (fun _ _ _ _ _ h => exact_iff hk h) _

theorem hz1000_msecsBounded : Kernel.hz1000.MsecsBounded := fun m _ => by
  show m.toUInt64.toNat ≤ m.toNat * 1000
  rw [UInt32.toNat_toUInt64]
  omega

theorem targets_exact_iff_small : Run.Along (step .hz1000) (fun s e => ∀ ca, Evaluation .hz1000 s e ca →
      Moderate ca (e.jiffies 4) → (Exact .hz1000 ca (e.jiffies 4) ↔ InReach .hz1000 ca (e.jiffies 4)))
    (bictcpInit (.established default 10) 0)
    [⟨{ KernelWrites.flying 10 with sndSsthresh := some 2 }, .congAvoid 1, fun _ => 1, 1⟩,
      ⟨.flying 10, .congAvoid 1, fun _ => 5001, 5001⟩] :=
  targets_exact_iff hz1000_msecsBounded (.established default 10) 0 _

/-- An epoch of 400 seconds at a window of ten, where the product wraps around; and a window of 2468 cut to
five with nothing in flight, where the approximate root takes more off the origin than there is. -/
theorem targets_wrap :
    (∃ ds s ca, Run.steps (step .hz1000) (bictcpInit (.established default 10) 0)
        [⟨{ KernelWrites.flying 10 with sndSsthresh := some 2 }, .congAvoid 1, fun _ => 1, 1⟩] = .ok (ds, s) ∧
      Evaluation .hz1000 s ⟨.flying 10, .congAvoid 1, fun _ => 400001, 400001⟩ ca ∧ Moderate ca 400001 ∧
      s.ca.lossCwnd.toNat < 10 ^ 6 ∧ ca.lastMaxCwnd.toNat < 10 ^ 6 ∧
      (cubedOf (offsOf ca (epochTime .hz1000 ca 400001))).toNat ≠
        410 * idealOffs ca.bicK.toNat (idealTime .hz1000 ca 400001) ^ 3 ∧
      (bicTarget ca (epochTime .hz1000 ca 400001)).toNat ≠
        idealTarget ca.bicOriginPoint.toNat ca.bicK.toNat (idealTime .hz1000 ca 400001)) ∧
    ∃ ds s ca, Run.steps (step .hz1000) (bictcpInit (.established default 10) 0)
        [⟨.flying 10, .congAvoid 2458, fun _ => 1, 1⟩, ⟨.flying 0, .setState .recovery, fun _ => 1, 1⟩] = .ok (ds, s) ∧
      Evaluation .hz1000 s ⟨{ KernelWrites.flying 0 with sndSsthresh := some 2 }, .congAvoid 1, fun _ => 1, 1⟩ ca ∧
      Moderate ca 1 ∧ s.ca.lossCwnd.toNat < 10 ^ 6 ∧ ca.lastMaxCwnd.toNat < 10 ^ 6 ∧
      (bicTarget ca (epochTime .hz1000 ca 1)).toNat ≠
        idealTarget ca.bicOriginPoint.toNat ca.bicK.toNat (idealTime .hz1000 ca 1) := by
  refine ⟨⟨_, _, _, rfl, ⟨1, _, 1, rfl, ⟨by decide, Or.inr ⟨by decide, rfl⟩⟩, by decide, by decide, rfl⟩,
    ⟨by decide, by decide, by decide, by decide⟩, by decide, by decide, by decide, by decide⟩,
    ⟨_, _, _, rfl, ⟨1, _, 1, rfl, ⟨by decide, Or.inr ⟨by decide, rfl⟩⟩, by decide, by decide, rfl⟩,
    ⟨by decide, by decide, by decide, by decide⟩, by decide, by decide, by decide⟩⟩

end AbcMahimahi.Tcp.TcpAbcCubic
