/-
Runs of the abccubic module: the kernel writes what it likes into the socket, within the bounds it
keeps, and raises a callback. No callback divides by zero, reads outside the table of the cube
root or loops forever, because the CUBIC window never falls below two and `cnt` is at least two
whenever `bictcp_update` can return early.
-/
import AbcMahimahi.Lib.Word
import AbcMahimahi.Tcp.Cubic

namespace AbcMahimahi.Tcp.TcpAbcCubic

open Word

/-! ## Events -/

/-- The callbacks the kernel raises. -/
inductive Callback where
  | inAck (flags : UInt32)
  | congAvoid (ackedSacked : UInt32)
  | setState (newState : CaState)
  | cwndEvent (ev : CaEvent)
  | pktsAcked (rttUs : Int32)
  deriving DecidableEq

/-- What the kernel writes into the socket before a callback: it need not touch `snd_ssthresh`,
which the module writes too. -/
structure KernelWrites where
  ecnFlags : UInt8
  rcvMss : UInt16
  rcvNxt : UInt32
  sndUna : UInt32
  sndNxt : UInt32
  sndCwnd : UInt32
  sndCwndCnt : UInt32
  sndCwndClamp : UInt32
  sndSsthresh : Option UInt32
  maxPacketsOut : UInt32
  packetsInFlight : UInt32
  isCwndLimited : Bool
  lsndtime : UInt32

/-- A callback, with what the kernel wrote before it and what the clocks read during it. -/
structure Event where
  writes : KernelWrites
  callback : Callback
  jiffies : Nat → UInt32
  clock : UInt32

def KernelWrites.apply (w : KernelWrites) (s : Sock Bictcp) : Sock Bictcp :=
  { s with
    ecnFlags := w.ecnFlags, rcvMss := w.rcvMss, rcvNxt := w.rcvNxt, sndUna := w.sndUna, sndNxt := w.sndNxt,
    sndCwnd := w.sndCwnd, sndCwndCnt := w.sndCwndCnt, sndCwndClamp := w.sndCwndClamp,
    sndSsthresh := w.sndSsthresh.getD s.sndSsthresh, maxPacketsOut := w.maxPacketsOut,
    packetsInFlight := w.packetsInFlight, isCwndLimited := w.isCwndLimited, lsndtime := w.lsndtime }

/-- The module's handler of a callback. -/
def handle (k : Kernel) (s : Sock Bictcp) (e : Event) : Except Oops (Sock Bictcp) :=
  match e.callback with
  | .inAck flags => pure (abcInAck s flags)
  | .congAvoid ackedSacked => bictcpCongAvoid k e.jiffies e.clock s ackedSacked
  | .setState newState => pure (bictcpState s e.clock newState)
  | .cwndEvent ev => pure (bictcpCwndEvent e.jiffies s ev)
  | .pktsAcked rttUs => pure (bictcpAcked k e.jiffies e.clock s rttUs)

/-- What a callback did. -/
structure Handled where
  callback : Callback
  before : Sock Bictcp
  after : Sock Bictcp

def step (k : Kernel) (s : Sock Bictcp) (e : Event) : Except Oops (Handled × Sock Bictcp) := do
  let before := e.writes.apply s
  let after ← handle k before e
  pure (⟨e.callback, before, after⟩, after)

/-- The bounds the kernel keeps: packet counts below `2 ^ 24`, a clamp and a threshold of two. -/
structure Proper (e : Event) : Prop where
  clamp : 2 ≤ e.writes.sndCwndClamp.toNat
  ssthresh : ∀ x ∈ e.writes.sndSsthresh, 2 ≤ x.toNat
  maxOut : e.writes.maxPacketsOut.toNat < 2 ^ 24
  inFlight : e.writes.packetsInFlight.toNat < 2 ^ 24
  acked : ∀ n, e.callback = .congAvoid n → n.toNat < 2 ^ 24

/-! ## The cube root -/

theorem cbrtAt_ok {i : UInt32} (h : i.toNat < 64) : ∃ x, cbrtAt i = .ok x ∧ (8 ≤ i.toNat → 123 ≤ x.toNat) ∧ x.toNat < 256 := by
  have htable : ∀ n < 64, ∃ v, cbrtTable[n]? = some v ∧ (8 ≤ n → 123 ≤ v.toNat) := by decide
  obtain ⟨v, hv, h8⟩ := htable i.toNat h
  refine ⟨v.toUInt32, ?_, ?_, ?_⟩
  · unfold cbrtAt; rw [hv]; rfl
  · intro hi; rw [UInt8.toNat_toUInt32]; exact h8 hi
  · rw [UInt8.toNat_toUInt32]; exact v.toNat_lt

/-- The shift taken from the number of bits leaves an index from 8 to 63. -/
theorem cubicRoot_shift : ∀ f < 65, 7 ≤ f → 1 ≤ f * 84 / 256 - 1 ∧ f * 84 / 256 - 1 ≤ 20 ∧
    (f * 84 / 256 - 1) * 3 + 4 ≤ f ∧ f ≤ (f * 84 / 256 - 1) * 3 + 6 := by
  decide

theorem fls64_bounds {a : UInt64} (h : a ≠ 0) : 2 ^ (fls64 a - 1) ≤ a.toNat ∧ a.toNat < 2 ^ fls64 a ∧ 0 < fls64 a ∧ fls64 a < 65 := by
  have ha : a.toNat ≠ 0 := fun h0 => h (UInt64.toNat_inj.1 h0)
  unfold fls64
  rw [if_neg h, Nat.add_sub_cancel]
  refine ⟨Nat.log2_self_le ha, Nat.lt_log2_self, by omega, ?_⟩
  have hlt := (Nat.log2_lt ha).2 a.toNat_lt
  omega

/-- The index read from a large argument. -/
theorem shift_bounds {a : UInt64} (h : 7 ≤ fls64 a) :
    8 ≤ (a >>> UInt64.ofNat ((fls64 a * 84 / 256 - 1) * 3)).toUInt32.toNat ∧
      (a >>> UInt64.ofNat ((fls64 a * 84 / 256 - 1) * 3)).toUInt32.toNat < 64 := by
  have ha : a ≠ 0 := by
    rintro rfl
    exact absurd h (by decide)
  obtain ⟨hlow, hhigh, -, h65⟩ := fls64_bounds ha
  obtain ⟨-, hb20, hb4, hb6⟩ := cubicRoot_shift (fls64 a) h65 h
  generalize fls64 a * 84 / 256 - 1 = b at *
  have hshift : (a >>> UInt64.ofNat (b * 3)).toNat = a.toNat / 2 ^ (b * 3) := by
    rw [UInt64.toNat_shiftRight, UInt64.toNat_ofNat', Nat.mod_eq_of_lt (by omega : b * 3 < 2 ^ 64),
      Nat.mod_eq_of_lt (by omega), Nat.shiftRight_eq_div_pow]
  have h8 : 8 ≤ a.toNat / 2 ^ (b * 3) := by
    rw [Nat.le_div_iff_mul_le (Nat.two_pow_pos _)]
    calc 8 * 2 ^ (b * 3) = 2 ^ (b * 3 + 3) := by rw [Nat.pow_add]; ring
      _ ≤ 2 ^ (fls64 a - 1) := Nat.pow_le_pow_right (by decide) (by omega)
      _ ≤ a.toNat := hlow
  have h64 : a.toNat / 2 ^ (b * 3) < 64 := by
    rw [Nat.div_lt_iff_lt_mul (Nat.two_pow_pos _)]
    calc a.toNat < 2 ^ fls64 a := hhigh
      _ ≤ 2 ^ (b * 3 + 6) := Nat.pow_le_pow_right (by decide) hb6
      _ = 64 * 2 ^ (b * 3) := by rw [Nat.pow_add]; ring
  rw [UInt64.toNat_toUInt32, hshift, Nat.mod_eq_of_lt (by omega)]
  exact ⟨h8, h64⟩

/-- The first estimate of a root is at least four and fits in 23 bits. -/
theorem estimate_bounds {v : UInt32} {b : Nat} (hv : 123 ≤ v.toNat) (hv' : v.toNat < 256) (hb : 1 ≤ b) (hb' : b ≤ 20) :
    4 ≤ (((v + 10) <<< UInt32.ofNat b) >>> 6).toNat ∧ (((v + 10) <<< UInt32.ofNat b) >>> 6).toNat < 2 ^ 23 := by
  have h10 : (v + 10).toNat = v.toNat + 10 := toNat_add_of_lt (by simp only [UInt32.reduceToNat]; omega)
  have hlow : 2 ^ 1 ≤ 2 ^ b := Nat.pow_le_pow_right (by decide) hb
  have hhigh : 2 ^ b ≤ 2 ^ 20 := Nat.pow_le_pow_right (by decide) hb'
  have hmul : (v.toNat + 10) * 2 ^ b ≤ 265 * 2 ^ 20 := Nat.mul_le_mul (by omega) hhigh
  have hmul' : 133 * 2 ^ 1 ≤ (v.toNat + 10) * 2 ^ b := Nat.mul_le_mul (by omega) hlow
  rw [UInt32.toNat_shiftRight, UInt32.toNat_shiftLeft, UInt32.toNat_ofNat', h10,
    Nat.mod_eq_of_lt (by omega : b < 2 ^ 32), Nat.mod_eq_of_lt (by omega : b < 32), Nat.shiftLeft_eq,
    Nat.mod_eq_of_lt (by omega : (v.toNat + 10) * 2 ^ b < 2 ^ 32)]
  simp only [UInt32.reduceToNat, Nat.reduceMod, Nat.shiftRight_eq_div_pow]
  omega

/-- `cubic_root` always returns: its index is in range and its divisor is not zero. -/
theorem cubicRoot_ok (a : UInt64) : ∃ x, cubicRoot a = .ok x := by
  unfold cubicRoot
  split
  · rename_i hsmall
    -- below 64 the table has the root itself
    have h64 : a.toUInt32.toNat < 64 := by
      rw [UInt64.toNat_toUInt32]
      by_cases ha : a = 0
      · subst ha; decide
      · have hlt := (fls64_bounds ha).2.1
        have hpow : 2 ^ fls64 a ≤ 2 ^ 6 := Nat.pow_le_pow_right (by decide) (by omega)
        omega
    obtain ⟨x, hx, -⟩ := cbrtAt_ok h64
    rw [hx]
    exact ⟨_, rfl⟩
  · rename_i hlarge
    have h7 : 7 ≤ fls64 a := by omega
    have ha : a ≠ 0 := by
      rintro rfl
      exact absurd h7 (by decide)
    obtain ⟨h8, h64⟩ := shift_bounds h7
    obtain ⟨hb1, hb20, -⟩ := cubicRoot_shift (fls64 a) (fls64_bounds ha).2.2.2 h7
    obtain ⟨v, hv, h123, h256⟩ := cbrtAt_ok h64
    obtain ⟨hx4, hx23⟩ := estimate_bounds (h123 h8) h256 hb1 hb20
    dsimp only
    rw [hv, Run.ok_bind]
    generalize ((v + 10) <<< UInt32.ofNat (fls64 a * 84 / 256 - 1)) >>> 6 = x at hx4 hx23 ⊢
    -- the estimate is at least 4, so the Newton step divides by no zero
    have hdiv : x.toUInt64 * (x - 1).toUInt64 ≠ 0 := by
      intro h0
      have h0' := congrArg UInt64.toNat h0
      have hsub : (x - 1).toNat = x.toNat - 1 := toNat_sub_of_le (by simp only [UInt32.reduceToNat]; omega)
      have hprod : x.toNat * (x.toNat - 1) ≤ 2 ^ 23 * 2 ^ 23 := Nat.mul_le_mul (by omega) (by omega)
      have hpos : 4 * 3 ≤ x.toNat * (x.toNat - 1) := Nat.mul_le_mul hx4 (by omega)
      rw [UInt64.toNat_mul, UInt32.toNat_toUInt64, UInt32.toNat_toUInt64, hsub, Nat.mod_eq_of_lt (by omega)] at h0'
      simp only [UInt64.reduceToNat] at h0'
      omega
    unfold div64U64
    rw [if_neg hdiv]
    exact ⟨_, rfl⟩

/-! ## `bictcp_update` -/

/-- An update leaves both windows alone. -/
structure SameWindows (ca ca' : Bictcp) : Prop where
  cubic : ca'.cubicSndCwnd = ca.cubicSndCwnd
  loss : ca'.lossCwnd = ca.lossCwnd

theorem SameWindows.refl (ca : Bictcp) : SameWindows ca ca := ⟨rfl, rfl⟩

theorem SameWindows.trans {ca ca' ca'' : Bictcp} (h : SameWindows ca ca') (h' : SameWindows ca' ca'') :
    SameWindows ca ca'' :=
  ⟨h'.cubic.trans h.cubic, h'.loss.trans h.loss⟩

theorem startEpoch_ok (ca : Bictcp) (cwnd acked now : UInt32) :
    ∃ ca', startEpoch ca cwnd acked now = .ok ca' ∧ SameWindows ca ca' := by
  unfold startEpoch
  dsimp only
  split
  · exact ⟨_, rfl, ⟨rfl, rfl⟩⟩
  · obtain ⟨x, hx⟩ := cubicRoot_ok (cubeFactor * (ca.lastMaxCwnd - cwnd).toUInt64)
    rw [hx]
    exact ⟨_, rfl, ⟨rfl, rfl⟩⟩

theorem divU32_ok {a b : UInt32} (h : b ≠ 0) : divU32 a b = .ok (a / b) := by
  unfold divU32; rw [if_neg h]; rfl

theorem sub_ne_zero_of_gt {x y : UInt32} (h : x > y) : x - y ≠ 0 := by
  rw [gt_iff_lt, UInt32.lt_iff_toNat_lt] at h
  exact ne_zero_of_pos (by rw [toNat_sub_of_le (by omega)]; omega)

theorem cubicCnt_ok (ca : Bictcp) (cwnd target : UInt32) :
    ∃ ca', cubicCnt ca cwnd target = .ok ca' ∧ SameWindows ca ca' := by
  unfold cubicCnt
  split
  · rename_i hgt
    rw [divU32_ok (sub_ne_zero_of_gt hgt), Run.ok_bind]
    refine ⟨_, rfl, ?_⟩
    split <;> exact ⟨rfl, rfl⟩
  · rw [Run.pure_ok, Run.ok_bind]
    refine ⟨_, rfl, ?_⟩
    split <;> exact ⟨rfl, rfl⟩

/-- The loop ends: each turn takes `delta` off `ack_cnt`. -/
theorem tcpCwndLoop_ok {delta : UInt32} (h : 0 < delta.toNat) :
    ∀ (fuel : Nat) (ackCnt tcpCwnd : UInt32), ackCnt.toNat ≤ fuel → ∃ r, tcpCwndLoop delta fuel ackCnt tcpCwnd = .ok r
  | 0, ackCnt, tcpCwnd, hle => by
    unfold tcpCwndLoop
    rw [if_neg (by rw [gt_iff_lt, UInt32.lt_iff_toNat_lt]; omega)]
    exact ⟨_, rfl⟩
  | fuel + 1, ackCnt, tcpCwnd, hle => by
    unfold tcpCwndLoop
    split
    · rename_i hgt
      rw [gt_iff_lt, UInt32.lt_iff_toNat_lt] at hgt
      exact tcpCwndLoop_ok h fuel _ _ (by rw [toNat_sub_of_le (by omega)]; omega)
    · exact ⟨_, rfl⟩

/-- `delta` of the loop is positive for every window the module runs with. -/
theorem friendly_delta_pos {cwnd : UInt32} (h2 : 2 ≤ cwnd.toNat) (h26 : cwnd.toNat < 2 ^ 26) :
    0 < ((cwnd * betaScale) >>> 3).toNat := by
  have hscale : betaScale.toNat = 15 := by decide
  have hmul : (cwnd * betaScale).toNat = cwnd.toNat * 15 := by
    rw [toNat_mul_of_lt (by rw [hscale]; omega), hscale]
  rw [UInt32.toNat_shiftRight, hmul]
  simp only [UInt32.reduceToNat, Nat.reduceMod, Nat.shiftRight_eq_div_pow]
  omega

theorem friendlyCnt_ok {ca : Bictcp} {cwnd : UInt32} (h2 : 2 ≤ cwnd.toNat) (h26 : cwnd.toNat < 2 ^ 26) :
    ∃ ca', friendlyCnt ca cwnd = .ok ca' ∧ SameWindows ca ca' ∧ 2 ≤ ca'.cnt.toNat := by
  have hcnt : ∀ x : UInt32, 2 ≤ (max x 2).toNat := fun x => by rw [toNat_max]; exact le_max_right _ _
  obtain ⟨⟨ackCnt, tcpCwnd⟩, hloop⟩ := tcpCwndLoop_ok (friendly_delta_pos h2 h26) ca.ackCnt.toNat ca.ackCnt ca.tcpCwnd
    (le_refl _)
  unfold friendlyCnt
  dsimp only
  rw [if_pos (show tcpFriendliness = true from rfl), hloop, Run.ok_bind]
  dsimp only
  split
  · rename_i hgt
    rw [divU32_ok (sub_ne_zero_of_gt hgt), Run.ok_bind, Run.pure_ok, Run.ok_bind]
    refine ⟨_, rfl, ?_, hcnt _⟩
    split <;> exact ⟨rfl, rfl⟩
  · exact ⟨_, rfl, ⟨rfl, rfl⟩, hcnt _⟩

/-- `bictcp_update` returns with `cnt` at least two, if it was that whenever the early return can
be taken: a reset leaves `cnt` and `last_cwnd` both zero, and the window never is. -/
theorem bictcpUpdate_ok (k : Kernel) (j : Nat → UInt32) {ca : Bictcp} {cwnd : UInt32} (acked : UInt32)
    (h2 : 2 ≤ cwnd.toNat) (h26 : cwnd.toNat < 2 ^ 26) (hcnt : 2 ≤ ca.cnt.toNat ∨ ca.lastCwnd = 0) :
    ∃ ca', bictcpUpdate k j ca cwnd acked = .ok ca' ∧ SameWindows ca ca' ∧ 2 ≤ ca'.cnt.toNat := by
  unfold bictcpUpdate
  dsimp only
  split
  · rename_i hearly
    refine ⟨_, rfl, ⟨rfl, rfl⟩, ?_⟩
    rcases hcnt with hcnt | hreset
    · exact hcnt
    · -- the window would be zero
      rw [hreset] at hearly
      rw [← hearly.1] at h2
      exact absurd h2 (by decide)
  · split
    · obtain ⟨ca', hf, hsame, hcnt'⟩ := @friendlyCnt_ok { ca with ackCnt := ca.ackCnt + acked } _ h2 h26
      exact ⟨ca', hf, ⟨hsame.cubic, hsame.loss⟩, hcnt'⟩
    · have hrest : ∀ ca₂ : Bictcp, SameWindows ca ca₂ → ∃ ca',
          (do let ca₃ ← cubicCnt ca₂ cwnd (bicTarget ca₂ (epochTime k ca₂ (j 4))); friendlyCnt ca₃ cwnd) = .ok ca' ∧
            SameWindows ca ca' ∧ 2 ≤ ca'.cnt.toNat := by
        intro ca₂ hsame₂
        obtain ⟨ca₃, hc, hsame₃⟩ := cubicCnt_ok ca₂ cwnd (bicTarget ca₂ (epochTime k ca₂ (j 4)))
        obtain ⟨ca', hf, hsame', hcnt'⟩ := @friendlyCnt_ok ca₃ _ h2 h26
        exact ⟨ca', by rw [hc, Run.ok_bind, hf], (hsame₂.trans hsame₃).trans hsame', hcnt'⟩
      split
      · obtain ⟨ca₂, hs, hsame₂⟩ := startEpoch_ok
          { ca with ackCnt := ca.ackCnt + acked, lastCwnd := cwnd, lastTime := j 2 } cwnd acked (j 3)
        rw [hs, Run.ok_bind]
        exact hrest ca₂ ⟨hsame₂.cubic, hsame₂.loss⟩
      · rw [Run.pure_ok, Run.ok_bind]
        exact hrest _ ⟨rfl, rfl⟩

/-! ## The invariant -/

/-- Between two callbacks. -/
structure Inv (s : Sock Bictcp) : Prop where
  low : 2 ≤ s.ca.cubicSndCwnd.toNat
  high : s.ca.cubicSndCwnd.toNat < 2 ^ 26
  cnt : 2 ≤ s.ca.cnt.toNat ∨ s.ca.lastCwnd = 0
  ssthresh : 2 ≤ s.sndSsthresh.toNat

/-- When a callback starts: the kernel has written the rest of the socket. -/
structure Ready (s : Sock Bictcp) : Prop extends Inv s where
  clamp : 2 ≤ s.sndCwndClamp.toNat
  maxOut : s.maxPacketsOut.toNat < 2 ^ 24
  inFlight : s.packetsInFlight.toNat < 2 ^ 24

theorem Inv.ready {s : Sock Bictcp} {e : Event} (h : Inv s) (he : Proper e) : Ready (e.writes.apply s) := by
  refine ⟨⟨h.low, h.high, h.cnt, ?_⟩, he.clamp, he.maxOut, he.inFlight⟩
  show 2 ≤ (e.writes.sndSsthresh.getD s.sndSsthresh).toNat
  cases hw : e.writes.sndSsthresh with
  | none => exact h.ssthresh
  | some x => exact he.ssthresh x hw

/-- What every callback but an ACK does to the windows: the ABC window only shrinks, not below
five, and a change of either window leaves the smaller one in force. -/
structure Kept (s s' : Sock Bictcp) : Prop where
  lossLow : min s.ca.lossCwnd.toNat 5 ≤ s'.ca.lossCwnd.toNat
  lossHigh : s'.ca.lossCwnd.toNat ≤ s.ca.lossCwnd.toNat
  window : s'.ca.lossCwnd ≠ s.ca.lossCwnd ∨ s'.ca.cubicSndCwnd ≠ s.ca.cubicSndCwnd →
    s'.sndCwnd = min s'.ca.lossCwnd s'.ca.cubicSndCwnd

theorem Kept.of_same {s s' : Sock Bictcp} (hcubic : s'.ca.cubicSndCwnd = s.ca.cubicSndCwnd)
    (hloss : s'.ca.lossCwnd = s.ca.lossCwnd) : Kept s s' :=
  ⟨by rw [hloss]; exact min_le_left _ _, by rw [hloss], fun h => by
    rcases h with h | h
    · exact absurd hloss h
    · exact absurd hcubic h⟩

/-! ## The callbacks -/

/-- Capping keeps both windows at least two and five, as far as they were. -/
theorem capWindows_spec {s : Sock Bictcp} (hcubic : 2 ≤ s.ca.cubicSndCwnd.toNat) (hflight : s.packetsInFlight.toNat < 2 ^ 24) :
    2 ≤ (capWindows s).ca.cubicSndCwnd.toNat ∧ (capWindows s).ca.cubicSndCwnd.toNat < 2 ^ 26 ∧
      min s.ca.lossCwnd.toNat 5 ≤ (capWindows s).ca.lossCwnd.toNat ∧
      (capWindows s).ca.lossCwnd.toNat ≤ s.ca.lossCwnd.toNat := by
  have hcap : (2 * s.packetsInFlight + 5 : UInt32).toNat = 2 * s.packetsInFlight.toNat + 5 := by
    have h2 : (2 * s.packetsInFlight : UInt32).toNat = 2 * s.packetsInFlight.toNat :=
      toNat_mul_of_lt (by simp only [UInt32.reduceToNat]; omega)
    rw [toNat_add_of_lt (by rw [h2]; simp only [UInt32.reduceToNat]; omega), h2]; rfl
  unfold capWindows
  dsimp only
  rw [toNat_min, toNat_min, hcap]
  omega

/-- Additive increase touches the CUBIC window and its credit only. -/
structure SameButCubic (s s' : Sock Bictcp) : Prop where
  cnt : s'.ca.cnt = s.ca.cnt
  loss : s'.ca.lossCwnd = s.ca.lossCwnd
  ssthresh : s'.sndSsthresh = s.sndSsthresh
  inFlight : s'.packetsInFlight = s.packetsInFlight
  clamp : s'.sndCwndClamp = s.sndCwndClamp

theorem applyOldCredit_spec {s : Sock Bictcp} (w : UInt32) (hlow : 2 ≤ s.ca.cubicSndCwnd.toNat)
    (hhigh : s.ca.cubicSndCwnd.toNat < 2 ^ 26) :
    2 ≤ (applyOldCredit s w).ca.cubicSndCwnd.toNat ∧ (applyOldCredit s w).ca.cubicSndCwnd.toNat ≤ 2 ^ 26 ∧
      SameButCubic s (applyOldCredit s w) := by
  unfold applyOldCredit
  split
  · have hinc : (s.ca.cubicSndCwnd + 1).toNat = s.ca.cubicSndCwnd.toNat + 1 := toNat_add_one (by omega)
    exact ⟨by simp only [hinc]; omega, by simp only [hinc]; omega, ⟨rfl, rfl, rfl, rfl, rfl⟩⟩
  · exact ⟨hlow, by omega, ⟨rfl, rfl, rfl, rfl, rfl⟩⟩

/-- The divisor is two or more, so the increase is below `2 ^ 31` and cannot wrap. -/
theorem takeCredit_ok {s : Sock Bictcp} {w : UInt32} (hw : 2 ≤ w.toNat) (hlow : 2 ≤ s.ca.cubicSndCwnd.toNat)
    (hhigh : s.ca.cubicSndCwnd.toNat ≤ 2 ^ 26) :
    ∃ s', takeCredit s w = .ok s' ∧ 2 ≤ s'.ca.cubicSndCwnd.toNat ∧ SameButCubic s s' := by
  unfold takeCredit
  split
  · rw [divU32_ok (ne_zero_of_pos (by omega)), Run.ok_bind]
    have hdelta : (s.sndCwndCnt / w).toNat < 2 ^ 31 := by
      rw [UInt32.toNat_div]
      have hhalf : s.sndCwndCnt.toNat / w.toNat ≤ s.sndCwndCnt.toNat / 2 := Nat.div_le_div_left hw (by decide)
      have hlt := s.sndCwndCnt.toNat_lt
      omega
    refine ⟨_, rfl, ?_, ⟨rfl, rfl, rfl, rfl, rfl⟩⟩
    simp only
    rw [toNat_add_of_lt (by omega)]
    omega
  · exact ⟨s, rfl, hlow, ⟨rfl, rfl, rfl, rfl, rfl⟩⟩

theorem congAvoidAi_ok {s : Sock Bictcp} {w : UInt32} (acked : UInt32) (hw : 2 ≤ w.toNat)
    (hlow : 2 ≤ s.ca.cubicSndCwnd.toNat) (hhigh : s.ca.cubicSndCwnd.toNat < 2 ^ 26) (hclamp : 2 ≤ s.sndCwndClamp.toNat) :
    ∃ s', cubictcpTcpCongAvoidAi s w acked = .ok s' ∧ 2 ≤ s'.ca.cubicSndCwnd.toNat ∧ SameButCubic s s' := by
  obtain ⟨hlow₁, hhigh₁, hsame₁⟩ := applyOldCredit_spec w hlow hhigh
  obtain ⟨s₂, ht, hlow₂, hsame₂⟩ := takeCredit_ok
    (s := { applyOldCredit s w with sndCwndCnt := (applyOldCredit s w).sndCwndCnt + acked }) hw hlow₁ hhigh₁
  have hclamp₂ : s₂.sndCwndClamp = s.sndCwndClamp := hsame₂.clamp.trans hsame₁.clamp
  unfold cubictcpTcpCongAvoidAi
  dsimp only
  rw [ht]
  refine ⟨_, rfl, ?_, ⟨hsame₂.cnt.trans hsame₁.cnt, hsame₂.loss.trans hsame₁.loss, hsame₂.ssthresh.trans hsame₁.ssthresh,
    hsame₂.inFlight.trans hsame₁.inFlight, hclamp₂⟩⟩
  simp only
  rw [toNat_min, hclamp₂]
  omega

/-- In slow start the window is below `2 ^ 25`, so what an ACK adds keeps it in range. -/
theorem slowStartPhase_spec {s : Sock Bictcp} {acked : UInt32} (clock : UInt32) (h : Ready s)
    (hacked : acked.toNat < 2 ^ 24) (hlimited : cubictcpIsCwndLimited s = true) (hslow : cubictcpInSlowStart s = true) :
    Ready (slowStartPhase clock s acked).2 ∧ (slowStartPhase clock s acked).2.ca.lossCwnd = s.ca.lossCwnd ∧
      (slowStartPhase clock s acked).2.sndCwnd =
        min (slowStartPhase clock s acked).2.ca.lossCwnd (slowStartPhase clock s acked).2.ca.cubicSndCwnd := by
  have hlow := h.low
  have hout := h.maxOut
  have hthresh := h.ssthresh
  have hclamp := h.clamp
  have hmax : (2 * s.maxPacketsOut : UInt32).toNat = 2 * s.maxPacketsOut.toNat :=
    toNat_mul_of_lt (by simp only [UInt32.reduceToNat]; omega)
  unfold cubictcpIsCwndLimited at hlimited
  rw [hslow, if_pos rfl, decide_eq_true_eq, UInt32.lt_iff_toNat_lt, hmax] at hlimited
  have hcubic : 2 ≤ (min (min (s.ca.cubicSndCwnd + acked) s.sndSsthresh) s.sndCwndClamp).toNat ∧
      (min (min (s.ca.cubicSndCwnd + acked) s.sndSsthresh) s.sndCwndClamp).toNat < 2 ^ 26 := by
    rw [toNat_min, toNat_min, toNat_add_of_lt (by omega)]
    omega
  unfold slowStartPhase
  dsimp only
  split
  · exact ⟨⟨⟨hcubic.1, hcubic.2, h.cnt, h.ssthresh⟩, h.clamp, h.maxOut, h.inFlight⟩, rfl, rfl⟩
  · exact ⟨⟨⟨hcubic.1, hcubic.2, h.cnt, h.ssthresh⟩, h.clamp, h.maxOut, h.inFlight⟩, rfl, rfl⟩

/-- What a callback other than an ACK leaves: the invariant, and the windows as `Kept` says. -/
def Good (s s' : Sock Bictcp) : Prop := Inv s' ∧ Kept s s'

theorem updateWindow_ok (k : Kernel) (j : Nat → UInt32) {s s₁ : Sock Bictcp} (acked : UInt32) (h : Ready s₁)
    (hloss : s₁.ca.lossCwnd = s.ca.lossCwnd) : ∃ s', updateWindow k j s₁ acked = .ok s' ∧ Good s s' := by
  obtain ⟨ca, hu, hsame, hcnt⟩ := bictcpUpdate_ok k j acked h.low h.high h.cnt
  obtain ⟨s₂, ha, hlow₂, hsame₂⟩ := congAvoidAi_ok (s := { s₁ with ca := ca }) acked hcnt
    (by simp only [hsame.cubic]; exact h.low) (by simp only [hsame.cubic]; exact h.high) h.clamp
  obtain ⟨hc1, hc2, hc3, hc4⟩ := capWindows_spec hlow₂ (by rw [hsame₂.inFlight]; exact h.inFlight)
  have hloss₂ : s₂.ca.lossCwnd = s.ca.lossCwnd := hsame₂.loss.trans (hsame.loss.trans hloss)
  rw [hloss₂] at hc3 hc4
  unfold updateWindow
  rw [hu, Run.ok_bind, ha, Run.ok_bind]
  refine ⟨capWindows s₂, rfl, ⟨hc1, hc2, Or.inl ?_, ?_⟩, hc3, hc4, fun _ => rfl⟩
  · show 2 ≤ s₂.ca.cnt.toNat
    rw [hsame₂.cnt]; exact hcnt
  · show 2 ≤ s₂.sndSsthresh.toNat
    rw [hsame₂.ssthresh]; exact h.ssthresh

theorem congAvoid_ok (k : Kernel) (j : Nat → UInt32) (clock : UInt32) {s : Sock Bictcp} {acked : UInt32} (h : Ready s)
    (hacked : acked.toNat < 2 ^ 24) : ∃ s', bictcpCongAvoid k j clock s acked = .ok s' ∧ Good s s' := by
  unfold bictcpCongAvoid
  by_cases hlimited : cubictcpIsCwndLimited s = true
  · rw [if_neg (by simp [hlimited])]
    by_cases hslow : cubictcpInSlowStart s = true
    · obtain ⟨hready, hloss, hwindow⟩ := slowStartPhase_spec clock h hacked hlimited hslow
      rw [if_pos hslow]
      dsimp only
      split
      · refine ⟨_, rfl, hready.toInv, by rw [hloss]; exact min_le_left _ _, by rw [hloss], fun _ => hwindow⟩
      · exact updateWindow_ok k j _ hready hloss
    · rw [if_neg hslow]
      exact updateWindow_ok k j acked h rfl
  · exact ⟨s, by rw [if_pos (by simpa using hlimited)]; rfl, h.toInv, .of_same rfl rfl⟩

theorem recalcSsthresh_good {s : Sock Bictcp} (h : Ready s) : Good s (bictcpRecalcSsthresh s) := by
  have hcubic : ∀ x : UInt32, 2 ≤ (max (x / bictcpBetaScale) 2).toNat := fun x => by
    rw [toNat_max]; exact le_max_right _ _
  unfold bictcpRecalcSsthresh
  dsimp only
  split
  · obtain ⟨h1, h2, h3, h4⟩ := capWindows_spec (s := { s with
        sndSsthresh := max (s.ca.cubicSndCwnd * beta / bictcpBetaScale) 2
        ca := { s.ca with
          epochStart := 0
          lastMaxCwnd := s.ca.cubicSndCwnd * (bictcpBetaScale + beta) / (2 * bictcpBetaScale)
          cubicSndCwnd := max (s.ca.cubicSndCwnd * beta / bictcpBetaScale) 2 } }) (hcubic _) h.inFlight
    exact ⟨⟨h1, h2, h.cnt, hcubic _⟩, h3, h4, fun _ => rfl⟩
  · obtain ⟨h1, h2, h3, h4⟩ := capWindows_spec (s := { s with
        sndSsthresh := max (s.ca.cubicSndCwnd * beta / bictcpBetaScale) 2
        ca := { s.ca with
          epochStart := 0
          lastMaxCwnd := s.ca.cubicSndCwnd
          cubicSndCwnd := max (s.ca.cubicSndCwnd * beta / bictcpBetaScale) 2 } }) (hcubic _) h.inFlight
    exact ⟨⟨h1, h2, h.cnt, hcubic _⟩, h3, h4, fun _ => rfl⟩

theorem state_good (clock : UInt32) {s : Sock Bictcp} (h : Ready s) (newState : CaState) :
    Good s (bictcpState s clock newState) := by
  cases newState with
  | recovery => exact recalcSsthresh_good h
  | loss => exact ⟨⟨h.low, h.high, Or.inr rfl, h.ssthresh⟩, .of_same rfl rfl⟩
  | cwr => exact ⟨h.toInv, .of_same rfl rfl⟩
  | other => exact ⟨h.toInv, .of_same rfl rfl⟩

/-- The receiver's handlers and RTT samples leave the sender's windows alone. -/
structure SameSender (s s' : Sock Bictcp) : Prop where
  cubic : s'.ca.cubicSndCwnd = s.ca.cubicSndCwnd
  cnt : s'.ca.cnt = s.ca.cnt
  lastCwnd : s'.ca.lastCwnd = s.ca.lastCwnd
  loss : s'.ca.lossCwnd = s.ca.lossCwnd
  ssthresh : s'.sndSsthresh = s.sndSsthresh ∨ s'.sndSsthresh = s.ca.cubicSndCwnd

theorem SameSender.refl (s : Sock Bictcp) : SameSender s s := ⟨rfl, rfl, rfl, rfl, Or.inl rfl⟩

theorem SameSender.trans {s s' s'' : Sock Bictcp} (h : SameSender s s') (h' : SameSender s' s'') : SameSender s s'' := by
  refine ⟨h'.cubic.trans h.cubic, h'.cnt.trans h.cnt, h'.lastCwnd.trans h.lastCwnd, h'.loss.trans h.loss, ?_⟩
  rcases h'.ssthresh with h1 | h1
  · rw [h1]; exact h.ssthresh
  · exact Or.inr (h1.trans h.cubic)

theorem SameSender.good {s s' : Sock Bictcp} (h : SameSender s s') (hr : Ready s) : Good s s' := by
  refine ⟨⟨by rw [h.cubic]; exact hr.low, by rw [h.cubic]; exact hr.high, by rw [h.cnt, h.lastCwnd]; exact hr.cnt, ?_⟩,
    .of_same h.cubic h.loss⟩
  rcases h.ssthresh with h1 | h1
  · rw [h1]; exact hr.ssthresh
  · rw [h1]; exact hr.low

theorem abcUpdateAckReserved_same (s : Sock Bictcp) (ev : CaEvent) : SameSender s (s.abcUpdateAckReserved ev) := by
  unfold Sock.abcUpdateAckReserved
  split
  · split <;> exact ⟨rfl, rfl, rfl, rfl, Or.inl rfl⟩
  · split <;> exact ⟨rfl, rfl, rfl, rfl, Or.inl rfl⟩
  · exact .refl s

theorem tcpSendAck_same (s : Sock Bictcp) : SameSender s s.tcpSendAck :=
  (⟨rfl, rfl, rfl, rfl, Or.inl rfl⟩ : SameSender s { s with acks := s.acks ++ [(s.rcvNxt, s.demandsCwr)] }).trans
    (abcUpdateAckReserved_same _ _)

theorem abcCeState0To1_same (s : Sock Bictcp) : SameSender s s.abcCeState0To1 := by
  unfold Sock.abcCeState0To1
  split
  · have h := tcpSendAck_same
      { s with ecnFlags := s.ecnFlags &&& ~~~tcpEcnDemandCwr, rcvNxt := s.abc.priorRcvNxt }
    exact ⟨h.cubic, h.cnt, h.lastCwnd, h.loss, h.ssthresh⟩
  · exact ⟨rfl, rfl, rfl, rfl, Or.inl rfl⟩

theorem abcCeState1To0_same (s : Sock Bictcp) : SameSender s s.abcCeState1To0 := by
  unfold Sock.abcCeState1To0
  split
  · have h := tcpSendAck_same
      { s with ecnFlags := s.ecnFlags ||| tcpEcnDemandCwr, rcvNxt := s.abc.priorRcvNxt }
    exact ⟨h.cubic, h.cnt, h.lastCwnd, h.loss, h.ssthresh⟩
  · exact ⟨rfl, rfl, rfl, rfl, Or.inl rfl⟩

theorem cwndEvent_same (j : Nat → UInt32) (s : Sock Bictcp) (ev : CaEvent) : SameSender s (bictcpCwndEvent j s ev) := by
  have h : SameSender s (s.abcCwndEvent ev) := by
    unfold Sock.abcCwndEvent
    split
    · exact abcCeState0To1_same s
    · exact abcCeState1To0_same s
    · exact abcUpdateAckReserved_same s _
    · exact abcUpdateAckReserved_same s _
    · exact .refl s
  unfold bictcpCwndEvent
  dsimp only
  split
  · split
    · exact ⟨h.cubic, h.cnt, h.lastCwnd, h.loss, h.ssthresh⟩
    · exact h
  · exact h

/-- What `hystart_update` writes: the samples of the round, what it has found, and the threshold to leave slow start
at the CUBIC window. -/
theorem hystartUpdate_eq (s : Sock Bictcp) (clock delay : UInt32) : ∃ sampleCnt found lastAck currRtt ssthresh,
    hystartUpdate s clock delay = { s with
      sndSsthresh := ssthresh
      ca := { s.ca with sampleCnt := sampleCnt, found := found, lastAck := lastAck, currRtt := currRtt } } ∧
      (ssthresh = s.sndSsthresh ∨ ssthresh = s.ca.cubicSndCwnd) := by
  -- either test may end slow start at the window of the model, and touches nothing else
  have htrain : ∃ found lastAck ssthresh, detectAckTrain s clock = { s with
      sndSsthresh := ssthresh
      ca := { s.ca with found := found, lastAck := lastAck } } ∧
      (ssthresh = s.sndSsthresh ∨ ssthresh = s.ca.cubicSndCwnd) := by
    unfold detectAckTrain
    dsimp only
    split
    · split
      · exact ⟨_, _, _, rfl, Or.inr rfl⟩
      · exact ⟨_, _, _, rfl, Or.inl rfl⟩
    · exact ⟨_, _, _, rfl, Or.inl rfl⟩
  have hdelay : ∀ s : Sock Bictcp, ∃ sampleCnt found currRtt ssthresh, detectDelay s delay = { s with
      sndSsthresh := ssthresh
      ca := { s.ca with sampleCnt := sampleCnt, found := found, currRtt := currRtt } } ∧
      (ssthresh = s.sndSsthresh ∨ ssthresh = s.ca.cubicSndCwnd) := by
    intro s
    unfold detectDelay
    dsimp only
    split
    · split
      · exact ⟨_, _, _, _, rfl, Or.inl rfl⟩
      · split
        · exact ⟨_, _, _, _, rfl, Or.inr rfl⟩
        · exact ⟨_, _, _, _, rfl, Or.inl rfl⟩
    · exact ⟨_, _, _, _, rfl, Or.inl rfl⟩
  unfold hystartUpdate
  split
  · exact ⟨_, _, _, _, _, rfl, Or.inl rfl⟩
  · obtain ⟨found, lastAck, ssthresh, htrain, hss⟩ := htrain
    obtain ⟨sampleCnt, found', currRtt, ssthresh', hdelay, hss'⟩ := hdelay (detectAckTrain s clock)
    rw [htrain] at hdelay hss' ⊢
    refine ⟨_, _, _, _, _, hdelay, ?_⟩
    rcases hss' with h | h
    · rw [h]
      exact hss
    · exact Or.inr h

/-- What an RTT sample writes. -/
theorem bictcpAcked_eq (k : Kernel) (j : Nat → UInt32) (clock : UInt32) (s : Sock Bictcp) (rttUs : Int32) :
    ∃ delayMin sampleCnt found lastAck currRtt ssthresh rate, bictcpAcked k j clock s rttUs = { s with
      pacingRate := rate
      sndSsthresh := ssthresh
      ca := { s.ca with
        delayMin := delayMin, sampleCnt := sampleCnt, found := found, lastAck := lastAck, currRtt := currRtt } } ∧
      (ssthresh = s.sndSsthresh ∨ ssthresh = s.ca.cubicSndCwnd) := by
  have hpacing : ∀ s : Sock Bictcp, ∃ rate, abcPktsAcked s rttUs = { s with pacingRate := rate } := by
    intro s
    unfold abcPktsAcked
    split
    · exact ⟨_, rfl⟩
    · exact ⟨s.pacingRate, rfl⟩
  unfold bictcpAcked
  split
  · exact ⟨_, _, _, _, _, _, _, rfl, Or.inl rfl⟩
  · split
    · exact ⟨_, _, _, _, _, _, _, rfl, Or.inl rfl⟩
    · dsimp only
      split
      · obtain ⟨_, _, _, _, _, hupdate, hss⟩ := hystartUpdate_eq _ clock _
        rw [hupdate]
        obtain ⟨rate, hrate⟩ := hpacing _
        rw [hrate]
        exact ⟨_, _, _, _, _, _, _, rfl, hss⟩
      · obtain ⟨rate, hrate⟩ := hpacing _
        rw [hrate]
        exact ⟨_, _, _, _, _, _, _, rfl, Or.inl rfl⟩

theorem pktsAcked_same (k : Kernel) (j : Nat → UInt32) (clock : UInt32) (s : Sock Bictcp) (rttUs : Int32) :
    SameSender s (bictcpAcked k j clock s rttUs) := by
  obtain ⟨_, _, _, _, _, _, _, heq, hss⟩ := bictcpAcked_eq k j clock s rttUs
  rw [heq]
  exact ⟨rfl, rfl, rfl, rfl, hss⟩

/-! ## No callback faults -/

/-- An ACK leaves the CUBIC window and what goes with it alone. -/
theorem inAck_inv {s : Sock Bictcp} (h : Ready s) (flags : UInt32) : Inv (abcInAck s flags) := by
  unfold abcInAck
  dsimp only
  split
  · exact ⟨h.low, h.high, h.cnt, h.ssthresh⟩
  · exact h.toInv

/-- Every callback the kernel raises within its bounds returns, and keeps the invariant. -/
theorem handle_ok (k : Kernel) {s : Sock Bictcp} {e : Event} (h : Ready s) (he : Proper e) :
    ∃ s', handle k s e = .ok s' ∧ Inv s' ∧ ((∀ flags, e.callback ≠ .inAck flags) → Kept s s') := by
  unfold handle
  cases hc : e.callback with
  | inAck flags => exact ⟨_, rfl, inAck_inv h flags, fun hne => absurd rfl (hne flags)⟩
  | congAvoid ackedSacked =>
    obtain ⟨s', hs, hinv, hkept⟩ := congAvoid_ok k e.jiffies e.clock h (he.acked _ hc)
    exact ⟨s', hs, hinv, fun _ => hkept⟩
  | setState newState =>
    obtain ⟨hinv, hkept⟩ := state_good e.clock h newState
    exact ⟨_, rfl, hinv, fun _ => hkept⟩
  | cwndEvent ev =>
    obtain ⟨hinv, hkept⟩ := (cwndEvent_same e.jiffies s ev).good h
    exact ⟨_, rfl, hinv, fun _ => hkept⟩
  | pktsAcked rttUs =>
    obtain ⟨hinv, hkept⟩ := (pktsAcked_same k e.jiffies e.clock s rttUs).good h
    exact ⟨_, rfl, hinv, fun _ => hkept⟩

theorem step_ok (k : Kernel) {s : Sock Bictcp} {e : Event} (h : Inv s) (he : Proper e) :
    ∃ d s', step k s e = .ok (d, s') ∧ Inv s' := by
  obtain ⟨s', hs, hinv, -⟩ := handle_ok k (h.ready he) he
  refine ⟨⟨e.callback, e.writes.apply s, s'⟩, s', ?_, hinv⟩
  unfold step
  dsimp only
  rw [hs]; rfl

theorem bictcpInit_inv {s : Sock Bictcp} (clock : UInt32) (hthresh : 2 ≤ s.sndSsthresh.toNat) :
    Inv (bictcpInit s clock) := by
  have habc : (s.abcInit).sndSsthresh = s.sndSsthresh := by
    unfold Sock.abcInit
    split <;> rfl
  have hcubic : (bictcpInit s clock).ca.cubicSndCwnd = 10 := rfl
  refine ⟨by rw [hcubic]; decide, by rw [hcubic]; decide, Or.inr rfl, ?_⟩
  show 2 ≤ (s.abcInit).sndSsthresh.toNat
  rw [habc]; exact hthresh

/-- The module never divides by zero, never reads outside its table and never loops forever: from
its init on any socket, every sequence of callbacks within the kernel's bounds returns,
whatever the clocks read. -/
theorem callbacks_never_fault (k : Kernel) {s : Sock Bictcp} {clock : UInt32} {es : List Event}
    (hthresh : 2 ≤ s.sndSsthresh.toNat) (hes : ∀ e ∈ es, Proper e) :
    ∃ ds s', Run.steps (step k) (bictcpInit s clock) es = .ok (ds, s') := by
  obtain ⟨ds, s', hrun, -⟩ := Run.steps_total (G := fun _ e => Proper e) (fun s e => step_ok k)
    (bictcpInit_inv clock hthresh) (Run.along_of_forall (fun _ => hes) _)
  exact ⟨ds, s', hrun⟩

/-- A kernel at 1000 ticks a second. -/
def Kernel.hz1000 : Kernel := ⟨1000, by decide, UInt32.toUInt64⟩

/-- What a kernel writes that has `inFlight` packets out. -/
def KernelWrites.flying (inFlight : UInt32) : KernelWrites where
  ecnFlags := tcpEcnOk
  rcvMss := 1448
  rcvNxt := 0
  sndUna := 0
  sndNxt := 0
  sndCwnd := 10
  sndCwndCnt := 0
  sndCwndClamp := 0xffffffff
  sndSsthresh := none
  maxPacketsOut := inFlight
  packetsInFlight := inFlight
  isCwndLimited := true
  lsndtime := 0

theorem callbacks_never_fault_small : ∃ ds s', Run.steps (step .hz1000) (bictcpInit (.established default 10) 0)
    [⟨.flying 10, .congAvoid 3, fun i => UInt32.ofNat i, 1⟩, ⟨.flying 13, .setState .recovery, fun _ => 5, 5⟩,
      ⟨.flying 4, .congAvoid 6, fun _ => 9, 9⟩] = .ok (ds, s') := by
  refine callbacks_never_fault .hz1000 (by decide) ?_
  intro e he
  fin_cases he
  · exact ⟨by decide, by simp [KernelWrites.flying], by decide, by decide, fun n hn => by cases hn; decide⟩
  · exact ⟨by decide, by simp [KernelWrites.flying], by decide, by decide, fun n hn => by cases hn⟩
  · exact ⟨by decide, by simp [KernelWrites.flying], by decide, by decide, fun n hn => by cases hn; decide⟩

end AbcMahimahi.Tcp.TcpAbcCubic
