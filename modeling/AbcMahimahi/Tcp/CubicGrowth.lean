/-
How one call of `bictcp_cong_avoid` changes the two windows, and a run of calls. Twice the CUBIC window
with `snd_cwnd_cnt` is a potential that the acknowledged packets pay for: the additive increase takes
`cnt`, two or more, out of the credit for each packet of window, and slow start pays two for one. The
cap at twice the flight stands at the end of the call, after both of its early exits.
-/
import AbcMahimahi.Tcp.CubicRun

namespace AbcMahimahi.Tcp.TcpAbcCubic

open Word

/-! ## Calls that return -/

/-- `cnt` is zero after a reset, and at least two once `bictcp_update` has computed it. -/
def CntSet (ca : Bictcp) : Prop := ca.cnt = 0 ∨ 2 ≤ ca.cnt.toNat

theorem startEpoch_eq {ca ca' : Bictcp} {cwnd acked now : UInt32} (h : startEpoch ca cwnd acked now = .ok ca') :
    ∃ K origin, ca' = { ca with
      epochStart := now, ackCnt := acked, tcpCwnd := cwnd, bicK := K, bicOriginPoint := origin } := by
  unfold startEpoch at h
  dsimp only at h
  split at h
  · cases h
    exact ⟨_, _, rfl⟩
  · obtain ⟨K, -, h⟩ := Run.bind_ok h
    cases h
    exact ⟨_, _, rfl⟩

theorem cubicCnt_eq {ca ca' : Bictcp} {cwnd target : UInt32} (h : cubicCnt ca cwnd target = .ok ca') :
    ∃ cnt, ca' = { ca with cnt := cnt } := by
  have hcap : ∀ x : UInt32, ∃ cnt,
      (if ca.lastMaxCwnd = 0 ∧ x > 20 then { ca with cnt := 20 } else { ca with cnt := x }) =
        { ca with cnt := cnt } := by
    intro x
    split <;> exact ⟨_, rfl⟩
  unfold cubicCnt at h
  dsimp only at h
  split at h
  · obtain ⟨cnt, -, h⟩ := Run.bind_ok h
    cases h
    exact hcap cnt
  · obtain ⟨cnt, -, h⟩ := Run.bind_ok h
    cases h
    exact hcap cnt

theorem friendlyCnt_eq {ca ca' : Bictcp} {cwnd : UInt32} (h : friendlyCnt ca cwnd = .ok ca') :
    ∃ cnt ackCnt tcpCwnd, ca' = { ca with cnt := cnt, ackCnt := ackCnt, tcpCwnd := tcpCwnd } ∧ 2 ≤ cnt.toNat := by
  have hcnt : ∀ x : UInt32, 2 ≤ (max x 2).toNat := fun x => by rw [toNat_max]; exact le_max_right _ _
  unfold friendlyCnt at h
  rw [if_pos (show tcpFriendliness = true from rfl)] at h
  obtain ⟨⟨ackCnt, tcpCwnd⟩, -, h⟩ := Run.bind_ok h
  dsimp only at h
  split at h
  · obtain ⟨maxCnt, -, h⟩ := Run.bind_ok h
    cases h
    split <;> exact ⟨_, _, _, rfl, hcnt _⟩
  · cases h
    exact ⟨_, _, _, rfl, hcnt _⟩

/-- What `bictcp_update` writes: `cnt` is left alone or at least two. -/
theorem bictcpUpdate_eq {k : Kernel} {j : Nat → UInt32} {ca ca' : Bictcp} {cwnd acked : UInt32}
    (h : bictcpUpdate k j ca cwnd acked = .ok ca') :
    ∃ cnt lastCwnd lastTime origin K epochStart ackCnt tcpCwnd, ca' = { ca with
      cnt := cnt, lastCwnd := lastCwnd, lastTime := lastTime, bicOriginPoint := origin, bicK := K,
      epochStart := epochStart,
      ackCnt := ackCnt, tcpCwnd := tcpCwnd } ∧ (cnt = ca.cnt ∨ 2 ≤ cnt.toNat) := by
  unfold bictcpUpdate at h
  dsimp only at h
  split at h
  · cases h
    exact ⟨_, _, _, _, _, _, _, _, rfl, Or.inl rfl⟩
  · split at h
    · obtain ⟨cnt, ackCnt, tcpCwnd, rfl, hcnt⟩ := friendlyCnt_eq h
      exact ⟨_, _, _, _, _, _, _, _, rfl, Or.inr hcnt⟩
    · split at h
      · obtain ⟨ca₁, h₁, h⟩ := Run.bind_ok h
        obtain ⟨ca₂, h₂, h⟩ := Run.bind_ok h
        obtain ⟨K, origin, rfl⟩ := startEpoch_eq h₁
        obtain ⟨cnt₂, rfl⟩ := cubicCnt_eq h₂
        obtain ⟨cnt, ackCnt, tcpCwnd, rfl, hcnt⟩ := friendlyCnt_eq h
        exact ⟨_, _, _, _, _, _, _, _, rfl, Or.inr hcnt⟩
      · rw [Run.pure_ok, Run.ok_bind] at h
        obtain ⟨ca₂, h₂, h⟩ := Run.bind_ok h
        obtain ⟨cnt₂, rfl⟩ := cubicCnt_eq h₂
        obtain ⟨cnt, ackCnt, tcpCwnd, rfl, hcnt⟩ := friendlyCnt_eq h
        exact ⟨_, _, _, _, _, _, _, _, rfl, Or.inr hcnt⟩

theorem bictcpUpdate_spec {k : Kernel} {j : Nat → UInt32} {ca ca' : Bictcp} {cwnd acked : UInt32}
    (h : bictcpUpdate k j ca cwnd acked = .ok ca') (hcnt : CntSet ca) :
    ca'.cubicSndCwnd = ca.cubicSndCwnd ∧ CntSet ca' := by
  obtain ⟨cnt, _, _, _, _, _, _, _, rfl, hset⟩ := bictcpUpdate_eq h
  refine ⟨rfl, ?_⟩
  rcases hset with rfl | hset
  · exact hcnt
  · exact Or.inr hset

theorem takeCredit_eq {s s' : Sock Bictcp} {w : UInt32} (h : takeCredit s w = .ok s') :
    ∃ credit cubic, s' = { s with sndCwndCnt := credit, ca := { s.ca with cubicSndCwnd := cubic } } := by
  unfold takeCredit at h
  split at h
  · obtain ⟨delta, -, h⟩ := Run.bind_ok h
    cases h
    exact ⟨_, _, rfl⟩
  · cases h
    exact ⟨_, _, rfl⟩

/-- What the additive increase writes. -/
theorem congAvoidAi_eq {s s' : Sock Bictcp} {w acked : UInt32} (h : cubictcpTcpCongAvoidAi s w acked = .ok s') :
    ∃ credit cubic, s' = { s with sndCwndCnt := credit, ca := { s.ca with cubicSndCwnd := cubic } } := by
  have hold : ∃ credit cubic, applyOldCredit s w = { s with
      sndCwndCnt := credit, ca := { s.ca with cubicSndCwnd := cubic } } := by
    unfold applyOldCredit
    split <;> exact ⟨_, _, rfl⟩
  unfold cubictcpTcpCongAvoidAi at h
  obtain ⟨s₁, h₁, h⟩ := Run.bind_ok h
  cases h
  obtain ⟨credit, cubic, hold⟩ := hold
  obtain ⟨credit', cubic', rfl⟩ := takeCredit_eq h₁
  rw [hold]
  exact ⟨_, _, rfl⟩

/-! ## The cap -/

/-- Both windows are within twice the flight and five. -/
def Within (ca : Bictcp) (inFlight : UInt32) : Prop :=
  ca.lossCwnd.toNat ≤ 2 * inFlight.toNat + 5 ∧ ca.cubicSndCwnd.toNat ≤ 2 * inFlight.toNat + 5

/-- The cap wraps around downwards only. -/
theorem capWindows_within (s : Sock Bictcp) : Within (capWindows s).ca s.packetsInFlight := by
  have hcap : (2 * s.packetsInFlight + 5 : UInt32).toNat ≤ 2 * s.packetsInFlight.toNat + 5 := by
    rw [UInt32.toNat_add, UInt32.toNat_mul]
    simp only [UInt32.reduceToNat]
    omega
  unfold Within capWindows
  dsimp only
  rw [toNat_min, toNat_min]
  omega

theorem updateWindow_within {k : Kernel} {j : Nat → UInt32} {s s' : Sock Bictcp} {acked : UInt32}
    (h : updateWindow k j s acked = .ok s') : Within s'.ca s.packetsInFlight := by
  unfold updateWindow at h
  obtain ⟨ca, -, h⟩ := Run.bind_ok h
  obtain ⟨s₁, h₁, h⟩ := Run.bind_ok h
  cases h
  obtain ⟨credit, cubic, rfl⟩ := congAvoidAi_eq h₁
  exact capWindows_within _

/-- Slow start uses an ACK up when the window with it is no more than the threshold. -/
theorem slowStart_rest_eq_zero (s : Sock Bictcp) (acked : UInt32) :
    (cubictcpSlowStart s acked).1 = 0 ↔ s.ca.cubicSndCwnd + acked ≤ s.sndSsthresh := by
  have hmin : ∀ x y : UInt32, min x y = x ↔ x ≤ y := fun x y => by
    rw [← UInt32.toNat_inj, toNat_min, UInt32.le_iff_toNat_le]
    omega
  rw [← hmin]
  show acked - (min (s.ca.cubicSndCwnd + acked) s.sndSsthresh - s.ca.cubicSndCwnd) = 0 ↔ _
  generalize min (s.ca.cubicSndCwnd + acked) s.sndSsthresh = cwnd
  constructor
  · intro h
    grind
  · rintro rfl
    rw [UInt32.add_comm, UInt32.add_sub_cancel, UInt32.sub_self]

theorem slowStartPhase_rest (clock : UInt32) (s : Sock Bictcp) (acked : UInt32) :
    (slowStartPhase clock s acked).1 = (cubictcpSlowStart s acked).1 := by
  unfold slowStartPhase
  dsimp only
  split <;> rfl

/-- Slow start leaves the ABC window, the credit and the packets in flight alone. -/
theorem slowStartPhase_same (clock : UInt32) (s : Sock Bictcp) (acked : UInt32) :
    (slowStartPhase clock s acked).2.ca.lossCwnd = s.ca.lossCwnd ∧
      (slowStartPhase clock s acked).2.ca.cnt = s.ca.cnt ∧
      (slowStartPhase clock s acked).2.sndCwndCnt = s.sndCwndCnt ∧
      (slowStartPhase clock s acked).2.packetsInFlight = s.packetsInFlight ∧
      (slowStartPhase clock s acked).2.ca.cubicSndCwnd =
        min (min (s.ca.cubicSndCwnd + acked) s.sndSsthresh) s.sndCwndClamp := by
  unfold slowStartPhase
  dsimp only
  split <;> exact ⟨rfl, rfl, rfl, rfl, rfl⟩

/-- The three ways through a call that returns: not limited, slow start with the ACK used up, and the
update, after slow start or without it. -/
theorem congAvoid_cases {k : Kernel} {j : Nat → UInt32} {clock acked : UInt32} {s s' : Sock Bictcp}
    (h : bictcpCongAvoid k j clock s acked = .ok s') :
    cubictcpIsCwndLimited s = false ∧ s' = s ∨
      cubictcpIsCwndLimited s = true ∧ cubictcpInSlowStart s = true ∧ s.ca.cubicSndCwnd + acked ≤ s.sndSsthresh ∧
        s' = (slowStartPhase clock s acked).2 ∨
      cubictcpIsCwndLimited s = true ∧ cubictcpInSlowStart s = true ∧ ¬ s.ca.cubicSndCwnd + acked ≤ s.sndSsthresh ∧
        updateWindow k j (slowStartPhase clock s acked).2 (cubictcpSlowStart s acked).1 = .ok s' ∨
      cubictcpIsCwndLimited s = true ∧ cubictcpInSlowStart s = false ∧ updateWindow k j s acked = .ok s' := by
  unfold bictcpCongAvoid at h
  cases hlimited : cubictcpIsCwndLimited s with
  | false =>
    rw [hlimited, if_pos (by decide)] at h
    cases h
    exact Or.inl ⟨rfl, rfl⟩
  | true =>
    rw [hlimited, if_neg (by decide)] at h
    refine Or.inr ?_
    cases hslow : cubictcpInSlowStart s with
    | false =>
      rw [hslow, if_neg (by decide)] at h
      exact Or.inr (Or.inr ⟨rfl, rfl, h⟩)
    | true =>
      rw [hslow, if_pos rfl] at h
      dsimp only at h
      rw [slowStartPhase_rest] at h
      split at h
      · rename_i hrest
        cases h
        exact Or.inl ⟨rfl, rfl, (slowStart_rest_eq_zero s acked).1 hrest, rfl⟩
      · rename_i hrest
        exact Or.inr (Or.inl ⟨rfl, rfl, fun hle => hrest ((slowStart_rest_eq_zero s acked).2 hle), h⟩)

/-- Exactly when the two windows are within twice the flight on return, whatever the state. A call that
goes on to the update caps them. One that is not limited leaves both as they are; one whose ACK slow start
uses up leaves the ABC window as it is and the CUBIC window with the ACK added, up to the clamp.
`bictcp_recalc_ssthresh` always caps. -/
theorem windows_within_flight (k : Kernel) (j : Nat → UInt32) (clock : UInt32) (s : Sock Bictcp) (acked : UInt32) :
    (∀ s', bictcpCongAvoid k j clock s acked = .ok s' →
      (cubictcpIsCwndLimited s = false → s' = s) ∧
      (cubictcpIsCwndLimited s = true → cubictcpInSlowStart s = true → s.ca.cubicSndCwnd + acked ≤ s.sndSsthresh →
        s'.ca.lossCwnd = s.ca.lossCwnd ∧ s'.ca.cubicSndCwnd = min (s.ca.cubicSndCwnd + acked) s.sndCwndClamp) ∧
      (cubictcpIsCwndLimited s = true → (cubictcpInSlowStart s = true → ¬ s.ca.cubicSndCwnd + acked ≤ s.sndSsthresh) →
        Within s'.ca s.packetsInFlight)) ∧
      Within (bictcpRecalcSsthresh s).ca s.packetsInFlight := by
  refine ⟨fun s' h => ?_, capWindows_within _⟩
  rcases congAvoid_cases h with ⟨hl, rfl⟩ | ⟨hl, hslow, hle, rfl⟩ | ⟨hl, hslow, hle, h⟩ | ⟨hl, hslow, h⟩
  · exact ⟨fun _ => rfl, fun hl' => absurd (hl.symm.trans hl') (by decide),
      fun hl' => absurd (hl.symm.trans hl') (by decide)⟩
  · obtain ⟨hloss, -, -, -, hcubic⟩ := slowStartPhase_same clock s acked
    refine ⟨fun hl' => absurd (hl'.symm.trans hl) (by decide), fun _ _ _ => ⟨hloss, ?_⟩,
      fun _ hnot => absurd hle (hnot hslow)⟩
    have hmin : min (s.ca.cubicSndCwnd + acked) s.sndSsthresh = s.ca.cubicSndCwnd + acked := by
      rw [UInt32.le_iff_toNat_le] at hle
      rw [← UInt32.toNat_inj, toNat_min]
      omega
    rw [hcubic, hmin]
  · refine ⟨fun hl' => absurd (hl'.symm.trans hl) (by decide), fun _ _ hle' => absurd hle' hle, fun _ _ => ?_⟩
    have hflight := (slowStartPhase_same clock s acked).2.2.2.1
    rw [← hflight]
    exact updateWindow_within h
  · exact ⟨fun hl' => absurd (hl'.symm.trans hl) (by decide),
      fun _ hslow' => absurd (hslow.symm.trans hslow') (by decide),
      fun _ _ => updateWindow_within h⟩

/-- From the module's init, with nothing in flight any more: a call that is not limited, and one whose
three packets slow start uses up. -/
theorem windows_exceed_flight :
    (∃ ds s', Run.steps (step .hz1000) (bictcpInit (.established default 10) 0)
        [⟨.flying 0, .congAvoid 3, fun _ => 0, 0⟩] = .ok (ds, s') ∧
      s'.packetsInFlight = 0 ∧ 2 * 0 + 5 < s'.ca.lossCwnd.toNat ∧ 2 * 0 + 5 < s'.ca.cubicSndCwnd.toNat) ∧
    ∃ ds s', Run.steps (step .hz1000) (bictcpInit (.established default 10) 0)
        [⟨{ KernelWrites.flying 10 with packetsInFlight := 0 }, .congAvoid 3, fun _ => 0, 0⟩] = .ok (ds, s') ∧
      s'.packetsInFlight = 0 ∧ 2 * 0 + 5 < s'.ca.lossCwnd.toNat ∧ 2 * 0 + 5 < s'.ca.cubicSndCwnd.toNat :=
  ⟨⟨_, _, rfl, by decide⟩, ⟨_, _, rfl, by decide⟩⟩

/-! ## The growth of the CUBIC window -/

/-- What the CUBIC window is worth in acknowledged packets, counted twice, with the credit. -/
def worth (s : Sock Bictcp) : Nat := 2 * s.ca.cubicSndCwnd.toNat + s.sndCwndCnt.toNat

theorem toNat_add_le (x y : UInt32) : (x + y).toNat ≤ x.toNat + y.toNat := by
  rw [UInt32.toNat_add]
  exact Nat.mod_le _ _

theorem applyOldCredit_worth (s : Sock Bictcp) {w : UInt32} (hw : 2 ≤ w.toNat) :
    worth (applyOldCredit s w) ≤ worth s := by
  unfold applyOldCredit
  split
  · rename_i hge
    rw [ge_iff_le, UInt32.le_iff_toNat_le] at hge
    have hinc := toNat_add_le s.ca.cubicSndCwnd 1
    unfold worth
    simp only [UInt32.reduceToNat] at hinc ⊢
    omega
  · exact le_rfl

/-- Each packet of window costs `w`, two or more, of the credit. -/
theorem takeCredit_worth {s s' : Sock Bictcp} {w : UInt32} (hw : 2 ≤ w.toNat) (h : takeCredit s w = .ok s') :
    worth s' ≤ worth s := by
  unfold takeCredit at h
  split at h
  · rw [divU32_ok (ne_zero_of_pos (by omega)), Run.ok_bind] at h
    cases h
    have hdelta : (s.sndCwndCnt / w).toNat = s.sndCwndCnt.toNat / w.toNat := UInt32.toNat_div _ _
    have hspent : s.sndCwndCnt.toNat / w.toNat * w.toNat ≤ s.sndCwndCnt.toNat := Nat.div_mul_le_self _ _
    have htwice : s.sndCwndCnt.toNat / w.toNat * 2 ≤ s.sndCwndCnt.toNat / w.toNat * w.toNat := Nat.mul_le_mul_left _ hw
    have hlt := s.sndCwndCnt.toNat_lt
    have hmul : (s.sndCwndCnt / w * w).toNat = s.sndCwndCnt.toNat / w.toNat * w.toNat := by
      rw [toNat_mul_of_lt (by rw [hdelta]; omega), hdelta]
    have hgrown := toNat_add_le s.ca.cubicSndCwnd (s.sndCwndCnt / w)
    unfold worth
    dsimp only
    rw [toNat_sub_of_le (by rw [hmul]; exact hspent), hmul]
    rw [hdelta] at hgrown
    omega
  · cases h
    exact le_rfl

/-- With `w` zero the division faults. -/
theorem takeCredit_pos {s s' : Sock Bictcp} {w : UInt32} (h : takeCredit s w = .ok s') : w ≠ 0 := by
  rintro rfl
  unfold takeCredit at h
  rw [if_pos (by rw [ge_iff_le, UInt32.le_iff_toNat_le]; exact Nat.zero_le _)] at h
  cases h

theorem congAvoidAi_worth {s s' : Sock Bictcp} {w acked : UInt32} (hw : w = 0 ∨ 2 ≤ w.toNat)
    (h : cubictcpTcpCongAvoidAi s w acked = .ok s') : worth s' ≤ worth s + acked.toNat := by
  unfold cubictcpTcpCongAvoidAi at h
  obtain ⟨s₁, h₁, h⟩ := Run.bind_ok h
  cases h
  have hw₂ : 2 ≤ w.toNat := hw.resolve_left (takeCredit_pos h₁)
  have hold := applyOldCredit_worth s hw₂
  have htake := takeCredit_worth hw₂ h₁
  have hadd := toNat_add_le (applyOldCredit s w).sndCwndCnt acked
  unfold worth at hold htake ⊢
  dsimp only at htake ⊢
  rw [toNat_min]
  omega

theorem updateWindow_worth {k : Kernel} {j : Nat → UInt32} {s s' : Sock Bictcp} {acked : UInt32} (hcnt : CntSet s.ca)
    (h : updateWindow k j s acked = .ok s') : CntSet s'.ca ∧ worth s' ≤ worth s + acked.toNat := by
  unfold updateWindow at h
  obtain ⟨ca, hu, h⟩ := Run.bind_ok h
  obtain ⟨s₁, h₁, h⟩ := Run.bind_ok h
  cases h
  obtain ⟨hsame, hcnt'⟩ := bictcpUpdate_spec hu hcnt
  have hpaid := congAvoidAi_worth hcnt' h₁
  obtain ⟨credit, cubic, rfl⟩ := congAvoidAi_eq h₁
  refine ⟨hcnt', ?_⟩
  unfold worth at hpaid ⊢
  unfold capWindows
  dsimp only at hpaid ⊢
  rw [hsame] at hpaid
  rw [toNat_min]
  omega

/-- Slow start takes two for each packet it grows by and leaves the other packets of the ACK: limited, the
window is below twice `max_packets_out`, so the ACK fits on top of it. -/
theorem slowStartPhase_worth {s : Sock Bictcp} {acked : UInt32} (clock : UInt32) (hacked : acked.toNat < 2 ^ 24)
    (hout : s.maxPacketsOut.toNat < 2 ^ 24) (hlimited : cubictcpIsCwndLimited s = true)
    (hslow : cubictcpInSlowStart s = true) :
    worth (slowStartPhase clock s acked).2 + (cubictcpSlowStart s acked).1.toNat ≤ worth s + 2 * acked.toNat := by
  obtain ⟨-, -, hcredit, -, hcubic⟩ := slowStartPhase_same clock s acked
  have hmax : (2 * s.maxPacketsOut : UInt32).toNat = 2 * s.maxPacketsOut.toNat :=
    toNat_mul_of_lt (by simp only [UInt32.reduceToNat]; omega)
  unfold cubictcpIsCwndLimited at hlimited
  rw [hslow, if_pos rfl, decide_eq_true_eq, UInt32.lt_iff_toNat_lt, hmax] at hlimited
  unfold cubictcpInSlowStart at hslow
  rw [decide_eq_true_eq, UInt32.lt_iff_toNat_lt] at hslow
  have hsum : (s.ca.cubicSndCwnd + acked).toNat = s.ca.cubicSndCwnd.toNat + acked.toNat := toNat_add_of_lt (by omega)
  have hcwnd := toNat_min (s.ca.cubicSndCwnd + acked) s.sndSsthresh
  have hrest : (cubictcpSlowStart s acked).1.toNat =
      acked.toNat - ((min (s.ca.cubicSndCwnd + acked) s.sndSsthresh).toNat - s.ca.cubicSndCwnd.toNat) := by
    show (acked - (min (s.ca.cubicSndCwnd + acked) s.sndSsthresh - s.ca.cubicSndCwnd)).toNat = _
    rw [toNat_sub_of_le, toNat_sub_of_le]
    · omega
    · rw [toNat_sub_of_le] <;> omega
  unfold worth
  rw [hrest, hcredit, hcubic, toNat_min]
  omega

/-- What a call is paid: twice the packets acknowledged in slow start, once outside it. -/
def paid (s : Sock Bictcp) (acked : UInt32) : Nat :=
  if cubictcpInSlowStart s then 2 * acked.toNat else acked.toNat

theorem slowStartPhase_cntSet {s : Sock Bictcp} (clock acked : UInt32) (hcnt : CntSet s.ca) :
    CntSet (slowStartPhase clock s acked).2.ca := by
  unfold CntSet
  rw [(slowStartPhase_same clock s acked).2.1]
  exact hcnt

theorem congAvoid_cntSet {k : Kernel} {j : Nat → UInt32} {clock acked : UInt32} {s s' : Sock Bictcp}
    (hcnt : CntSet s.ca)
    (h : bictcpCongAvoid k j clock s acked = .ok s') : CntSet s'.ca := by
  rcases congAvoid_cases h with ⟨-, rfl⟩ | ⟨-, -, -, rfl⟩ | ⟨-, -, -, h⟩ | ⟨-, -, h⟩
  · exact hcnt
  · exact slowStartPhase_cntSet clock acked hcnt
  · exact (updateWindow_worth (slowStartPhase_cntSet clock acked hcnt) h).1
  · exact (updateWindow_worth hcnt h).1

theorem congAvoid_worth {k : Kernel} {j : Nat → UInt32} {clock acked : UInt32} {s s' : Sock Bictcp} (hcnt : CntSet s.ca)
    (hacked : acked.toNat < 2 ^ 24) (hout : s.maxPacketsOut.toNat < 2 ^ 24)
    (h : bictcpCongAvoid k j clock s acked = .ok s') : worth s' ≤ worth s + paid s acked := by
  unfold paid
  rcases congAvoid_cases h with ⟨-, rfl⟩ | ⟨hlimited, hslow, -, rfl⟩ | ⟨hlimited, hslow, -, h⟩ | ⟨-, hslow, h⟩
  · exact Nat.le_add_right _ _
  · have hgrown := slowStartPhase_worth clock hacked hout hlimited hslow
    rw [hslow, if_pos rfl]
    omega
  · have hgrown := slowStartPhase_worth clock hacked hout hlimited hslow
    have hrest := (updateWindow_worth (slowStartPhase_cntSet clock acked hcnt) h).2
    rw [hslow, if_pos rfl]
    omega
  · rw [hslow, if_neg (by decide)]
    exact (updateWindow_worth hcnt h).2

/-! ### Runs -/

/-- A module at its init. -/
def Fresh (s : Sock Bictcp) : Prop := ∃ s₀ clock, s = bictcpInit s₀ clock

/-- No callback leaves `cnt` at one. -/
theorem handle_cntSet {k : Kernel} {s s' : Sock Bictcp} {e : Event} (hcnt : CntSet s.ca) (h : handle k s e = .ok s') :
    CntSet s'.ca := by
  -- a callback that leaves the sender as it was leaves `cnt` as it was
  have hsame : ∀ {s'}, SameSender s s' → CntSet s'.ca := fun h => by
    unfold CntSet
    rw [h.cnt]
    exact hcnt
  unfold handle at h
  cases hc : e.callback with
  | inAck flags =>
    rw [hc] at h
    cases h
    unfold abcInAck
    dsimp only
    split
    · exact hcnt
    · exact hcnt
  | congAvoid ackedSacked =>
    rw [hc] at h
    exact congAvoid_cntSet hcnt h
  | setState newState =>
    rw [hc] at h
    cases h
    cases newState with
    | recovery =>
      show CntSet (bictcpRecalcSsthresh s).ca
      unfold bictcpRecalcSsthresh
      dsimp only
      split
      · exact hcnt
      · exact hcnt
    | loss => exact Or.inl rfl
    | cwr => exact hcnt
    | other => exact hcnt
  | cwndEvent ev =>
    rw [hc] at h
    cases h
    exact hsame (cwndEvent_same _ _ _)
  | pktsAcked rttUs =>
    rw [hc] at h
    cases h
    exact hsame (pktsAcked_same _ _ _ _ _)

theorem reachable_cntSet {k : Kernel} {s : Sock Bictcp} (h : Run.Reachable (step k) Fresh s) : CntSet s.ca := by
  refine Run.Reachable.inv (P := fun s => CntSet s.ca) ?_ ?_ h
  · rintro s ⟨s₀, clock, rfl⟩
    exact Or.inl rfl
  · intro s e d s' hcnt hs
    unfold step at hs
    obtain ⟨s₁, h₁, hs⟩ := Run.bind_ok hs
    cases hs
    exact handle_cntSet (s := e.writes.apply s) hcnt h₁

/-- A call of `bictcp_cong_avoid`, with the packets it acknowledges and `max_packets_out` below `2 ^ 24`;
without a recovery in between the kernel leaves `snd_cwnd_cnt` alone. -/
structure AvoidCall (s : Sock Bictcp) (e : Event) : Prop where
  call : ∃ ackedSacked, e.callback = .congAvoid ackedSacked ∧ ackedSacked.toNat < 2 ^ 24
  maxOut : e.writes.maxPacketsOut.toNat < 2 ^ 24
  credit : e.writes.sndCwndCnt = s.sndCwndCnt

/-- The packets acknowledged to a call. -/
def Handled.acked (d : Handled) : Nat :=
  match d.callback with
  | .congAvoid ackedSacked => ackedSacked.toNat
  | _ => 0

/-- The packets that a call is paid for. -/
def Handled.paid (d : Handled) : Nat := if cubictcpInSlowStart d.before then 2 * d.acked else d.acked

theorem step_worth {k : Kernel} {s s' : Sock Bictcp} {e : Event} {d : Handled} (hcnt : CntSet s.ca) (he : AvoidCall s e)
    (h : step k s e = .ok (d, s')) : CntSet s'.ca ∧ worth s' ≤ worth s + d.paid := by
  obtain ⟨ackedSacked, hc, hacked⟩ := he.call
  have hworth : worth (e.writes.apply s) = worth s := by
    show 2 * s.ca.cubicSndCwnd.toNat + e.writes.sndCwndCnt.toNat = worth s
    rw [he.credit]
    rfl
  unfold step at h
  obtain ⟨s₁, h₁, h⟩ := Run.bind_ok h
  cases h
  have hcall := h₁
  unfold handle at hcall
  rw [hc] at hcall
  refine ⟨handle_cntSet (s := e.writes.apply s) hcnt h₁, ?_⟩
  have hpaid := congAvoid_worth (s := e.writes.apply s) hcnt hacked he.maxOut hcall
  rw [hworth] at hpaid
  unfold Handled.paid Handled.acked
  dsimp only
  rw [hc]
  exact hpaid

/-- Over every run of calls of `bictcp_cong_avoid` from a reachable state: twice the growth of the CUBIC
window is at most the credit at the start and twice the packets acknowledged, and the packets once if no
call found the window in slow start. -/
theorem growth_paid_by_acks {k : Kernel} {s s' : Sock Bictcp} {es : List Event} {ds : List Handled}
    (hreach : Run.Reachable (step k) Fresh s) (hes : Run.Along (step k) AvoidCall s es)
    (hrun : Run.steps (step k) s es = .ok (ds, s')) :
    2 * s'.ca.cubicSndCwnd.toNat ≤ 2 * s.ca.cubicSndCwnd.toNat + s.sndCwndCnt.toNat + 2 * (ds.map Handled.acked).sum ∧
      ((∀ d ∈ ds, cubictcpInSlowStart d.before = false) →
        2 * s'.ca.cubicSndCwnd.toNat ≤ 2 * s.ca.cubicSndCwnd.toNat + s.sndCwndCnt.toNat +
          (ds.map Handled.acked).sum) := by
  have hpaid : worth s' ≤ worth s + (ds.map Handled.paid).sum :=
    Run.steps_potential (fun s e d s' => step_worth) (reachable_cntSet hreach) hes hrun
  unfold worth at hpaid
  constructor
  · have htwice : (ds.map Handled.paid).sum ≤ (ds.map fun d => 2 * d.acked).sum := by
      refine List.sum_le_sum fun d _ => ?_
      unfold Handled.paid
      split <;> omega
    rw [List.sum_map_mul_left] at htwice
    omega
  · intro hnone
    have honce : (ds.map Handled.paid).sum = (ds.map Handled.acked).sum := by
      refine congrArg List.sum (List.map_congr_left fun d hd => ?_)
      unfold Handled.paid
      rw [hnone d hd, if_neg (by decide)]
    omega

/-- A computation of `AvoidCall`. -/
def avoidCheck (s : Sock Bictcp) (e : Event) : Bool :=
  (match e.callback with
    | .congAvoid ackedSacked => decide (ackedSacked.toNat < 2 ^ 24)
    | _ => false) &&
  decide (e.writes.maxPacketsOut.toNat < 2 ^ 24 ∧ e.writes.sndCwndCnt = s.sndCwndCnt)

theorem avoidCall_of_check (s : Sock Bictcp) (e : Event) (h : avoidCheck s e = true) : AvoidCall s e := by
  unfold avoidCheck at h
  rw [Bool.and_eq_true, decide_eq_true_eq] at h
  obtain ⟨hcall, hmax, hcredit⟩ := h
  split at hcall
  · rename_i ackedSacked hcallback
    exact ⟨⟨ackedSacked, hcallback, of_decide_eq_true hcall⟩, hmax, hcredit⟩
  · cases hcall

/-- A call with ten packets in flight, with that credit and so many packets acknowledged. -/
def avoiding (credit ackedSacked : UInt32) : Event :=
  ⟨{ KernelWrites.flying 10 with sndCwndCnt := credit }, .congAvoid ackedSacked, fun i => 1000 + UInt32.ofNat i, 1⟩

/-- The first call finds the window in slow start, below the threshold of twelve that it is given. -/
def slowStartCall : Event := { avoiding 0 6 with writes := { KernelWrites.flying 10 with sndSsthresh := some 12 } }

/-- The window goes from 10 to 12 in slow start, and then with 31 packets to 13. -/
theorem growth_paid_by_acks_small : ∃ s₀ ds₀ s ds s', Run.Reachable (step .hz1000) Fresh s₀ ∧
    Run.steps (step .hz1000) s₀ [slowStartCall] = .ok (ds₀, s) ∧
    2 * s.ca.cubicSndCwnd.toNat ≤ 2 * s₀.ca.cubicSndCwnd.toNat + s₀.sndCwndCnt.toNat + 2 * (ds₀.map Handled.acked).sum ∧
    Run.steps (step .hz1000) s [avoiding 4 6, avoiding 10 2, avoiding 12 10, avoiding 2 3, avoiding 5 10] = .ok (ds, s') ∧
    2 * s'.ca.cubicSndCwnd.toNat ≤ 2 * s.ca.cubicSndCwnd.toNat + s.sndCwndCnt.toNat + (ds.map Handled.acked).sum := by
  have hfresh : Run.Reachable (step .hz1000) Fresh (bictcpInit (.established default 10) 0) := .start ⟨_, 0, rfl⟩
  have hrun : ∃ ds₀ s ds s', Run.steps (step .hz1000) (bictcpInit (.established default 10) 0) [slowStartCall] = .ok (ds₀, s) ∧
      Run.Along (step .hz1000) AvoidCall s [avoiding 4 6, avoiding 10 2, avoiding 12 10, avoiding 2 3, avoiding 5 10] ∧
      Run.steps (step .hz1000) s [avoiding 4 6, avoiding 10 2, avoiding 12 10, avoiding 2 3, avoiding 5 10] = .ok (ds, s') ∧
      ∀ d ∈ ds, cubictcpInSlowStart d.before = false :=
    ⟨_, _, _, _, rfl, Run.along_of_check avoidCall_of_check (by decide +kernel), rfl, by decide +kernel⟩
  obtain ⟨ds₀, s, ds, s', hslow, hcalls, hrest, hnone⟩ := hrun
  have hcall : Run.Along (step .hz1000) AvoidCall (bictcpInit (.established default 10) 0) [slowStartCall] :=
    Run.along_of_check avoidCall_of_check (by decide +kernel)
  exact ⟨_, ds₀, s, ds, s', hfresh, hslow, (growth_paid_by_acks hfresh hcall hslow).1, hrest,
    (growth_paid_by_acks (hfresh.run hslow) hcalls hrest).2 hnone⟩

end AbcMahimahi.Tcp.TcpAbcCubic
