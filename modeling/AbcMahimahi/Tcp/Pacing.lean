/-
The pacing rate that the RTT samples leave, in both modules. Twice the window over the RTT is rounded down
in the quotient alone, so it still sends the window within the RTT; but the product is taken in 32 bits,
and abccubic leaves the old rate in force for the samples it discards.
-/
import AbcMahimahi.Tcp.AbcWindow
import AbcMahimahi.Tcp.CubicRun

namespace AbcMahimahi.Tcp

open Word

/-! ## The rate of a window -/

/-- The rate is the one of the window and the sample, and paces a window of full segments in an RTT. -/
structure Paced (rate window : UInt32) (rttUs : Int32) : Prop where
  exact : rate.toNat = 100 * window.toNat * (29000000 / rttUs.toNatClampNeg)
  fast : window.toNat * 1448 * 10 ^ 6 ≤ rate.toNat * rttUs.toNatClampNeg

theorem toNat_rttQuotient {rttUs : Int32} (h : 0 < rttUs) :
    (29000000 / rttUs).toUInt32.toNat = 29000000 / rttUs.toNatClampNeg := by
  have hpos : (0 : Int) < rttUs.toInt := by
    rw [Int32.lt_iff_toInt_lt] at h
    simpa using h
  have hrtt : (rttUs.toNatClampNeg : Int) = rttUs.toInt := Int.toNat_of_nonneg hpos.le
  have hdiv : (29000000 / rttUs).toInt = ((29000000 / rttUs.toNatClampNeg : Nat) : Int) := by
    rw [Int32.toInt_div_of_ne_left _ _ (by decide)]
    show (29000000 : Int).tdiv rttUs.toInt = _
    rw [← hrtt]
    rfl
  have hnonneg : 0 ≤ 29000000 / rttUs := by
    rw [Int32.le_iff_toInt_le, hdiv]
    exact Int.natCast_nonneg _
  rw [Int32.toNat_toUInt32_of_le hnonneg]
  show (29000000 / rttUs).toInt.toNat = _
  rw [hdiv]
  rfl

/-- The product of `abc_pkts_acked`. -/
theorem toNat_pacingRate (window : UInt32) {rttUs : Int32} (h : 0 < rttUs) :
    ((window * 100) * (29000000 / rttUs).toUInt32).toNat =
      100 * window.toNat * (29000000 / rttUs.toNatClampNeg) % 2 ^ 32 := by
  simp only [UInt32.toNat_mul, toNat_rttQuotient h, UInt32.reduceToNat, Nat.mod_mul_mod]
  rw [Nat.mul_comm window.toNat 100]

/-- Up to half of 29 seconds the quotient loses less than half, so the rate keeps up with the window. -/
theorem paced_iff {rate window : UInt32} {rttUs : Int32} (h : 0 < rttUs) (hle : rttUs ≤ 14500000) :
    Paced rate window rttUs ↔ rate.toNat = 100 * window.toNat * (29000000 / rttUs.toNatClampNeg) := by
  refine ⟨Paced.exact, fun hexact => ⟨hexact, ?_⟩⟩
  have hpos : 0 < rttUs.toNatClampNeg := by
    rw [Int32.lt_iff_toInt_lt] at h
    have hpos : (0 : Int) < rttUs.toInt := by simpa using h
    show 0 < rttUs.toInt.toNat
    omega
  have hrtt : rttUs.toNatClampNeg ≤ 14500000 := by
    rw [Int32.le_iff_toInt_le] at hle
    have hle' : rttUs.toInt ≤ 14500000 := hle
    show rttUs.toInt.toNat ≤ 14500000
    omega
  generalize rttUs.toNatClampNeg = rtt at *
  have hquotient : 14500000 ≤ 29000000 / rtt * rtt := by
    have hdivmod := Nat.div_add_mod 29000000 rtt
    have hmod := Nat.mod_lt 29000000 hpos
    rw [Nat.mul_comm] at hdivmod
    omega
  calc window.toNat * 1448 * 10 ^ 6 ≤ 100 * window.toNat * 14500000 := by omega
    _ ≤ 100 * window.toNat * (29000000 / rtt * rtt) := Nat.mul_le_mul_left _ hquotient
    _ = rate.toNat * rtt := by rw [hexact, Nat.mul_assoc (100 * window.toNat)]

/-- The product that fits is the rate, and no other product is. -/
theorem paced_product_iff (window : UInt32) {rttUs : Int32} (h : 0 < rttUs) (hle : rttUs ≤ 14500000) :
    Paced ((window * 100) * (29000000 / rttUs).toUInt32) window rttUs ↔
      100 * window.toNat * (29000000 / rttUs.toNatClampNeg) < 2 ^ 32 := by
  rw [paced_iff h hle, toNat_pacingRate window h]
  constructor
  · intro heq
    rw [← heq]
    exact Nat.mod_lt _ (by decide)
  · exact Nat.mod_eq_of_lt

/-! ## The callbacks -/

theorem TcpAbc.abcPktsAcked_paced_iff (s : Sock Abc) {rttUs : Int32} (h : 0 < rttUs) (hle : rttUs ≤ 14500000) :
    Paced (TcpAbc.abcPktsAcked s rttUs).pacingRate (TcpAbc.abcPktsAcked s rttUs).ca.lossCwnd rttUs ↔
      100 * s.ca.lossCwnd.toNat * (29000000 / rttUs.toNatClampNeg) < 2 ^ 32 := by
  unfold TcpAbc.abcPktsAcked
  rw [if_pos h]
  exact paced_product_iff s.ca.lossCwnd h hle

namespace TcpAbcCubic

/-- A sample discarded as right after fast recovery. -/
def Discards (k : Kernel) (j : Nat → UInt32) (s : Sock Bictcp) : Prop :=
  s.ca.epochStart ≠ 0 ∧ s32 (j 0 - s.ca.epochStart) < k.hz.toNat

theorem bictcpAcked_discards {k : Kernel} {j : Nat → UInt32} {s : Sock Bictcp} (hd : Discards k j s) (clock : UInt32)
    (rttUs : Int32) : bictcpAcked k j clock s rttUs = s := by
  unfold bictcpAcked
  split
  · rfl
  · exact if_pos hd

/-- A sample that is not discarded ends in `abc_pkts_acked`, at the same window. -/
theorem bictcpAcked_refreshes {k : Kernel} {j : Nat → UInt32} {s : Sock Bictcp} (hd : ¬ Discards k j s) (clock : UInt32)
    {rttUs : Int32} (h : 0 < rttUs) :
    (bictcpAcked k j clock s rttUs).sndCwnd = s.sndCwnd ∧
      (bictcpAcked k j clock s rttUs).pacingRate = (s.sndCwnd * 100) * (29000000 / rttUs).toUInt32 := by
  have hacked : ∀ s : Sock Bictcp, (abcPktsAcked s rttUs).sndCwnd = s.sndCwnd ∧
      (abcPktsAcked s rttUs).pacingRate = (s.sndCwnd * 100) * (29000000 / rttUs).toUInt32 := by
    intro s
    unfold abcPktsAcked
    rw [if_pos h]
    exact ⟨rfl, rfl⟩
  unfold bictcpAcked
  split
  · rename_i hneg
    exact absurd (Int32.lt_trans h hneg) Int32.lt_irrefl
  · split
    · rename_i hd'
      exact absurd hd' hd
    · dsimp only
      split
      · obtain ⟨_, _, _, _, _, heq, -⟩ := hystartUpdate_eq _ clock _
        rw [heq]
        exact hacked _
      · exact hacked _

theorem bictcpAcked_paced_iff (k : Kernel) (j : Nat → UInt32) (clock : UInt32) (s : Sock Bictcp) {rttUs : Int32}
    (h : 0 < rttUs) (hle : rttUs ≤ 14500000) :
    Paced (bictcpAcked k j clock s rttUs).pacingRate (bictcpAcked k j clock s rttUs).sndCwnd rttUs ↔
      100 * s.sndCwnd.toNat * (29000000 / rttUs.toNatClampNeg) < 2 ^ 32 ∧
        (Discards k j s → s.pacingRate.toNat = 100 * s.sndCwnd.toNat * (29000000 / rttUs.toNatClampNeg)) := by
  by_cases hd : Discards k j s
  · rw [bictcpAcked_discards hd, paced_iff h hle]
    refine ⟨fun heq => ⟨?_, fun _ => heq⟩, fun hboth => hboth.2 hd⟩
    rw [← heq]
    exact s.pacingRate.toNat_lt
  · obtain ⟨hwindow, hrate⟩ := bictcpAcked_refreshes hd clock h
    rw [hwindow, hrate, paced_product_iff s.sndCwnd h hle]
    exact ⟨fun hfit => ⟨hfit, fun hd' => absurd hd' hd⟩, fun hboth => hboth.1⟩

end TcpAbcCubic

/-! ## Over runs -/

/-- The sender's callbacks of tcp_abc.c. -/
inductive TcpAbc.Callback where
  | inAck (a : TcpAbc.AckEvent)
  | congControl
  | pktsAcked (rttUs : Int32)

def TcpAbc.callback (s : Sock Abc) : TcpAbc.Callback → Except Empty (Unit × Sock Abc)
  | .inAck a => pure ((), TcpAbc.abcInAck (TcpAbc.arrive s a) a.flags)
  -- `abc_cong_control` returns at once
  | .congControl => pure ((), s)
  | .pktsAcked rttUs => pure ((), TcpAbc.abcPktsAcked s rttUs)

/-- The rate of a window that fits in 32 bits. -/
def RateFits (window : UInt32) (rttUs : Int32) : Prop := 100 * window.toNat * (29000000 / rttUs.toNatClampNeg) < 2 ^ 32

/-- In every run of either module from its init, after each sample of an RTT up to 14.5 seconds: the rate is
refreshed, not truncated and no slower than the window in an RTT exactly when it fits in 32 bits and, in
abccubic, the sample is not discarded or the rate in force already was that one. -/
theorem pacing_iff (s₀ : Sock Abc) (cs : List TcpAbc.Callback) (k : TcpAbcCubic.Kernel) (t₀ : Sock TcpAbcCubic.Bictcp)
    (clock : UInt32) (es : List TcpAbcCubic.Event) :
    Run.Along TcpAbc.callback
      (fun s c => ∀ rttUs o s', c = .pktsAcked rttUs → 0 < rttUs → rttUs ≤ 14500000 → TcpAbc.callback s c = .ok (o, s') →
        (Paced s'.pacingRate s'.ca.lossCwnd rttUs ↔ RateFits s.ca.lossCwnd rttUs)) (TcpAbc.abcInit s₀) cs ∧
    Run.Along (TcpAbcCubic.step k)
      (fun s e => ∀ rttUs d s', e.callback = .pktsAcked rttUs → 0 < rttUs → rttUs ≤ 14500000 →
        TcpAbcCubic.step k s e = .ok (d, s') →
        (Paced s'.pacingRate s'.sndCwnd rttUs ↔ RateFits e.writes.sndCwnd rttUs ∧
          (TcpAbcCubic.Discards k e.jiffies s →
            s.pacingRate.toNat = 100 * e.writes.sndCwnd.toNat * (29000000 / rttUs.toNatClampNeg))))
      (TcpAbcCubic.bictcpInit t₀ clock) es := by
  refine ⟨Run.along_of_forall (fun s c _ rttUs o s' hc h hle hs => ?_) _,
    Run.along_of_forall (fun s e _ rttUs d s' hc h hle hs => ?_) _⟩
  · subst hc
    cases hs
    exact TcpAbc.abcPktsAcked_paced_iff s h hle
  · unfold TcpAbcCubic.step at hs
    obtain ⟨s₁, h₁, hs⟩ := Run.bind_ok hs
    cases hs
    unfold TcpAbcCubic.handle at h₁
    rw [hc] at h₁
    cases h₁
    exact TcpAbcCubic.bictcpAcked_paced_iff k e.jiffies e.clock (e.writes.apply s) h hle

/-- A window of 1000 at an RTT of half a millisecond, whose rate does not fit; and a sample that abccubic
discards at a window of ten, with the rate still zero. -/
theorem pacing_truncated :
    (TcpAbc.abcInit (.established default 1000)).ca.lossCwnd.toNat < 10 ^ 6 ∧
    ¬ (TcpAbc.abcInit (.established default 1000)).ca.lossCwnd.toNat * 1448 * 10 ^ 6 ≤
      (TcpAbc.abcPktsAcked (TcpAbc.abcInit (.established default 1000)) 500).pacingRate.toNat * 500 ∧
    ∃ ds s', Run.steps (TcpAbcCubic.step .hz1000) (TcpAbcCubic.bictcpInit (.established default 10) 0)
        [⟨{ TcpAbcCubic.KernelWrites.flying 10 with sndSsthresh := some 2 }, .congAvoid 1, fun _ => 1, 1⟩,
          ⟨.flying 10, .pktsAcked 100000, fun _ => 2, 2⟩] = .ok (ds, s') ∧
      s'.sndCwnd.toNat < 10 ^ 6 ∧ ¬ s'.sndCwnd.toNat * 1448 * 10 ^ 6 ≤ s'.pacingRate.toNat * 100000 :=
  ⟨by decide, by decide, _, _, rfl, by decide, by decide⟩

end AbcMahimahi.Tcp
