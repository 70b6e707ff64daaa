/-
The rounds of HyStart. A call of `bictcp_cong_avoid` in slow start begins a round when zero is after the
`end_seq` of the last one, since the acknowledged position is not handed to it; the round ends
when `snd_una` is. So the rounds follow the acknowledged data only while the two agree.
-/
import AbcMahimahi.Tcp.CubicGrowth

namespace AbcMahimahi.Tcp.TcpAbcCubic

/-- The per-round state. -/
structure Round where
  roundStart : UInt32
  endSeq : UInt32
  currRtt : UInt32
  sampleCnt : UInt8
  deriving DecidableEq

def Bictcp.round (ca : Bictcp) : Round := ⟨ca.roundStart, ca.endSeq, ca.currRtt, ca.sampleCnt⟩

/-- A round that begins with the next packet to send. -/
def beginRound (s : Sock Bictcp) (clock : UInt32) : Round := ⟨clock, s.sndNxt, 0, 0⟩

/-! ## The update leaves the round alone -/

theorem updateWindow_round {k : Kernel} {j : Nat → UInt32} {s s' : Sock Bictcp} {acked : UInt32}
    (h : updateWindow k j s acked = .ok s') : s'.ca.round = s.ca.round := by
  unfold updateWindow at h
  obtain ⟨ca, hu, h⟩ := Run.bind_ok h
  obtain ⟨s₁, ha, h⟩ := Run.bind_ok h
  cases h
  obtain ⟨_, _, _, _, _, _, _, _, rfl, -⟩ := bictcpUpdate_eq hu
  obtain ⟨credit, cubic, rfl⟩ := congAvoidAi_eq ha
  rfl

/-! ## Calls and samples -/

/-- Zero is after the upper half of the sequence numbers. -/
theorem after_zero_iff (seq : UInt32) : after 0 seq = true ↔ 2 ^ 31 ≤ seq.toNat := by
  have hsub : seq - 0 = seq := by simp
  unfold after s32
  rw [hsub, decide_eq_true_eq]
  show seq.toBitVec.toInt < 0 ↔ 2 ^ 31 ≤ seq.toBitVec.toNat
  rw [BitVec.toInt_eq_toNat_cond]
  have hlt := seq.toBitVec.isLt
  split <;> omega

theorem slowStartPhase_round (clock : UInt32) (s : Sock Bictcp) (acked : UInt32) :
    (slowStartPhase clock s acked).2.ca.round = if after 0 s.ca.endSeq then beginRound s clock else s.ca.round := by
  unfold slowStartPhase
  simp only [show hystart = true from rfl, true_and]
  split <;> rfl

/-- A limited call in slow start begins a round when `end_seq` is in the upper half, and not otherwise. -/
theorem congAvoid_round {k : Kernel} {j : Nat → UInt32} {clock acked : UInt32} {s s' : Sock Bictcp}
    (hlimited : cubictcpIsCwndLimited s = true) (hslow : cubictcpInSlowStart s = true)
    (h : bictcpCongAvoid k j clock s acked = .ok s') :
    s'.ca.round = if after 0 s.ca.endSeq then beginRound s clock else s.ca.round := by
  rcases congAvoid_cases h with ⟨hl, -⟩ | ⟨-, -, -, rfl⟩ | ⟨-, -, -, h⟩ | ⟨-, hs, -⟩
  · exact absurd (hl.symm.trans hlimited) (by decide)
  · exact slowStartPhase_round clock s acked
  · rw [updateWindow_round h, slowStartPhase_round]
  · exact absurd (hs.symm.trans hslow) (by decide)

/-- A round begins in a call exactly when `snd_una` is after the `end_seq` of the last one. -/
def FollowsAcks (s s' : Sock Bictcp) (clock : UInt32) : Prop :=
  s'.ca.round = if after s.sndUna s.ca.endSeq then beginRound s clock else s.ca.round

/-- Calls agree with the acknowledged data when zero and `snd_una` are on the same side of `end_seq`, or when
a new round would be the same as the old one. -/
theorem followsAcks_iff {k : Kernel} {j : Nat → UInt32} {clock acked : UInt32} {s s' : Sock Bictcp}
    (hlimited : cubictcpIsCwndLimited s = true) (hslow : cubictcpInSlowStart s = true)
    (h : bictcpCongAvoid k j clock s acked = .ok s') :
    FollowsAcks s s' clock ↔
      (2 ^ 31 ≤ s.ca.endSeq.toNat ↔ after s.sndUna s.ca.endSeq = true) ∨ beginRound s clock = s.ca.round := by
  unfold FollowsAcks
  rw [congAvoid_round hlimited hslow h, ← after_zero_iff]
  cases after 0 s.ca.endSeq <;> cases after s.sndUna s.ca.endSeq <;> simp [eq_comm]

/-! ## Over runs -/

/-- In every run from the module's init: a limited call in slow start begins a round exactly when `snd_una` is
after `end_seq`, just when that is as good as `end_seq` being in the upper half of the sequence numbers, or
the round would be the same; and a sample leaves `round_start` and `end_seq` alone. -/
theorem rounds_follow_acks_iff (k : Kernel) (s₀ : Sock Bictcp) (clock : UInt32) (es : List Event) :
    Run.Along (step k) (fun s e => ∀ d s', step k s e = .ok (d, s') →
      (∀ acked, e.callback = .congAvoid acked → cubictcpIsCwndLimited d.before = true →
        cubictcpInSlowStart d.before = true →
        (FollowsAcks d.before s' e.clock ↔
          (2 ^ 31 ≤ s.ca.endSeq.toNat ↔ after e.writes.sndUna s.ca.endSeq = true) ∨
            beginRound d.before e.clock = s.ca.round)) ∧
      (∀ rttUs, e.callback = .pktsAcked rttUs →
        s'.ca.roundStart = s.ca.roundStart ∧ s'.ca.endSeq = s.ca.endSeq)) (bictcpInit s₀ clock) es := by
  refine Run.along_of_forall (fun s e _ d s' hs => ?_) _
  unfold step at hs
  obtain ⟨s₁, h₁, hs⟩ := Run.bind_ok hs
  cases hs
  unfold handle at h₁
  constructor
  · intro acked hc hlimited hslow
    rw [hc] at h₁
    exact followsAcks_iff hlimited hslow h₁
  · intro rttUs hc
    rw [hc] at h₁
    cases h₁
    obtain ⟨_, _, _, _, _, _, _, heq, -⟩ := bictcpAcked_eq k e.jiffies e.clock (e.writes.apply s) rttUs
    rw [heq]
    exact ⟨rfl, rfl⟩

/-- With `end_seq` at 1000, a call at `snd_una` 2000 begins no round; with `end_seq` in the upper half, one at a
`snd_una` before it begins one. -/
theorem rounds_off :
    (∃ ds s', Run.steps (step .hz1000) (bictcpInit { Sock.established (default : Bictcp) 10 with sndNxt := 1000 } 0)
        [⟨{ KernelWrites.flying 10 with sndUna := 2000, sndNxt := 3000 }, .congAvoid 1, fun _ => 1, 1⟩] = .ok (ds, s') ∧
      after 2000 1000 = true ∧ s'.ca.round = ⟨0, 1000, 0, 0⟩) ∧
    ∃ ds s', Run.steps (step .hz1000) (bictcpInit { Sock.established (default : Bictcp) 10 with sndNxt := 0x90000000 } 0)
        [⟨{ KernelWrites.flying 10 with sndUna := 0x8fffff00, sndNxt := 0x90001000 }, .congAvoid 1, fun _ => 1, 1⟩] =
          .ok (ds, s') ∧
      after 0x8fffff00 0x90000000 = false ∧ s'.ca.round = ⟨1, 0x90001000, 0, 0⟩ :=
  ⟨⟨_, _, rfl, by decide, by decide⟩, ⟨_, _, rfl, by decide, by decide⟩⟩

end AbcMahimahi.Tcp.TcpAbcCubic
