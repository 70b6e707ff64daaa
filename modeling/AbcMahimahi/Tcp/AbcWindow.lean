/-
The window of tcp_abc.c over whole runs of ACKs. Every ACK that is counted is paid into the additive
increase, and every packet of increase takes one window of them out; the bytes counted are the bytes
that `snd_una` has moved on; the window does not fall below six, or its first value. A brake takes all
the segments of its ACK off the window, or nothing.
-/
import AbcMahimahi.Lib.Run
import AbcMahimahi.Tcp.Abc
import AbcMahimahi.Tcp.CountAck

namespace AbcMahimahi.Tcp.TcpAbc

open Abc Word

/-! ## Runs of ACKs -/

/-- An ACK: how far it moves `snd_una`, its flags, and the MSS that the kernel then has on record. -/
structure AckEvent where
  advance : UInt32
  flags : UInt32
  rcvMss : UInt16

/-- What the module counts an ACK for (nothing: it is not counted), and the window before its additive
increase, if it makes one. -/
structure Counted where
  ackedBytes : UInt32
  increase : Option UInt32
  deriving DecidableEq

/-- The kernel takes the ACK in. -/
def arrive (s : Sock Abc) (a : AckEvent) : Sock Abc := { s with sndUna := s.sndUna + a.advance, rcvMss := a.rcvMss }

def ackStep (s : Sock Abc) (a : AckEvent) : Except Empty (Counted × Sock Abc) :=
  let s := arrive s a
  let ackedBytes := s.ackedBytes a.flags
  let increase := if ackedBytes ≠ 0 ∧ s.ca.aiCwnd + 1 > s.ca.lossCwnd then some s.ca.lossCwnd else none
  pure (⟨ackedBytes, increase⟩, abcInAck s a.flags)

/-- The bytes of an ACK that advances. -/
def advanced (a : AckEvent) (c : Counted) : Nat := if a.advance ≠ 0 then c.ackedBytes.toNat else 0

/-- The full segments of an ACK. -/
def Counted.segs (c : Counted) : Nat := c.ackedBytes.toNat / 1448

/-- The packets of window that an additive increase takes. -/
def Counted.spent (c : Counted) : Nat := (c.increase.map UInt32.toNat).getD 0

/-- What one ACK does to a module that has seen `snd_una`. -/
structure Accounted (s : Sock Abc) (a : AckEvent) (c : Counted) (s' : Sock Abc) : Prop where
  seen : s'.ca.priorSndUna = s'.sndUna
  low : min s.ca.lossCwnd.toNat 6 ≤ s'.ca.lossCwnd.toNat
  high : s'.ca.lossCwnd.toNat ≤ s.ca.lossCwnd.toNat + (c.segs + 1)
  bytes : advanced a c = a.advance.toNat
  ai : s.ca.aiCwnd.toNat + (if c.ackedBytes ≠ 0 then 1 else 0) = s'.ca.aiCwnd.toNat + c.spent

/-- The bytes counted are the advance, or not an advance. -/
theorem ackedBytes_arrive {s : Sock Abc} (h : s.ca.priorSndUna = s.sndUna) (a : AckEvent) :
    (arrive s a).ackedBytes a.flags =
      if a.advance = 0 ∧ a.flags &&& caAckWinUpdate = 0 then a.rcvMss.toUInt32 else a.advance := by
  have hadvance : (arrive s a).sndUna - (arrive s a).abc.priorSndUna = a.advance := by
    show s.sndUna + a.advance - s.ca.priorSndUna = a.advance
    rw [h, UInt32.add_comm, UInt32.add_sub_cancel]
  unfold Sock.ackedBytes
  dsimp only
  rw [hadvance]
  rfl

/-- An ACK that is not counted changes nothing but what the kernel has written. -/
theorem ackStep_uncounted {s s' : Sock Abc} {a : AckEvent} {c : Counted} (hs : ackStep s a = .ok (c, s'))
    (hc : c.ackedBytes = 0) : s' = arrive s a ∧ c.increase = none := by
  cases hs
  have hzero : ¬ (arrive s a).ackedBytes a.flags ≠ 0 := not_not.2 hc
  unfold abcInAck
  dsimp only
  rw [if_neg hzero, if_neg (fun h => hzero h.1)]
  exact ⟨rfl, rfl⟩

/-- An ACK that is counted. -/
theorem ackStep_counted {s s' : Sock Abc} {a : AckEvent} {c : Counted} (hs : ackStep s a = .ok (c, s'))
    (hc : c.ackedBytes ≠ 0) :
    s'.ca.priorSndUna = s'.sndUna ∧
      s'.ca.lossCwnd = (s.ca.countAck c.ackedBytes (a.flags &&& caAckEce != 0)).lossCwnd ∧
      s'.ca.aiCwnd = s.ca.increased.aiCwnd ∧
      c.increase = if s.ca.aiCwnd + 1 > s.ca.lossCwnd then some s.ca.lossCwnd else none := by
  cases hs
  have hcounted : (arrive s a).ackedBytes a.flags ≠ 0 := hc
  have hstart : (arrive s a).ca = s.ca := rfl
  unfold abcInAck
  dsimp only
  rw [if_pos hcounted, hstart]
  refine ⟨rfl, rfl, ?_, ?_⟩
  · rw [countAck_eq]
    exact settled_aiCwnd _ _ _
  · by_cases hcarry : s.ca.aiCwnd + 1 > s.ca.lossCwnd
    · rw [if_pos hcarry, if_pos ⟨hcounted, hcarry⟩]
    · rw [if_neg hcarry, if_neg (fun h => hcarry h.2)]

theorem ackStep_accounted {s s' : Sock Abc} {a : AckEvent} {c : Counted} (h : s.ca.priorSndUna = s.sndUna)
    (hs : ackStep s a = .ok (c, s')) (hfit : s.ca.lossCwnd.toNat + (c.segs + 1) < 2 ^ 32)
    (hai : s.ca.aiCwnd.toNat + 1 < 2 ^ 32) : Accounted s a c s' := by
  have hbytes : c.ackedBytes =
      if a.advance = 0 ∧ a.flags &&& caAckWinUpdate = 0 then a.rcvMss.toUInt32 else a.advance := by
    rw [← ackedBytes_arrive h a]
    cases hs
    rfl
  -- a duplicate ACK is worth a segment, but moves `snd_una` by nothing
  have hpaid : advanced a c = a.advance.toNat := by
    unfold advanced
    by_cases hzero : a.advance = 0
    · rw [if_neg (not_not.2 hzero), hzero]
      rfl
    · rw [if_pos hzero, hbytes, if_neg (fun hdup => hzero hdup.1)]
  by_cases hc : c.ackedBytes = 0
  -- nothing counted, so nothing acknowledged
  · obtain ⟨rfl, hinc⟩ := ackStep_uncounted hs hc
    have hstill : a.advance = 0 := by
      by_contra hne
      rw [hbytes, if_neg (fun hdup => hne hdup.1)] at hc
      exact hne hc
    refine ⟨?_, min_le_left _ _, Nat.le_add_right _ _, hpaid, ?_⟩
    · show s.ca.priorSndUna = s.sndUna + a.advance
      rw [hstill, h, UInt32.add_zero]
    · unfold Counted.spent
      rw [if_neg (not_not.2 hc), hinc]
      rfl
  · obtain ⟨hseen, hloss, hai', hinc⟩ := ackStep_counted hs hc
    obtain ⟨hlow, hhigh⟩ := countAck_window (a.flags &&& caAckEce != 0) hfit
    refine ⟨hseen, by rw [hloss]; exact hlow, by rw [hloss]; exact hhigh, hpaid, ?_⟩
    unfold Counted.spent
    rw [if_pos hc, hinc, hai']
    -- a carry of the additive increase is paid with a window of ACKs
    rcases increased_cases hai (by omega) with ⟨hcarry, -, -, hai₁⟩ | ⟨hcarry, hlt, -, hai₁⟩
    · rw [if_neg hcarry, hai₁]
      rfl
    · rw [if_pos hcarry, hai₁]
      show _ = _ + s.ca.lossCwnd.toNat
      omega

/-- The account of a run, from a module that has seen `snd_una`. -/
theorem run_accounted : ∀ {acks : List AckEvent} {s s' : Sock Abc} {outs : List Counted},
    s.ca.priorSndUna = s.sndUna → Run.steps ackStep s acks = .ok (outs, s') →
    s.ca.lossCwnd.toNat + (outs.map Counted.segs).sum + acks.length < 2 ^ 32 →
    s.ca.aiCwnd.toNat + acks.length < 2 ^ 32 →
    min s.ca.lossCwnd.toNat 6 ≤ s'.ca.lossCwnd.toNat ∧
      (List.zipWith advanced acks outs).sum = (acks.map fun a => a.advance.toNat).sum ∧
      s.ca.aiCwnd.toNat + outs.countP (·.ackedBytes ≠ 0) = s'.ca.aiCwnd.toNat + (outs.map Counted.spent).sum
  | [], s, s', outs, _, hrun, _, _ => by
    cases hrun
    exact ⟨min_le_left _ _, rfl, rfl⟩
  | a :: acks, s, s', outs, h, hrun, hfit, hai => by
    obtain ⟨c, s₁, outs', hs, hrest, rfl⟩ := Run.steps_cons_ok hrun
    simp only [List.map_cons, List.sum_cons, List.length_cons] at hfit hai
    have hstep := ackStep_accounted h hs (by omega) (by omega)
    have hlow := hstep.low
    have hhigh := hstep.high
    have hpaid := hstep.bytes
    have hbalance := hstep.ai
    have hai₁ : s₁.ca.aiCwnd.toNat ≤ s.ca.aiCwnd.toNat + 1 := by
      split at hbalance <;> omega
    obtain ⟨hlow', hbytes', hbalance'⟩ := run_accounted hstep.seen hrest (by omega) (by omega)
    refine ⟨by omega, ?_, ?_⟩
    · rw [List.zipWith_cons_cons, List.sum_cons, hbytes', hpaid, List.map_cons, List.sum_cons]
    · rw [List.countP_cons, List.map_cons, List.sum_cons]
      simp only [decide_eq_true_eq]
      omega

/-- After `abc_init` on an ECN-capable or unconnected socket, over every sequence of ACKs whose segments
fit in a word with the first window and the ACKs themselves: the window is at least six or its first
value; the bytes counted for the ACKs that advance are the advance of `snd_una`; and the ACKs counted are
the counter and, for each packet of additive increase, the window it was made from. -/
theorem abc_window_accounting {s s' : Sock Abc} {acks : List AckEvent} {outs : List Counted}
    (hinit : s.ecnFlags &&& tcpEcnOk ≠ 0 ∨ s.skState = .listen ∨ s.skState = .close)
    (hrun : Run.steps ackStep (TcpAbc.abcInit s) acks = .ok (outs, s'))
    (hfit : s.sndCwnd.toNat + (outs.map fun c => c.ackedBytes.toNat / 1448).sum + acks.length < 2 ^ 32) :
    min s.sndCwnd.toNat 6 ≤ s'.ca.lossCwnd.toNat ∧
      (List.zipWith advanced acks outs).sum = (acks.map fun a => a.advance.toNat).sum ∧
      outs.countP (·.ackedBytes ≠ 0) =
        s'.ca.aiCwnd.toNat + ((outs.filterMap (·.increase)).map UInt32.toNat).sum := by
  have hstart : (TcpAbc.abcInit s).ca =
      { priorSndUna := s.sndUna, priorRcvNxt := s.rcvNxt, delayedAckReserved := 0, lossCwnd := s.sndCwnd,
        ceState := 0, aiCwnd := 0 } := by
    unfold TcpAbc.abcInit Sock.abcInit
    rw [if_pos hinit]
    rfl
  have huna : (TcpAbc.abcInit s).sndUna = s.sndUna := by
    unfold TcpAbc.abcInit Sock.abcInit
    rw [if_pos hinit]
    rfl
  -- what is spent on no increase is nothing
  have hspent : ∀ outs : List Counted,
      (outs.map Counted.spent).sum = ((outs.filterMap (·.increase)).map UInt32.toNat).sum := by
    intro outs
    induction outs with
    | nil => rfl
    | cons c outs ih =>
      rw [List.map_cons, List.sum_cons, ih, List.filterMap_cons]
      unfold Counted.spent
      cases c.increase with
      | none => exact Nat.zero_add _
      | some w => rfl
  obtain ⟨hlow, hbytes, hbalance⟩ := run_accounted (by rw [hstart, huna]) hrun (by rw [hstart]; exact hfit)
    (by rw [hstart]; simp only [UInt32.toNat_zero]; omega)
  rw [hstart] at hlow hbalance
  rw [hspent] at hbalance
  refine ⟨hlow, hbytes, ?_⟩
  rw [← hbalance]
  exact (Nat.zero_add _).symm

/-- Over the top of the sequence numbers, a window update, a marked duplicate and a marked stretch ACK. -/
theorem abc_window_accounting_small : ∃ outs s',
    Run.steps ackStep (TcpAbc.abcInit { Sock.established (default : Abc) 10 with sndUna := 0xffffff00 })
      [⟨14480, 0, 1448⟩, ⟨0, caAckWinUpdate, 1448⟩, ⟨0, caAckEce, 1448⟩, ⟨4344, caAckEce, 1448⟩] = .ok (outs, s') ∧
    min (10 : UInt32).toNat 6 ≤ s'.ca.lossCwnd.toNat ∧
    (List.zipWith advanced [⟨14480, 0, 1448⟩, ⟨0, caAckWinUpdate, 1448⟩, ⟨0, caAckEce, 1448⟩, ⟨4344, caAckEce, 1448⟩]
      outs).sum = 14480 + (0 + (0 + (4344 + 0))) ∧
    outs.countP (·.ackedBytes ≠ 0) = s'.ca.aiCwnd.toNat + ((outs.filterMap (·.increase)).map UInt32.toNat).sum := by
  refine ⟨_, _, rfl, ?_⟩
  exact abc_window_accounting (s := { Sock.established (default : Abc) 10 with sndUna := 0xffffff00 })
    (Or.inl (by decide)) rfl (by decide)

/-! ## The brake -/

/-- On a marked ACK of `k` full segments, whatever the state: with `w` the window after the additive
increase, the new window is `w - k` when `w` is above `5 + k`, and still `w` otherwise. So it is down by
`k` or at the floor exactly when `w` is above `5 + k` or no more than six. -/
theorem brake_all_or_nothing {s : Sock Abc} {flags : UInt32} {w k : Nat} (hece : flags &&& caAckEce ≠ 0)
    (hk : (s.ackedBytes flags).toNat / 1448 = k) (hpos : 1 ≤ k) (hw : s.ca.increased.lossCwnd.toNat = w) :
    (abcInAck s flags).ca.lossCwnd.toNat = (if 5 + k < w then w - k else w) ∧
      ((abcInAck s flags).ca.lossCwnd.toNat ≤ max 6 (w - k) ↔ 5 + k < w ∨ w ≤ 6) := by
  have hcounted : s.ackedBytes flags ≠ 0 := by
    intro h0
    rw [h0] at hk
    simp only [UInt32.toNat_zero] at hk
    omega
  have hflag : (flags &&& caAckEce != 0) = true := bne_iff_ne.2 hece
  have hloss : (abcInAck s flags).ca.lossCwnd.toNat = if 5 + k < w then w - k else w := by
    unfold abcInAck
    dsimp only
    rw [if_pos hcounted, hflag, countAck_eq]
    show (s.ca.increased.settled (s.ackedBytes flags / 1448) true).lossCwnd.toNat = _
    rw [settled_brake, hk, hw]
    rfl
  refine ⟨hloss, ?_⟩
  rw [hloss]
  constructor
  · intro h
    split at h <;> omega
  · intro h
    split <;> omega

theorem brake_all_or_nothing_small :
    (abcInAck (arrive (TcpAbc.abcInit (.established default 20)) ⟨2896, caAckEce, 1448⟩) caAckEce).ca.lossCwnd.toNat =
        (if 5 + 2 < 20 then 20 - 2 else 20) ∧
      ((abcInAck (arrive (TcpAbc.abcInit (.established default 20)) ⟨2896, caAckEce, 1448⟩)
          caAckEce).ca.lossCwnd.toNat ≤
        max 6 (20 - 2) ↔ 5 + 2 < 20 ∨ 20 ≤ 6) :=
  brake_all_or_nothing (by decide) (by decide) (by decide) (by decide)

/-- A window of eight stays at eight under a marked ACK of four segments. -/
theorem brake_not_applied :
    6 < (TcpAbc.abcInit (.established default 8)).ca.lossCwnd.toNat ∧
      (arrive (TcpAbc.abcInit (.established default 8)) ⟨5792, caAckEce, 1448⟩).ackedBytes caAckEce / 1448 = 4 ∧
      (arrive (TcpAbc.abcInit (.established default 8)) ⟨5792, caAckEce, 1448⟩).ca.increased.lossCwnd = 8 ∧
      max 6 (8 - 4) <
        (abcInAck (arrive (TcpAbc.abcInit (.established default 8)) ⟨5792, caAckEce, 1448⟩)
          caAckEce).ca.lossCwnd.toNat := by
  decide

end AbcMahimahi.Tcp.TcpAbc
