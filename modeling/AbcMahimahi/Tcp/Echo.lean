/-
The receiver echoes marks exactly. The kernel hands the module each in-order segment and decides
whether to acknowledge at once or later; the trace of what is received and what is acknowledged
is checked against `Echo`, which counts the bytes of the stream without wrap-around: every ACK
newly acknowledges only bytes whose CE mark is its ECE bit, and none goes back.

The invariant is that the bytes not yet acknowledged all carry the mark of the current CE state,
which is also the ECE flag, and that there are none unless a delayed ACK is reserved.
-/
import AbcMahimahi.Tcp.Abc
import AbcMahimahi.Tcp.Cubic

namespace AbcMahimahi.Tcp

/-! ## The kernel's receive path -/

/-- What the receiver meets: a data segment, acknowledged at once or delayed, or the moment a
pending ACK is sent. -/
inductive RxEvent where
  | segment (len : UInt32) (ce delayed : Bool)
  | sendAck
  deriving DecidableEq, Repr

/-- What can be seen of the receiver: bytes received with their mark, ACKs sent. -/
inductive Obs where
  | recv (len : Nat) (ce : Bool)
  | ack (num : UInt32) (ece : Bool)
  deriving DecidableEq, Repr

section

variable {CA : Type} [AbcFields CA] (cwndEvent : Sock CA → CaEvent → Sock CA)

/-- A segment advances `rcv_nxt`, then raises its ECN event; then its ACK is sent or delayed. -/
def rx (s : Sock CA) : RxEvent → Sock CA
  | .segment len ce delayed =>
    let s := cwndEvent { s with rcvNxt := s.rcvNxt + len } (if ce then .ecnIsCe else .ecnNoCe)
    if delayed then cwndEvent s .delayedAck else s.tcpSendAck
  | .sendAck => s.tcpSendAck

def rxObs (s : Sock CA) (ev : RxEvent) : List Obs :=
  (match ev with
    | .segment len ce _ => [.recv len.toNat ce]
    | .sendAck => []) ++
    ((rx cwndEvent s ev).acks.drop s.acks.length).map fun a => .ack a.1 a.2

/-- Everything seen while the events are handled. -/
def rxTrace : Sock CA → List RxEvent → List Obs
  | _, [] => []
  | s, ev :: evs => rxObs cwndEvent s ev ++ rxTrace (rx cwndEvent s ev) evs

end

/-- An exact echo: `recvd` are the marks of the bytes received, `acked` how many of them are
acknowledged. An ACK carries the position it acknowledges up to modulo `2 ^ 32`, never one before
the last or past the received bytes, and the bytes it newly acknowledges all carry its ECE bit. -/
inductive Echo (isn : UInt32) : List Bool → Nat → List Obs → List Bool → Nat → Prop where
  | nil (recvd : List Bool) (acked : Nat) : Echo isn recvd acked [] recvd acked
  | recv {recvd recvd' : List Bool} {acked acked' len : Nat} {ce : Bool} {rest : List Obs}
      (h : Echo isn (recvd ++ List.replicate len ce) acked rest recvd' acked') :
      Echo isn recvd acked (.recv len ce :: rest) recvd' acked'
  | ack {recvd recvd' : List Bool} {acked acked' p : Nat} {num : UInt32} {ece : Bool} {rest : List Obs}
      (forward : acked ≤ p) (received : p ≤ recvd.length) (number : num = isn + UInt32.ofNat p)
      (exact : ∀ m ∈ (recvd.take p).drop acked, m = ece)
      (h : Echo isn recvd p rest recvd' acked') :
      Echo isn recvd acked (.ack num ece :: rest) recvd' acked'

theorem Echo.trans {isn : UInt32} {r₁ r₂ r₃ : List Bool} {a₁ a₂ a₃ : Nat} {xs ys : List Obs}
    (h : Echo isn r₁ a₁ xs r₂ a₂) (h' : Echo isn r₂ a₂ ys r₃ a₃) : Echo isn r₁ a₁ (xs ++ ys) r₃ a₃ := by
  induction h with
  | nil => exact h'
  | recv _ ih => exact .recv (ih h')
  | ack f r n e _ ih => exact .ack f r n e (ih h')

/-! ## What the handlers do -/

section

variable {CA : Type} [AbcFields CA]

theorem and_demand_or (f : UInt8) : (f ||| tcpEcnDemandCwr) &&& tcpEcnDemandCwr ≠ 0 := by
  intro h
  have h2 := congrArg (fun x : UInt8 => x.toBitVec.getLsbD 2) h
  simp [tcpEcnDemandCwr] at h2

theorem and_demand_andNot (f : UInt8) : (f &&& ~~~tcpEcnDemandCwr) &&& tcpEcnDemandCwr = 0 := by
  rw [UInt8.and_assoc]; simp [tcpEcnDemandCwr]

@[simp] theorem abc_tcpSendAck (s : Sock CA) : s.tcpSendAck.abc = { s.abc with delayedAckReserved := 0 } := by
  unfold Sock.tcpSendAck Sock.abcUpdateAckReserved
  simp only
  split
  · rw [Sock.abc_setAbc]; rfl
  · rename_i h
    have h0 : s.abc.delayedAckReserved = 0 := not_not.1 h
    rw [← h0]; rfl

@[simp] theorem rcvNxt_tcpSendAck (s : Sock CA) : s.tcpSendAck.rcvNxt = s.rcvNxt := by
  unfold Sock.tcpSendAck Sock.abcUpdateAckReserved; simp only; split <;> rfl

@[simp] theorem ecnFlags_tcpSendAck (s : Sock CA) : s.tcpSendAck.ecnFlags = s.ecnFlags := by
  unfold Sock.tcpSendAck Sock.abcUpdateAckReserved; simp only; split <;> rfl

@[simp] theorem acks_tcpSendAck (s : Sock CA) : s.tcpSendAck.acks = s.acks ++ [(s.rcvNxt, s.demandsCwr)] := by
  unfold Sock.tcpSendAck Sock.abcUpdateAckReserved; simp only; split <;> rfl

/-- What a CE event handler does: if the CE state flips under a reserved ACK, the ACK for the
bytes before this segment goes out with the old mark; then the state takes the new mark. -/
structure CeSpec (s s' : Sock CA) (ce : Bool) : Prop where
  acks : s'.acks = s.acks ++
    if (s.abc.ceState ≠ 0) ≠ (ce = true) ∧ s.abc.delayedAckReserved ≠ 0 then [(s.abc.priorRcvNxt, !ce)] else []
  rcvNxt : s'.rcvNxt = s.rcvNxt
  prior : s'.abc.priorRcvNxt = s.rcvNxt
  ceState : decide (s'.abc.ceState ≠ 0) = ce
  flag : s'.demandsCwr = ce
  reserved : s'.abc.delayedAckReserved ≠ 0 ↔
    s.abc.delayedAckReserved ≠ 0 ∧ ((s.abc.ceState ≠ 0) ↔ ce = true)

theorem abcCeState0To1_spec (s : Sock CA) : CeSpec s s.abcCeState0To1 true := by
  unfold Sock.abcCeState0To1
  by_cases h : s.abc.ceState = 0 ∧ s.abc.delayedAckReserved ≠ 0
  · rw [if_pos h]
    refine ⟨?_, rfl, by simp, by simp, ?_, ?_⟩
    · simp [h.1, h.2, Sock.demandsCwr, and_demand_andNot]
    · simp only [Sock.demandsCwr, bne_iff_ne]; exact and_demand_or _
    · simp [h.1]
  · rw [if_neg h]
    refine ⟨?_, rfl, by simp, by simp, ?_, ?_⟩
    · simp; tauto
    · simp only [Sock.demandsCwr, bne_iff_ne]; exact and_demand_or _
    · simp; tauto

theorem abcCeState1To0_spec (s : Sock CA) : CeSpec s s.abcCeState1To0 false := by
  unfold Sock.abcCeState1To0
  by_cases h : s.abc.ceState ≠ 0 ∧ s.abc.delayedAckReserved ≠ 0
  · rw [if_pos h]
    refine ⟨?_, rfl, by simp, by simp, ?_, ?_⟩
    · simp [h.1, h.2, Sock.demandsCwr, and_demand_or]
    · simp [Sock.demandsCwr, and_demand_andNot]
    · simp [h.1]
  · rw [if_neg h]
    refine ⟨?_, rfl, by simp, by simp, ?_, ?_⟩
    · simp; tauto
    · simp [Sock.demandsCwr, and_demand_andNot]
    · simp; tauto

/-- The handler of a segment's ECN event. -/
theorem abcCwndEvent_ecn (s : Sock CA) (ce : Bool) :
    CeSpec s (s.abcCwndEvent (if ce then .ecnIsCe else .ecnNoCe)) ce := by
  cases ce
  · exact abcCeState1To0_spec s
  · exact abcCeState0To1_spec s

/-- No handler changes `rcv_nxt`, not even the ones that send an ACK with it rewound. -/
theorem abcCwndEvent_rcvNxt (s : Sock CA) (ev : CaEvent) : (s.abcCwndEvent ev).rcvNxt = s.rcvNxt := by
  have hupd : ∀ ev, (s.abcUpdateAckReserved ev).rcvNxt = s.rcvNxt := by
    intro ev; unfold Sock.abcUpdateAckReserved; split <;> (try split) <;> rfl
  unfold Sock.abcCwndEvent
  split
  · exact (abcCeState0To1_spec s).rcvNxt
  · exact (abcCeState1To0_spec s).rcvNxt
  · exact hupd _
  · exact hupd _
  · rfl

/-- Delaying an ACK reserves it and changes nothing else that the receiver uses. -/
theorem abcCwndEvent_delayed (s : Sock CA) :
    (s.abcCwndEvent .delayedAck).acks = s.acks ∧ (s.abcCwndEvent .delayedAck).rcvNxt = s.rcvNxt ∧
      (s.abcCwndEvent .delayedAck).demandsCwr = s.demandsCwr ∧
      (s.abcCwndEvent .delayedAck).abc.priorRcvNxt = s.abc.priorRcvNxt ∧
      (s.abcCwndEvent .delayedAck).abc.ceState = s.abc.ceState ∧
      (s.abcCwndEvent .delayedAck).abc.delayedAckReserved ≠ 0 := by
  simp only [Sock.abcCwndEvent, Sock.abcUpdateAckReserved]
  split
  · refine ⟨rfl, rfl, rfl, by simp, by simp, by simp⟩
  · rename_i h; exact ⟨rfl, rfl, rfl, rfl, rfl, h⟩

/-! ## The invariant -/

/-- Between two events: the bytes not yet acknowledged all carry the current mark, and there are
none unless an ACK is reserved. -/
structure RxInv (isn : UInt32) (recvd : List Bool) (acked : Nat) (s : Sock CA) : Prop where
  rcvNxt : s.rcvNxt = isn + UInt32.ofNat recvd.length
  prior : s.abc.priorRcvNxt = s.rcvNxt
  le : acked ≤ recvd.length
  flag : s.demandsCwr = decide (s.abc.ceState ≠ 0)
  pending : ∀ m ∈ recvd.drop acked, m = decide (s.abc.ceState ≠ 0)
  done : s.abc.delayedAckReserved = 0 → acked = recvd.length

/-- Sending a pending ACK acknowledges everything received, all of one mark. -/
theorem RxInv.sendAck {isn : UInt32} {recvd : List Bool} {acked : Nat} {s : Sock CA} (h : RxInv isn recvd acked s) :
    Echo isn recvd acked [.ack s.rcvNxt s.demandsCwr] recvd recvd.length ∧
      RxInv isn recvd recvd.length s.tcpSendAck := by
  constructor
  · refine .ack h.le (le_refl _) h.rcvNxt (fun m hm => ?_) (.nil _ _)
    rw [List.take_length] at hm
    rw [h.flag]; exact h.pending m hm
  · refine ⟨by simpa using h.rcvNxt, by simpa using h.prior, le_refl _, ?_, by simp, fun _ => rfl⟩
    have hf : s.tcpSendAck.demandsCwr = s.demandsCwr := by simp [Sock.demandsCwr]
    rw [hf, h.flag]; simp

/-- The handler of a segment's ECN event on a socket whose `rcv_nxt` already counts the segment. -/
theorem RxInv.segment {isn : UInt32} {recvd : List Bool} {acked : Nat} {s s' : Sock CA} {len : UInt32} {ce : Bool}
    (h : RxInv isn recvd acked s) (hs : CeSpec { s with rcvNxt := s.rcvNxt + len } s' ce) :
    ∃ acked', Echo isn (recvd ++ List.replicate len.toNat ce) acked
        ((s'.acks.drop s.acks.length).map fun a => .ack a.1 a.2)
        (recvd ++ List.replicate len.toNat ce) acked' ∧
      s.acks.length ≤ s'.acks.length ∧ (s'.acks.take s.acks.length = s.acks) ∧
      s'.rcvNxt = isn + UInt32.ofNat (recvd ++ List.replicate len.toNat ce).length ∧
      s'.abc.priorRcvNxt = s'.rcvNxt ∧ acked' ≤ (recvd ++ List.replicate len.toNat ce).length ∧
      s'.demandsCwr = decide (s'.abc.ceState ≠ 0) ∧
      ∀ m ∈ (recvd ++ List.replicate len.toNat ce).drop acked', m = decide (s'.abc.ceState ≠ 0) := by
  have habc : Sock.abc { s with rcvNxt := s.rcvNxt + len } = s.abc := rfl
  obtain ⟨hacks, hrcv, hprior, hce, hflag, hres⟩ := hs
  rw [habc] at hacks hres
  simp only at hacks hrcv hprior
  have hlen : (recvd ++ List.replicate len.toNat ce).length = recvd.length + len.toNat := by simp
  have hnew : s'.rcvNxt = isn + UInt32.ofNat (recvd ++ List.replicate len.toNat ce).length := by
    rw [hrcv, h.rcvNxt, hlen, UInt32.ofNat_add, UInt32.ofNat_toNat, UInt32.add_assoc]
  rw [hce]
  by_cases hsw : (s.abc.ceState ≠ 0) ≠ (ce = true) ∧ s.abc.delayedAckReserved ≠ 0
  · -- the old bytes go out under the old mark, which is the opposite of the new one
    rw [if_pos hsw] at hacks
    have hold : decide (s.abc.ceState ≠ 0) = !ce := by
      have := hsw.1
      cases ce <;> by_cases h0 : s.abc.ceState = 0 <;> simp_all
    refine ⟨recvd.length, ?_, by simp [hacks], by simp [hacks], hnew, by rw [hprior, hrcv], by omega, by rw [hflag],
      ?_⟩
    · rw [hacks, List.drop_left]
      refine .ack h.le (by omega) (by rw [h.prior, h.rcvNxt]) (fun m hm => ?_) (.nil _ _)
      rw [List.take_left] at hm
      rw [h.pending m hm, hold]
    · intro m hm
      rw [List.drop_left] at hm
      exact List.eq_of_mem_replicate hm
  · -- either the mark is the same as before, or nothing was pending
    rw [if_neg hsw] at hacks
    refine ⟨acked, ?_, by simp [hacks], by simp [hacks], hnew, by rw [hprior, hrcv], by have := h.le; omega, by rw [hflag],
      ?_⟩
    · rw [hacks]; simpa using Echo.nil (recvd ++ List.replicate len.toNat ce) acked
    · intro m hm
      rw [List.drop_append_of_le_length h.le] at hm
      rcases List.mem_append.1 hm with hm | hm
      · by_cases h0 : s.abc.delayedAckReserved = 0
        · rw [h.done h0, List.drop_length] at hm; cases hm
        · have hsame : (s.abc.ceState ≠ 0) = (ce = true) := by
            by_contra hne; exact hsw ⟨hne, h0⟩
          rw [h.pending m hm]; simp only [hsame, Bool.decide_eq_true]
      · exact List.eq_of_mem_replicate hm

/-- One event: the trace it adds is an exact echo, and the invariant holds after it. -/
theorem RxInv.rx {cwndEvent : Sock CA → CaEvent → Sock CA}
    (hev : ∀ s ev, ev ≠ .txStart → cwndEvent s ev = s.abcCwndEvent ev)
    {isn : UInt32} {recvd : List Bool} {acked : Nat} {s : Sock CA} (h : RxInv isn recvd acked s) (ev : RxEvent) :
    ∃ recvd' acked', Echo isn recvd acked (rxObs cwndEvent s ev) recvd' acked' ∧
      RxInv isn recvd' acked' (rx cwndEvent s ev) := by
  cases ev with
  | sendAck =>
    obtain ⟨h1, h2⟩ := h.sendAck
    exact ⟨recvd, recvd.length, by simpa [rxObs, Tcp.rx] using h1, h2⟩
  | segment len ce delayed =>
    have hecn : cwndEvent { s with rcvNxt := s.rcvNxt + len } (if ce then .ecnIsCe else .ecnNoCe) =
        Sock.abcCwndEvent { s with rcvNxt := s.rcvNxt + len } (if ce then .ecnIsCe else .ecnNoCe) :=
      hev _ _ (by cases ce <;> simp)
    have hspec := abcCwndEvent_ecn { s with rcvNxt := s.rcvNxt + len } ce
    simp only [rxObs, Tcp.rx]
    rw [hecn]
    generalize Sock.abcCwndEvent { s with rcvNxt := s.rcvNxt + len } (if ce then .ecnIsCe else .ecnNoCe) = s' at *
    obtain ⟨acked', hecho, hle, hpre, h1, h2, h3, h4, h5⟩ := h.segment hspec
    have hdel : cwndEvent s' .delayedAck = s'.abcCwndEvent .delayedAck := hev _ _ (by simp)
    cases delayed with
    | true =>
      obtain ⟨d1, d2, d3, d4, d5, d6⟩ := abcCwndEvent_delayed s'
      simp only [if_true]
      rw [hdel, d1]
      refine ⟨_, acked', .recv hecho, ⟨by rw [d2, h1], by rw [d4, d2, h2], h3, by rw [d3, d5, h4], ?_, fun h0 => absurd h0 d6⟩⟩
      rw [d5]; exact h5
    | false =>
      -- an immediate ACK acknowledges the bytes still pending with the segment's own
      have hack : Echo isn (recvd ++ List.replicate len.toNat ce) acked' [.ack s'.rcvNxt s'.demandsCwr]
          (recvd ++ List.replicate len.toNat ce) (recvd ++ List.replicate len.toNat ce).length := by
        refine .ack h3 (le_refl _) h1 (fun m hm => ?_) (.nil _ _)
        rw [List.take_length] at hm
        rw [h4]; exact h5 m hm
      have hf : s'.tcpSendAck.demandsCwr = s'.demandsCwr := by simp [Sock.demandsCwr]
      refine ⟨recvd ++ List.replicate len.toNat ce, (recvd ++ List.replicate len.toNat ce).length, ?_,
        ⟨by simpa using h1, by simpa using h2, le_refl _, by simpa [hf] using h4, by simp, fun _ => rfl⟩⟩
      simp only [Bool.false_eq_true, if_false, acks_tcpSendAck, List.drop_append_of_le_length hle, List.map_append,
        List.map_cons, List.map_nil]
      exact .recv (hecho.trans hack)

theorem RxInv.trace {cwndEvent : Sock CA → CaEvent → Sock CA}
    (hev : ∀ s ev, ev ≠ .txStart → cwndEvent s ev = s.abcCwndEvent ev) {isn : UInt32} :
    ∀ (evs : List RxEvent) {recvd : List Bool} {acked : Nat} {s : Sock CA}, RxInv isn recvd acked s →
      ∃ recvd' acked', Echo isn recvd acked (rxTrace cwndEvent s evs) recvd' acked'
  | [], recvd, acked, _, _ => ⟨recvd, acked, .nil _ _⟩
  | ev :: evs, _, _, _, h => by
    obtain ⟨r₁, a₁, h1, h2⟩ := h.rx hev ev
    obtain ⟨r₂, a₂, h3⟩ := RxInv.trace hev evs h2
    exact ⟨r₂, a₂, h1.trans h3⟩

/-- After the module's init, on an ECN-capable socket with the ECE flag clear. -/
theorem RxInv.init {s : Sock CA} (hcap : s.ecnFlags &&& tcpEcnOk ≠ 0) (hclear : s.demandsCwr = false) :
    RxInv s.rcvNxt [] 0 s.abcInit := by
  unfold Sock.abcInit
  rw [if_pos (Or.inl hcap)]
  exact ⟨by simp, by simp, le_refl _, by simpa [Sock.demandsCwr] using hclear, by simp, fun _ => rfl⟩

/-- The invariant reads only the receiver's part of the socket. -/
theorem RxInv.congr {isn : UInt32} {recvd : List Bool} {acked : Nat} {s s' : Sock CA} (h : RxInv isn recvd acked s)
    (hrcv : s'.rcvNxt = s.rcvNxt) (hflags : s'.ecnFlags = s.ecnFlags) (habc : s'.abc = s.abc) :
    RxInv isn recvd acked s' := by
  have hd : s'.demandsCwr = s.demandsCwr := by simp only [Sock.demandsCwr, hflags]
  refine ⟨by rw [hrcv, h.rcvNxt], by rw [habc, hrcv, h.prior], h.le, by rw [hd, habc, h.flag], ?_, ?_⟩
  · rw [habc]; exact h.pending
  · rw [habc]; exact h.done

end

/-! ## The two modules -/

theorem bictcpCwndEvent_eq (j : Nat → UInt32) (s : Sock TcpAbcCubic.Bictcp) {ev : CaEvent} (h : ev ≠ .txStart) :
    TcpAbcCubic.bictcpCwndEvent j s ev = s.abcCwndEvent ev := by
  unfold TcpAbcCubic.bictcpCwndEvent; rw [if_neg h]

theorem bictcpCwndEvent_rcvNxt (j : Nat → UInt32) (s : Sock TcpAbcCubic.Bictcp) (ev : CaEvent) :
    (TcpAbcCubic.bictcpCwndEvent j s ev).rcvNxt = s.rcvNxt := by
  unfold TcpAbcCubic.bictcpCwndEvent
  simp only
  split
  · split <;> exact abcCwndEvent_rcvNxt s ev
  · exact abcCwndEvent_rcvNxt s ev

/-- The receiver of both modules echoes marks exactly, whatever the segments, their marks and the
delay decisions; no handler leaves `rcv_nxt` changed. -/
theorem receiver_echoes_marks :
    (∀ (s : Sock Abc) (evs : List RxEvent), s.ecnFlags &&& tcpEcnOk ≠ 0 → s.demandsCwr = false →
      ∃ recvd acked, Echo s.rcvNxt [] 0 (rxTrace TcpAbc.abcCwndEvent (TcpAbc.abcInit s) evs) recvd acked) ∧
    (∀ (s : Sock Abc) (ev : CaEvent), (TcpAbc.abcCwndEvent s ev).rcvNxt = s.rcvNxt) ∧
    (∀ (s : Sock TcpAbcCubic.Bictcp) (clock : UInt32) (j : Nat → UInt32) (evs : List RxEvent),
      s.ecnFlags &&& tcpEcnOk ≠ 0 → s.demandsCwr = false →
      ∃ recvd acked, Echo s.rcvNxt [] 0
        (rxTrace (TcpAbcCubic.bictcpCwndEvent j) (TcpAbcCubic.bictcpInit s clock) evs) recvd acked) ∧
    ∀ (j : Nat → UInt32) (s : Sock TcpAbcCubic.Bictcp) (ev : CaEvent),
      (TcpAbcCubic.bictcpCwndEvent j s ev).rcvNxt = s.rcvNxt := by
  refine ⟨fun s evs hcap hclear => ?_, abcCwndEvent_rcvNxt, fun s clock j evs hcap hclear => ?_,
    bictcpCwndEvent_rcvNxt⟩
  · exact RxInv.trace (fun _ _ _ => rfl) evs (RxInv.init (s := { s with sndSsthresh := tcpInfiniteSsthresh }) hcap hclear)
  · exact RxInv.trace (fun _ _ h => bictcpCwndEvent_eq j _ h) evs ((RxInv.init hcap hclear).congr rfl rfl rfl)

theorem receiver_echoes_marks_established :
    (∃ recvd acked, Echo 0 [] 0 (rxTrace TcpAbc.abcCwndEvent (TcpAbc.abcInit (.established default 10))
      [.segment 1448 true true, .segment 1448 false false]) recvd acked) ∧
    ∃ recvd acked, Echo 0 [] 0
      (rxTrace (TcpAbcCubic.bictcpCwndEvent fun _ => 0) (TcpAbcCubic.bictcpInit (.established default 10) 0)
        [.segment 1448 true true, .segment 1448 false false]) recvd acked :=
  ⟨receiver_echoes_marks.1 (.established default 10) _ (by decide) (by decide),
    receiver_echoes_marks.2.2.1 (.established default 10) 0 _ _ (by decide) (by decide)⟩

/-- A delayed ACK for a marked segment goes out on its own once an unmarked one follows. -/
example : rxTrace TcpAbc.abcCwndEvent (TcpAbc.abcInit (.established default 10))
    [.segment 1448 true true, .segment 1448 false false] =
      [.recv 1448 true, .recv 1448 false, .ack 1448 true, .ack 2896 false] := by decide

end AbcMahimahi.Tcp
