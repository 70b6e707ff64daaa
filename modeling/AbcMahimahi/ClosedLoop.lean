/-
The closed loop of the ABC router and the ABC sender: while the link stays backlogged the window
is bounded, whatever the timing. A mark costs the window one packet and an unmarked packet costs
the router a token that takes more than two credits to earn back, so with tokens counted twice
every ACK loses a fiftieth of a packet, which pays for the additive increase once the window is
50. Below that window everything is small.
-/
import AbcMahimahi.Packet.Tokens
import AbcMahimahi.Tcp.Abc
import AbcMahimahi.Tcp.CountAck

namespace AbcMahimahi

open Packet Packet.CELLULARPacketQueue Tcp TokenBucket Word

/-! ## One ACK -/

/-- The window before the ACK's own change: additive increase carries into it once the counter
passes it. -/
structure Increase (w a w₁ a₁ : Nat) : Prop where
  cases : (a + 1 ≤ w ∧ w₁ = w ∧ a₁ = a + 1) ∨ (w < a + 1 ∧ w₁ = w + 1 ∧ a₁ = a + 1 - w)

/-- The window after an ACK of one full segment. -/
def onePacket (w₁ : Nat) (ece : Bool) : Nat := if ece then (if 6 < w₁ then w₁ - 1 else w₁) else w₁ + 1

/-- `countAck` on an ACK of one full segment, away from the top of the integers. -/
theorem countAck_onePacket {ca : Abc} (hfit : ca.lossCwnd.toNat + 2 < 2 ^ 32)
    (hai : ca.aiCwnd.toNat ≤ ca.lossCwnd.toNat + 1) (ece : Bool) :
    ∃ w₁, Increase ca.lossCwnd.toNat ca.aiCwnd.toNat w₁ (ca.countAck 1448 ece).aiCwnd.toNat ∧
      (ca.countAck 1448 ece).lossCwnd.toNat = onePacket w₁ ece := by
  have hone : (1448 : UInt32).toNat / 1448 = 1 := by decide
  have hfit₁ : ca.increased.lossCwnd.toNat + (1448 : UInt32).toNat / 1448 < 2 ^ 32 := by
    have hwindow := @Abc.increased_window ca (by omega)
    omega
  rw [Abc.countAck_eq, Abc.settled_lossCwnd hfit₁, Abc.settled_aiCwnd, hone]
  refine ⟨ca.increased.lossCwnd.toNat, ⟨?_⟩, rfl⟩
  rcases @Abc.increased_cases ca (by omega) (by omega) with ⟨-, hle, hloss, hai'⟩ | ⟨-, hlt, hloss, hai'⟩
  · exact Or.inl ⟨hle, hloss, hai'⟩
  · exact Or.inr ⟨hlt, hloss, hai'⟩

/-- An ACK of one full segment counts, whatever its other flags. -/
theorem ack_onePacket (s : Sock Abc) (flags : UInt32) :
    (TcpAbc.ack s 1448 flags).ca.lossCwnd = (s.ca.countAck 1448 (flags &&& caAckEce != 0)).lossCwnd ∧
      (TcpAbc.ack s 1448 flags).ca.aiCwnd = (s.ca.countAck 1448 (flags &&& caAckEce != 0)).aiCwnd := by
  have hbytes : Sock.ackedBytes { s with sndUna := s.ca.priorSndUna + 1448 } flags = 1448 := by
    have hdiff : s.ca.priorSndUna + 1448 - s.ca.priorSndUna = 1448 := by
      rw [UInt32.add_comm, UInt32.add_sub_cancel]
    unfold Sock.ackedBytes
    simp only [Sock.abc_mk]
    show (if s.ca.priorSndUna + 1448 - s.ca.priorSndUna = 0 ∧ flags &&& caAckWinUpdate = 0 then s.rcvMss.toUInt32
      else s.ca.priorSndUna + 1448 - s.ca.priorSndUna) = 1448
    rw [hdiff, if_neg (fun h => absurd h.1 (by decide))]
  have hne : (1448 : UInt32) ≠ 0 := by decide
  unfold TcpAbc.ack TcpAbc.abcInAck
  simp only [hbytes, if_pos hne, and_self]

/-! ## The potential -/

/-- The window, two packets for each token, a fiftieth of the increase counter. -/
def potential (w a : Nat) (tokens : ℚ) : ℚ := w + 2 * tokens + a / 50

section

variable {w a w₁ a₁ : Nat} {t t' c : ℚ} {e : Event}

/-- The window and its counter stay in step. -/
theorem Increase.inv (h : Increase w a w₁ a₁) (hw : 1 ≤ w) (ha : a ≤ w + 1) (ece : Bool) :
    1 ≤ onePacket w₁ ece ∧ a₁ ≤ onePacket w₁ ece + 1 ∧ onePacket w₁ ece ≤ w + 2 ∧ a₁ ≤ w + 3 := by
  obtain ⟨⟨h1, rfl, rfl⟩ | ⟨h1, rfl, rfl⟩⟩ := h <;> unfold onePacket <;> split <;> (try split) <;> omega

/-- After any packet the potential is bounded by the window before it. -/
theorem potential_le (h : Increase w a w₁ a₁) (hw : 1 ≤ w) (ha : a ≤ w + 1) (ece : Bool) (ht : t' ≤ 5) :
    potential (onePacket w₁ ece) a₁ t' ≤ w + 12 + (w + 3) / 50 := by
  obtain ⟨-, -, hw₁, ha₁⟩ := h.inv hw ha ece
  have hw₂ : (onePacket w₁ ece : ℚ) ≤ w + 2 := by exact_mod_cast hw₁
  have ha₂ : (a₁ : ℚ) ≤ w + 3 := by exact_mod_cast ha₁
  unfold potential
  linarith

/-- In a window of 50 packets the potential does not grow: an unmarked packet costs a token. -/
theorem potential_anti (h : Increase w a w₁ a₁) (hw : 50 ≤ w)
    (hs : TokenBucket.Step 5 0.49 t e c t') (he : e = .spend ∨ e = .refuse) :
    potential (onePacket w₁ (e != .spend)) a₁ t' ≤ potential w a t := by
  have hw' : (50 : ℚ) ≤ w := by exact_mod_cast hw
  -- with or without a carry the increase costs at most a fiftieth
  have hinc : (w₁ : ℚ) + a₁ / 50 ≤ w + a / 50 + 0.02 := by
    obtain ⟨⟨h1, rfl, rfl⟩ | ⟨h1, rfl, rfl⟩⟩ := h
    · push_cast; linarith
    · rw [Nat.cast_sub (by omega)]; push_cast; linarith
  have hw₁ : w ≤ w₁ := by obtain ⟨⟨-, rfl, -⟩ | ⟨-, rfl, -⟩⟩ := h <;> omega
  unfold potential onePacket
  rcases he with rfl | rfl
  · have hless := hs.spend_le.2
    simp only [bne_self_eq_false, Bool.false_eq_true, if_false]
    push_cast; linarith
  · have hmore := hs.le_add (by norm_num) (by decide)
    have hbrake : (Event.refuse != Event.spend) = true := by decide
    rw [hbrake, if_pos rfl, if_pos (by omega), Nat.cast_sub (by omega)]
    push_cast; linarith

end

/-! ## The loop -/

/-- The invariant of the loop started with window `w₀`: the sender's counters are in step, and
either the window has not left `w₀` or the potential is within its bound. -/
structure Held (w₀ : Nat) (s : Sock Abc) (tokens : ℚ) : Prop where
  pos : 1 ≤ s.ca.lossCwnd.toNat
  ai : s.ca.aiCwnd.toNat ≤ s.ca.lossCwnd.toNat + 1
  nonneg : 0 ≤ tokens
  start : 1 ≤ w₀
  le : s.ca.lossCwnd.toNat ≤ w₀ ∨
    potential s.ca.lossCwnd.toNat s.ca.aiCwnd.toNat tokens ≤ 2 * w₀ + 68

theorem Held.window_le {w₀ : Nat} {s : Sock Abc} {tokens : ℚ} (h : Held w₀ s tokens) :
    s.ca.lossCwnd.toNat ≤ 2 * w₀ + 68 := by
  rcases h.le with hle | hle
  · omega
  · have ha : (0 : ℚ) ≤ (s.ca.aiCwnd.toNat : ℚ) / 50 := by positivity
    have ht := h.nonneg
    unfold potential at hle
    exact_mod_cast (by linarith : (s.ca.lossCwnd.toNat : ℚ) ≤ 2 * w₀ + 68)

/-- One packet round the loop: it takes a step of the bucket, and its ACK carries the mark. -/
theorem Held.step {w₀ : Nat} {s : Sock Abc} {t t' c : ℚ} {e : Event} {flags : UInt32} (h : Held w₀ s t)
    (hfit : 2 * w₀ + 70 < 2 ^ 32) (hs : TokenBucket.Step 5 0.49 t e c t') (he : e = .spend ∨ e = .refuse)
    (hece : flags &&& caAckEce ≠ 0 ↔ e ≠ .spend) : Held w₀ (TcpAbc.ack s 1448 flags) t' := by
  have hbit : (flags &&& caAckEce != 0) = (e != .spend) := by
    rw [Bool.eq_iff_iff]; simpa using hece
  obtain ⟨hl, ha⟩ := ack_onePacket s flags
  rw [hbit] at hl ha
  have hwin := h.window_le
  obtain ⟨w₁, hinc, hw₁⟩ := countAck_onePacket (by omega) h.ai (e != .spend)
  have hinv := hinc.inv h.pos h.ai (e != .spend)
  refine ⟨by rw [hl, hw₁]; exact hinv.1, by rw [hl, ha, hw₁]; exact hinv.2.1,
    hs.nonneg (by norm_num) (by norm_num) h.nonneg, h.start, Or.inr ?_⟩
  rw [hl, ha, hw₁]
  have hany := potential_le hinc h.pos h.ai (e != .spend) (hs.le_cap he)
  have hstart : (1 : ℚ) ≤ w₀ := by exact_mod_cast h.start
  rcases h.le with hle | hle
  · have hle' : (s.ca.lossCwnd.toNat : ℚ) ≤ w₀ := by exact_mod_cast hle
    linarith
  · rcases Nat.lt_or_ge s.ca.lossCwnd.toNat 50 with hsmall | hlarge
    · have hsmall' : (s.ca.lossCwnd.toNat : ℚ) ≤ 49 := by exact_mod_cast Nat.le_of_lt_succ hsmall
      linarith
    · exact le_trans (potential_anti hinc hlarge hs he) hle

/-- The sender handles ACKs of one full segment each, with these flags. -/
def acks (s : Sock Abc) (flags : List UInt32) : Sock Abc := flags.foldl (fun s f => TcpAbc.ack s 1448 f) s

theorem Held.run {w₀ : Nat} (hfit : 2 * w₀ + 70 < 2 ^ 32) {t t' : ℚ} {es : List (Event × ℚ)}
    (hrun : TokenBucket.Run 5 0.49 t es t') :
    ∀ {s : Sock Abc} {flags : List UInt32}, Held w₀ s t → (∀ e ∈ es, e.1 = .spend ∨ e.1 = .refuse) →
      List.Forall₂ (fun (e : Event × ℚ) f => f &&& caAckEce ≠ 0 ↔ e.1 ≠ .spend) es flags →
      Held w₀ (acks s flags) t' := by
  induction hrun with
  | nil => intro s flags h _ hf; cases hf; exact h
  | cons hs _ ih =>
    intro s flags h hes hf
    obtain ⟨f, rest, hf₁, hrest, rfl⟩ := List.forall₂_cons_left_iff.1 hf
    have h₁ := h.step hfit hs (hes _ (List.mem_cons_self ..)) hf₁
    have hend := ih h₁ (fun e he => hes e (List.mem_cons_of_mem _ he)) hrest
    unfold acks at hend ⊢
    rw [List.foldl_cons]
    exact hend

/-- Every `dequeue` finds an ECT packet that does not carry CE yet, with a whole IP header. -/
def Backlogged (q : CELLULARPacketQueue) : Op → Prop
  | .enqueue _ => True
  | .dequeue _ => ∃ p, q.base.internalQueue.head? = some p ∧ ecn p.contents ≠ iptosEcnNotEct ∧
      ecn p.contents ≠ iptosEcnCe ∧ 24 ≤ p.contents.length

theorem Backlogged.longEct {q : CELLULARPacketQueue} : ∀ {op : Op}, Backlogged q op → LongEct q op
  | .enqueue _, _ => trivial
  | .dequeue _, ⟨p, hp, _, _, hlen⟩ => fun r hr _ => by
    rw [hp] at hr; cases hr; exact hlen

/-- On a backlogged link only ECT packets without CE are popped. -/
theorem Backlogged.ectNotCe {q q' : CELLULARPacketQueue} {op : Op} {o : Option Left} (h : Backlogged q op)
    (hs : q.step op = .ok (o, q')) : ∀ l ∈ o, l.ectNotCe = true := by
  cases op with
  | enqueue p => rw [(step_enqueue hs).1]; simp
  | dequeue clock =>
    obtain ⟨p, hp, h1, h2, -⟩ := h
    obtain ⟨r, -, hs⟩ := Run.bind_ok hs
    cases hs
    intro l hl
    cases hl
    simp only [Left.ectNotCe, hp, Option.any_some, Bool.and_eq_true, bne_iff_ne]
    exact ⟨h1, h2⟩

theorem ectNotCe_of_run {q q' : CELLULARPacketQueue} {ops : List Op} {os : List (Option Left)}
    (hback : Run.Along step Backlogged q ops) (hrun : Run.steps step q ops = .ok (os, q')) :
    ∀ l ∈ os.reduceOption, l.ectNotCe = true := by
  intro l hl
  have hall := Run.steps_outputs (P := fun _ => True) (Q := fun o => ∀ l ∈ o, l.ectNotCe = true)
    (fun _ _ _ _ _ hG hs => ⟨trivial, hG.ectNotCe hs⟩) trivial hback hrun
  obtain ⟨o, ho, hol⟩ := List.mem_filterMap.1 hl
  exact hall o ho l hol

/-- Such a packet leaves with CE exactly when it spends no token. -/
theorem Left.ce_iff {l : Left} (h : l.ectNotCe = true) :
    ecn l.returned.contents = iptosEcnCe ↔ l.event ≠ .spend := by
  rw [ne_eq, Left.event_eq_spend]
  unfold Left.ectNotCe at h
  unfold Left.unmarked
  cases hp : l.popped with
  | none => simp [hp] at h
  | some p => simp only [hp, Option.any_some] at h ⊢; grind

/-- The loop of router and sender is bounded: from any reachable router and any sender window,
while the link stays backlogged and each packet is acknowledged with its mark, the window never
exceeds twice its first value and 70 packets. -/
theorem closed_loop_bounded {q q' : CELLULARPacketQueue} {ops : List Op} {os : List (Option Left)} {s : Sock Abc}
    {flags : List UInt32} (hq : Run.Reachable step Initial q) (hback : Run.Along step Backlogged q ops)
    (hrun : Run.steps step q ops = .ok (os, q')) (hw : 1 ≤ s.ca.lossCwnd.toNat)
    (hai : s.ca.aiCwnd.toNat ≤ s.ca.lossCwnd.toNat + 1)
    (hacks : List.Forall₂ (fun l f => f &&& caAckEce ≠ 0 ↔ ecn l.returned.contents = iptosEcnCe) os.reduceOption flags) :
    (acks s flags).ca.lossCwnd.toNat ≤ 2 * s.ca.lossCwnd.toNat + 70 := by
  rcases Nat.lt_or_ge (2 * s.ca.lossCwnd.toNat + 70) (2 ^ 32) with hfit | hlarge
  · have hready := ready_of_reachable hq
    have hbucket := hready.bucketRun (Run.along_mono (fun _ _ => Backlogged.longEct) hback) hrun
    have hheld : Held s.ca.lossCwnd.toNat s q.tokens := ⟨hw, hai, hready.tokens, hw, Or.inl (le_refl _)⟩
    have hect := ectNotCe_of_run hback hrun
    have hend := @Held.run _ hfit _ _ _ hbucket s flags hheld ?_ ?_
    · exact le_trans hend.window_le (by omega)
    · intro e he
      obtain ⟨l, hl, rfl⟩ := List.mem_map.1 he
      exact Left.event_of_ectNotCe (hect l hl)
    · refine List.forall₂_map_left_iff.2 (List.Forall₂.imp (fun l f hlf => ?_) ((List.forall₂_and_left _ _).2 ⟨hect, hacks⟩))
      exact hlf.2.trans (Left.ce_iff hlf.1)
  · -- no value of the field is beyond the bound
    have := s.ca.lossCwnd.toNat_lt
    have := (acks s flags).ca.lossCwnd.toNat_lt
    omega

/-- The module's init puts the counters in step. -/
theorem abcInit_inStep {s : Sock Abc} (hcap : s.ecnFlags &&& tcpEcnOk ≠ 0) :
    (TcpAbc.abcInit s).ca.lossCwnd = s.sndCwnd ∧
      (TcpAbc.abcInit s).ca.aiCwnd.toNat ≤ (TcpAbc.abcInit s).ca.lossCwnd.toNat + 1 := by
  unfold TcpAbc.abcInit Sock.abcInit
  rw [if_pos (Or.inl hcap)]
  exact ⟨rfl, Nat.zero_le _⟩

/-- The flags of the ACK for a packet: ECE exactly when it arrived with CE. -/
def echo (l : Left) : UInt32 := if ecn l.returned.contents = iptosEcnCe then caAckEce else 0

theorem echo_forall₂ (ls : List Left) :
    List.Forall₂ (fun l f => f &&& caAckEce ≠ 0 ↔ ecn l.returned.contents = iptosEcnCe) ls (ls.map echo) := by
  refine List.forall₂_map_right_iff.2 (List.forall₂_same.2 fun l _ => ?_)
  unfold echo
  split <;> simp [caAckEce, *]

instance decidableBacklogged (q : CELLULARPacketQueue) : ∀ op : Op, Decidable (Backlogged q op)
  | .enqueue _ => isTrue trivial
  | .dequeue _ =>
    inferInstanceAs (Decidable (∃ p ∈ q.base.internalQueue.head?, ecn p.contents ≠ iptosEcnNotEct ∧
      ecn p.contents ≠ iptosEcnCe ∧ 24 ≤ p.contents.length))

/-- A connection that has negotiated ECN, with a window of ten packets. -/
def ecnSock : Sock Abc := { Sock.established default 10 with ecnFlags := tcpEcnOk }

/-- Ten packets go round the loop: the router marks some of them. -/
theorem closed_loop_bounded_small : ∃ os q', Run.steps step small (burst 10) = .ok (os, q') ∧
    os.reduceOption.map echo = List.replicate 7 0 ++ [caAckEce, 0, caAckEce] ∧
    (acks (TcpAbc.abcInit ecnSock) (os.reduceOption.map echo)).ca.lossCwnd.toNat ≤ 2 * 10 + 70 := by
  obtain ⟨⟨os, q'⟩, hrun⟩ := Run.ok_of_isOk (x := Run.steps step small (burst 10)) (by decide +kernel)
  have hecho : os.reduceOption.map echo = List.replicate 7 0 ++ [caAckEce, 0, caAckEce] :=
    Run.value_of_map (fun r => r.1.reduceOption.map echo) hrun (by decide +kernel)
  obtain ⟨hwindow, hcounter⟩ := @abcInit_inStep ecnSock (by decide)
  have hbounded := closed_loop_bounded small_reachable
    (Run.along_of_check (fun _ _ => of_decide_eq_true) (by decide +kernel)) hrun (by rw [hwindow]; decide) hcounter
    (echo_forall₂ _)
  rw [hwindow] at hbounded
  exact ⟨os, q', hrun, hecho, hbounded⟩

end AbcMahimahi
