/-
A mark is written into the header of the packet in place: the ECN field of the TOS byte becomes CE,
and the checksum is computed afresh, over the header with a zero where it is to stand. Everything else
stays as it was, and the header with the new checksum verifies.
-/
import AbcMahimahi.Lib.OnesComplement
import AbcMahimahi.Packet.Conservation

namespace AbcMahimahi.Packet

open Bytes OnesComplement

/-! ## The sum of a header -/

theorem sumWords_append : ∀ {before : Bytes} (rest : Bytes), before.length % 2 = 0 →
    sumWords (before ++ rest) = sumWords before + sumWords rest
  | [], rest, _ => (Nat.zero_add _).symm
  | [_], _, h => by cases h
  | a :: b :: before, rest, h => by
    have heven : before.length % 2 = 0 := by
      simp only [List.length_cons] at h
      omega
    rw [List.cons_append, List.cons_append, sumWords, sumWords, sumWords_append rest heven]
    omega

theorem sumWords_le : ∀ header : Bytes, sumWords header ≤ 2 ^ 16 * header.length
  | [] => Nat.zero_le _
  | [a] => by
    have ha := a.toNat_lt
    simp only [sumWords, List.length_singleton]
    omega
  | a :: b :: rest => by
    have ha := a.toNat_lt
    have hb := b.toNat_lt
    have hrest := sumWords_le rest
    simp only [sumWords, List.length_cons]
    omega

theorem foldCarry_stands : ∀ (turns sum : Nat), Stands (2 ^ 16) sum (foldCarry turns sum)
  | 0, sum => Stands.refl _ _
  | turns + 1, sum => by
    unfold foldCarry
    split
    · exact (stands_carry (by decide) sum).trans (foldCarry_stands turns _)
    · exact Stands.refl _ _

theorem foldCarry_small {turns sum : Nat} (h : sum < 2 ^ 16) : foldCarry turns sum = sum := by
  cases turns with
  | zero => rfl
  | succ turns =>
    unfold foldCarry
    rw [if_neg (by omega)]

/-- Two turns fold a sum of fewer than `2 ^ 16` words. -/
theorem foldCarry_lt (turns : Nat) {sum : Nat} (h : sum < 2 ^ 32) : foldCarry (turns + 2) sum < 2 ^ 16 := by
  unfold foldCarry
  split
  · unfold foldCarry
    split
    · rw [foldCarry_small (by omega)]
      omega
    · omega
  · omega

/-- The checksum of a header, put where there was a zero, verifies. -/
theorem inCksum_complement {before after : Bytes} (hbefore : before.length % 2 = 0)
    (hlen : (before ++ 0 :: 0 :: after).length < 2 ^ 15) :
    inCksum (before ++ UInt8.ofNat (inCksum (before ++ 0 :: 0 :: after) % 256) ::
      UInt8.ofNat (inCksum (before ++ 0 :: 0 :: after) / 256) :: after) = 0 := by
  have hzero : sumWords (before ++ 0 :: 0 :: after) = sumWords before + sumWords after := by
    rw [sumWords_append _ hbefore, sumWords]
    simp
  have hsum := sumWords_le (before ++ 0 :: 0 :: after)
  have hfold : foldCarry 5 (sumWords (before ++ 0 :: 0 :: after)) < 2 ^ 16 := foldCarry_lt 3 (by omega)
  have hstands := foldCarry_stands 5 (sumWords (before ++ 0 :: 0 :: after))
  have hcksum : inCksum (before ++ 0 :: 0 :: after) = 2 ^ 16 - 1 - foldCarry 5 (sumWords (before ++ 0 :: 0 :: after)) := by
    unfold inCksum
    rw [Nat.mod_eq_of_lt hfold]
  generalize inCksum (before ++ 0 :: 0 :: after) = c at hcksum ⊢
  have hnew : sumWords (before ++ UInt8.ofNat (c % 256) :: UInt8.ofNat (c / 256) :: after) =
      sumWords (before ++ 0 :: 0 :: after) + c := by
    rw [hzero, sumWords_append _ hbefore, sumWords, UInt8.toNat_ofNat', UInt8.toNat_ofNat']
    omega
  have hall : foldCarry 5 (sumWords (before ++ 0 :: 0 :: after) + c) = 2 ^ 16 - 1 := by
    rw [hcksum]
    exact hstands.complement (by decide) hfold (foldCarry_stands 5 _) (foldCarry_lt 3 (by omega))
  unfold inCksum
  rw [hnew, hall]
  rfl

/-! ## The header of a packet -/

/-- The IP header of a packet. -/
def ipHeader (contents : Bytes) : Bytes := (contents.drop 4).take (headerLength contents)

/-- An IPv4 packet behind a TUN prefix: a whole header of at least five words. -/
structure Ipv4 (contents : Bytes) : Prop where
  ihl : 20 ≤ headerLength contents
  whole : 4 + headerLength contents ≤ contents.length

theorem headerLength_le (contents : Bytes) : headerLength contents ≤ 60 := by
  have hmask : ∀ b : BitVec 8, (b &&& 15).toNat ≤ 15 := by decide
  have hihl := hmask (contents.getD 4 0).toBitVec
  unfold headerLength
  rw [UInt8.toNat]
  exact Nat.mul_le_mul_right 4 hihl

/-- A packet cut at its checksum. -/
theorem exists_check {contents : Bytes} (h : 16 ≤ contents.length) :
    ∃ before x y after, contents = before ++ x :: y :: after ∧ before.length = 14 := by
  refine ⟨contents.take 14, contents[14], contents[15], contents.drop 16, ?_, by simp; omega⟩
  rw [List.getElem_cons_drop, List.getElem_cons_drop, List.take_append_drop]

section

variable {before after : Bytes} {x y : UInt8}

theorem setCheck_append (h : before.length = 14) (sum : Nat) : setCheck (before ++ x :: y :: after) sum =
    before ++ UInt8.ofNat (sum % 256) :: UInt8.ofNat (sum / 256) :: after := by
  unfold setCheck
  rw [List.set_append_right _ _ (by omega), List.set_append_right _ _ (by omega), h]
  rfl

theorem headerLength_append (h : before.length = 14) : headerLength (before ++ x :: y :: after) = headerLength before := by
  unfold headerLength
  rw [List.getD_eq_getElem?_getD, List.getElem?_append_left (by omega), ← List.getD_eq_getElem?_getD]

theorem ipHeader_append (h : before.length = 14) (hlen : 20 ≤ headerLength before) :
    ipHeader (before ++ x :: y :: after) = before.drop 4 ++ x :: y :: after.take (headerLength before - 12) := by
  unfold ipHeader
  rw [headerLength_append h, List.drop_append_of_le_length (by omega), List.take_append, List.take_of_length_le (by simp; omega),
    List.length_drop, h]
  obtain ⟨n, hn⟩ := Nat.exists_eq_add_of_le hlen
  rw [hn, show 20 + n - (14 - 4) = 8 + n + 2 by omega, show 20 + n - 12 = 8 + n by omega]
  rfl

end

/-- A marked packet verifies. -/
theorem inCksum_markCe {contents : Bytes} (h : Ipv4 contents) : inCksum (ipHeader (markCe contents)) = 0 := by
  have hihl := h.ihl
  have hwhole := h.whole
  have hle := headerLength_le contents
  have hlong : 16 ≤ (contents.set 5 (tos contents ||| iptosEcnCe)).length := by
    rw [List.length_set]
    omega
  obtain ⟨before, x, y, after, hsplit, hbefore⟩ := exists_check hlong
  have hsame : headerLength before = headerLength contents := by
    have happ : headerLength (before ++ x :: y :: after) = headerLength before := headerLength_append hbefore
    rw [← happ, ← hsplit]
    simp [headerLength]
  have hzero : headerLength (before ++ 0 :: 0 :: after) = headerLength before := headerLength_append hbefore
  have hmark : markCe contents = before ++ UInt8.ofNat (inCksum (ipHeader (before ++ 0 :: 0 :: after)) % 256) ::
      UInt8.ofNat (inCksum (ipHeader (before ++ 0 :: 0 :: after)) / 256) :: after := by
    unfold markCe
    dsimp only
    rw [hsplit, setCheck_append hbefore, setCheck_append hbefore]
    rfl
  have hheader : 20 ≤ headerLength before := by omega
  rw [hmark, ipHeader_append hbefore hheader, ipHeader_append hbefore hheader]
  apply inCksum_complement
  · rw [List.length_drop, hbefore]
  · simp only [List.length_append, List.length_drop, List.length_cons, List.length_take]
    omega

/-! ## What leaves the router -/

namespace CELLULARPacketQueue

open DroppingPacketQueue

/-- The packet that has come to the head of the queue is marked when it leaves: it is ECT, and there is
no token for it. -/
def Marks (q : CELLULARPacketQueue) (clock : Nat) (p : QueuedPacket) : Prop :=
  ecn p.contents ≠ iptosEcnNotEct ∧ q.tokens + q.nextCredit clock ≤ 1

/-- The same packet but for the ECN field, which may have become CE, and the checksum. -/
structure Intact (p ret : QueuedPacket) : Prop where
  same : SameButMark p ret
  dscp : tos ret.contents &&& 252 = tos p.contents &&& 252
  ecn : ecn ret.contents = ecn p.contents ∨ ecn ret.contents = iptosEcnCe
  kept : Packet.ecn p.contents = iptosEcnCe ∨ Packet.ecn p.contents = iptosEcnNotEct →
    Packet.ecn ret.contents = Packet.ecn p.contents

theorem Intact.refl (p : QueuedPacket) : Intact p p := ⟨.refl p, rfl, Or.inl rfl, fun _ => rfl⟩

theorem dscp_or_ce (t : UInt8) : (t ||| iptosEcnCe) &&& 252 = t &&& 252 := by
  have h : ∀ b : BitVec 8, (b ||| 3) &&& 252 = b &&& 252 := by decide
  exact UInt8.toBitVec_inj.1 (h t.toBitVec)

/-- A mark leaves an ECT packet intact. -/
theorem intact_markCe {p : QueuedPacket} (hlen : 24 ≤ p.contents.length) (hect : ecn p.contents ≠ iptosEcnNotEct) :
    Intact p { p with contents := markCe p.contents } := by
  have hce : ecn (markCe p.contents) = iptosEcnCe := ecn_markCe hlen
  refine ⟨sameButMark_markCe p, ?_, Or.inr hce, ?_⟩
  · dsimp only
    rw [tos_markCe hlen, dscp_or_ce]
  · rintro (hold | hnot)
    · exact hce.trans hold.symm
    · exact absurd hnot hect

/-- Whatever the state of the router, `dequeue` returns the IPv4 packet at the head of the queue intact:
untouched unless it is to be marked, and then it has CE and its header verifies. -/
theorem marking_keeps_packet {q : CELLULARPacketQueue} {p : QueuedPacket} {rest : List QueuedPacket}
    (hq : q.base.internalQueue = p :: rest) (hp : Ipv4 p.contents) (clock : Nat) :
    (∀ ret q', q.dequeue clock = .ok (ret, q') → Intact p ret ∧ (¬ Marks q clock p → ret = p) ∧
      (Marks q clock p → ecn ret.contents = iptosEcnCe ∧ inCksum (ipHeader ret.contents) = 0)) ∧
    (Rep q.base → ∃ ret q', q.dequeue clock = .ok (ret, q')) := by
  have hlen : 24 ≤ p.contents.length := by
    have hihl := hp.ihl
    have hwhole := hp.whole
    omega
  constructor
  · intro ret q' h
    rcases dequeue_cases h with ⟨hempty, -⟩ | ⟨p', base, hd, hcases⟩
    · rw [hq] at hempty
      cases hempty
    · obtain rfl : p' = p := by
        obtain ⟨hhead, -⟩ := dequeue_ok hd
        rw [hq] at hhead
        exact (List.cons.inj hhead).1.symm
      -- a Not-ECT packet leaves at once, any other is measured against the tokens
      rcases hcases with ⟨hnot, rfl, -⟩ | ⟨hect, hspend⟩
      · exact ⟨.refl ret, fun _ => rfl, fun hmarks => absurd hnot hmarks.1⟩
      · have hret : ret = _ := congrArg Prod.fst hspend
        rw [spend_packet, if_pos (show p'.contents.length > 4 by omega)] at hret
        dsimp only at hret
        by_cases htokens : q.tokens + q.nextCredit clock > 1
        · rw [if_pos htokens] at hret
          subst hret
          exact ⟨.refl ret, fun _ => rfl, fun hmarks => absurd htokens (not_lt.2 hmarks.2)⟩
        · rw [if_neg htokens] at hret
          subst hret
          exact ⟨intact_markCe hlen hect, fun hnot => absurd ⟨hect, not_lt.1 htokens⟩ hnot,
            fun _ => ⟨ecn_markCe hlen, inCksum_markCe hp⟩⟩
  · intro hrep
    obtain ⟨ret, q', h, -⟩ := dequeue_spec hrep hq clock
    exact ⟨ret, q', h⟩

/-- A router out of tokens, with one packet. -/
def spentOut : CELLULARPacketQueue :=
  { base :=
      { packetLimit := 10, byteLimit := 0, queueSizeInBytes := 28, queueSizeInPackets := 1, internalQueue := [bareEct] }
    qdelayRef := 50
    delta := 100
    tokens := 0 }

theorem marking_keeps_packet_small : ∃ ret q', spentOut.dequeue 30 = .ok (ret, q') ∧ Intact bareEct ret ∧
    ecn ret.contents = iptosEcnCe ∧ inCksum (ipHeader ret.contents) = 0 := by
  obtain ⟨hintact, hret⟩ := marking_keeps_packet (q := spentOut) rfl ⟨by decide, by decide⟩ 30
  obtain ⟨ret, q', h⟩ := hret ⟨rfl, rfl, rfl, by decide, by decide⟩
  obtain ⟨hsame, -, hmarked⟩ := hintact ret q' h
  exact ⟨ret, q', h, hsame, hmarked ⟨by decide, by decide +kernel⟩⟩

end CELLULARPacketQueue

end AbcMahimahi.Packet
