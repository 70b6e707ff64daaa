/-
`DropHeadPacketQueue` (drop_head_packet_queue.hh): accept every packet, then drop from the head until
the limits are met again. `dequeue` checks the limits after each packet it takes, so a second drop
never comes: the assertion fails before it.
-/
import AbcMahimahi.Packet.Dropping

namespace AbcMahimahi.Packet

open Bytes DroppingPacketQueue

/-- `DropHeadPacketQueue`. -/
structure DropHeadPacketQueue extends DroppingPacketQueue
  deriving DecidableEq, Repr

namespace DropHeadPacketQueue

/-- The loop of `enqueue`. A turn takes a packet off the queue, and fails on an empty one. -/
def dropLoop : Nat → DroppingPacketQueue → Except Fault DroppingPacketQueue
  | 0, _ => throw .endless
  | turns + 1, q => do
    if ← q.good then pure q
    else
      let (_, q) ← q.dequeue
      dropLoop turns q

def enqueue (q : DroppingPacketQueue) (p : QueuedPacket) : Except Fault DroppingPacketQueue :=
  -- always accept the packet
  dropLoop (q.internalQueue.length + 2) (q.accept p)

/-! ## The longest tail that fits -/

/-- Does the queue have room for these packets? -/
def Fits (q : DroppingPacketQueue) (l : List QueuedPacket) : Prop := q.goodWith (totalBytes l) l.length = true

instance (q : DroppingPacketQueue) (l : List QueuedPacket) : Decidable (Fits q l) :=
  inferInstanceAs (Decidable (_ = true))

/-- `kept` is the longest tail of `l` that meets the limits of `q`. -/
structure LongestTail (q : DroppingPacketQueue) (kept l : List QueuedPacket) : Prop where
  isSuffix : kept <:+ l
  fits : Fits q kept
  longest : ∀ l', l' <:+ l → Fits q l' → l'.length ≤ kept.length

/-- The counters are those of the queue, and an `int` holds them. -/
structure Exact (q : DroppingPacketQueue) : Prop where
  bytes : q.queueSizeInBytes = totalBytes q.internalQueue
  packets : q.queueSizeInPackets = q.internalQueue.length
  fitsBytes : totalBytes q.internalQueue < 2 ^ 31
  fitsPackets : q.internalQueue.length < 2 ^ 31

variable {q q' : DroppingPacketQueue} {p : QueuedPacket} {l : List QueuedPacket}

theorem totalBytes_tail_le : ∀ l : List QueuedPacket, totalBytes l.tail ≤ totalBytes l
  | [] => le_rfl
  | p :: l => by rw [List.tail_cons, totalBytes_cons]; omega

theorem Fits.tail (h : Fits q l) : Fits q l.tail := by
  apply goodWith_mono h (totalBytes_tail_le l)
  rw [List.length_tail]
  omega

/-- A list that fits is its own longest tail. -/
theorem Fits.longestTail (h : Fits q l) : LongestTail q l l := ⟨List.suffix_rfl, h, fun _ hl _ => hl.length_le⟩

/-- A tail longer than all but the first packet is the whole list. -/
theorem longestTail_tail (hnot : ¬Fits q l) (h : Fits q l.tail) : LongestTail q l.tail l := by
  refine ⟨List.tail_suffix l, h, ?_⟩
  intro l' hl hfits
  by_contra hlong
  rw [List.length_tail] at hlong
  have hle := hl.length_le
  obtain rfl := hl.eq_of_length (by omega)
  exact hnot hfits

/-! ## One call -/

theorem Exact.good (h : Exact q) : q.good = .ok (q.goodWith (totalBytes q.internalQueue) q.internalQueue.length) := by
  unfold DroppingPacketQueue.good sizeBytes sizePackets
  rw [h.bytes, h.packets]
  simp

/-- Taking a packet off leaves the counters right, and fails unless the rest fits. -/
theorem Exact.dequeue (h : Exact q) (hq : q.internalQueue = p :: l) :
    ∃ q', Exact q' ∧ q'.internalQueue = l ∧ q'.packetLimit = q.packetLimit ∧ q'.byteLimit = q.byteLimit ∧
      q.dequeue = (fun _ => (p, q')) <$> check "good()" (q.goodWith (totalBytes l) l.length) := by
  have hbytes := h.bytes
  have hpackets := h.packets
  have hfits := h.fitsBytes
  have hcount := h.fitsPackets
  rw [hq] at hbytes hpackets hfits hcount
  rw [totalBytes_cons] at hbytes hfits
  rw [List.length_cons] at hpackets hcount
  have hexact : Exact { q with
      internalQueue := l
      queueSizeInBytes := cInt (q.queueSizeInBytes - p.contents.length)
      queueSizeInPackets := cInt (q.queueSizeInPackets - 1) } := by
    constructor
    · simp only
      rw [hbytes, cInt_eq] <;> push_cast <;> omega
    · simp only
      rw [hpackets, cInt_eq] <;> push_cast <;> omega
    · simp only; omega
    · simp only; omega
  refine ⟨_, hexact, rfl, rfl, rfl, ?_⟩
  unfold DroppingPacketQueue.dequeue
  rw [hq]
  dsimp only
  rw [hexact.good]
  rfl

theorem Exact.accept (h : Exact q) (hbytes : totalBytes q.internalQueue + p.contents.length < 2 ^ 31)
    (hpackets : q.internalQueue.length + 1 < 2 ^ 31) : Exact (q.accept p) := by
  unfold DroppingPacketQueue.accept
  constructor
  · simp only [h.bytes, totalBytes_append, totalBytes_cons, totalBytes_nil]
    rw [cInt_eq] <;> push_cast <;> omega
  · simp only [h.packets, List.length_append, List.length_singleton]
    rw [cInt_eq] <;> push_cast <;> omega
  · simp only [totalBytes_append, totalBytes_cons, totalBytes_nil]; omega
  · simp only [List.length_append, List.length_singleton]; omega

/-- A counter that overflows is negative, and the check of the limits fails. -/
theorem room_of_good (h : Exact q) (hp : p.contents.length < 2 ^ 31) {b : Bool} (hgood : (q.accept p).good = .ok b) :
    totalBytes q.internalQueue + p.contents.length < 2 ^ 31 ∧ q.internalQueue.length + 1 < 2 ^ 31 := by
  obtain ⟨bytes, hbytes, hgood⟩ := Run.bind_ok hgood
  obtain ⟨packets, hpackets, -⟩ := Run.bind_ok hgood
  obtain ⟨u, hbytes, -⟩ := Run.bind_ok hbytes
  obtain ⟨v, hpackets, -⟩ := Run.bind_ok hpackets
  cases u
  cases v
  have hb := of_decide_eq_true (check_ok hbytes)
  have hn := of_decide_eq_true (check_ok hpackets)
  simp only [DroppingPacketQueue.accept, h.bytes, h.packets, cInt, Int.bmod_def] at hb hn
  have hfits := h.fitsBytes
  have hcount := h.fitsPackets
  constructor
  · by_contra hover
    split at hb <;> omega
  · by_contra hover
    split at hn <;> omega

/-- `enqueue` on right counters: nothing is dropped, or the head is, or the assertion fails. -/
theorem enqueue_eq (h : Exact (q.accept p)) :
    ∃ q₁, Exact q₁ ∧ q₁.internalQueue = (q.internalQueue ++ [p]).tail ∧ q₁.packetLimit = q.packetLimit ∧
      q₁.byteLimit = q.byteLimit ∧
      enqueue q p =
        if q.goodWith (totalBytes (q.internalQueue ++ [p])) (q.internalQueue ++ [p]).length then .ok (q.accept p)
        else (fun _ => q₁) <$> check "good()" (q.goodWith (totalBytes q₁.internalQueue) q₁.internalQueue.length) := by
  obtain ⟨r, rest, hcons⟩ := List.exists_cons_of_ne_nil (List.append_ne_nil_of_right_ne_nil q.internalQueue (List.cons_ne_nil p []))
  obtain ⟨q₁, hexact, hrest, hpacket, hbyte, hd⟩ := h.dequeue hcons
  refine ⟨q₁, hexact, by rw [hrest, hcons, List.tail_cons], hpacket, hbyte, ?_⟩
  have hlimits : ∀ b n, q₁.goodWith b n = q.goodWith b n := fun b n => by
    unfold goodWith
    rw [hpacket, hbyte]
    rfl
  unfold enqueue dropLoop
  rw [h.good, Run.ok_bind]
  have hsame : ∀ b n, (q.accept p).goodWith b n = q.goodWith b n := fun _ _ => rfl
  rw [hsame, accept_internalQueue]
  split
  · rfl
  · rw [hd, hsame, hrest]
    cases hgood : q.goodWith (totalBytes rest) rest.length with
    | false => rfl
    | true =>
      -- the limits are met now, so the loop ends
      rw [check_true, Run.map_ok, Run.map_ok, Run.ok_bind]
      dsimp only
      unfold dropLoop
      rw [hexact.good, hlimits, hrest, hgood]
      rfl

/-- On a queue with right counters, `enqueue` returns with the longest tail that fits exactly when the
counters can hold the packet and at most the head has to go. -/
theorem keeps_longest_tail_iff (h : Exact q) (hp : p.contents.length < 2 ^ 31) :
    (∃ q', enqueue q p = .ok q' ∧ Exact q' ∧ q'.packetLimit = q.packetLimit ∧ q'.byteLimit = q.byteLimit ∧
      LongestTail q q'.internalQueue (q.internalQueue ++ [p])) ↔
    totalBytes q.internalQueue + p.contents.length < 2 ^ 31 ∧ q.internalQueue.length + 1 < 2 ^ 31 ∧
      Fits q (q.internalQueue ++ [p]).tail := by
  constructor
  · rintro ⟨q', he, -⟩
    have hroom : totalBytes q.internalQueue + p.contents.length < 2 ^ 31 ∧ q.internalQueue.length + 1 < 2 ^ 31 := by
      unfold enqueue dropLoop at he
      obtain ⟨b, hb, -⟩ := Run.bind_ok he
      exact room_of_good h hp hb
    refine ⟨hroom.1, hroom.2, ?_⟩
    obtain ⟨q₁, -, htail, -, -, heq⟩ := enqueue_eq (h.accept hroom.1 hroom.2)
    rw [heq] at he
    split at he
    · rename_i hfits
      exact Fits.tail hfits
    · obtain ⟨u, hcheck, -⟩ := Run.map_eq_ok he
      cases u
      rw [htail] at hcheck
      exact check_ok hcheck
  · rintro ⟨hbytes, hpackets, hfits⟩
    have haccept := h.accept hbytes hpackets
    obtain ⟨q₁, hexact, htail, hpacket, hbyte, heq⟩ := enqueue_eq haccept
    rw [heq]
    split
    · rename_i hall
      exact ⟨_, rfl, haccept, rfl, rfl, Fits.longestTail hall⟩
    · rename_i hall
      refine ⟨q₁, ?_, hexact, hpacket, hbyte, ?_⟩
      · rw [htail, check_of hfits]
        rfl
      · rw [htail]
        exact longestTail_tail hall hfits

/-- A packet of that many bytes. -/
def sized (bytes : Nat) : QueuedPacket := ⟨List.replicate bytes 0, 0⟩

/-- A queue with a limit of 2000 bytes, filled with two packets. -/
def halves : DroppingPacketQueue :=
  { packetLimit := 0, byteLimit := 2000, queueSizeInBytes := 2000, queueSizeInPackets := 2,
    internalQueue := [sized 1000, sized 1000] }

theorem exact_halves : Exact halves := ⟨by decide +kernel, rfl, by decide +kernel, by decide⟩

theorem keeps_longest_tail_small : ∃ q', enqueue halves (sized 900) = .ok q' ∧ Exact q' ∧
    q'.packetLimit = halves.packetLimit ∧ q'.byteLimit = halves.byteLimit ∧
    LongestTail halves q'.internalQueue (halves.internalQueue ++ [sized 900]) :=
  (keeps_longest_tail_iff exact_halves (by decide +kernel)).2 ⟨by decide +kernel, by decide, by decide +kernel⟩

/-- A packet of 1504 bytes would have to push both out. -/
theorem second_drop_fails :
    (ofArgs 0 2000 >>= fun q => enqueue q (sized 1000) >>= fun q => enqueue q (sized 1000)) = .ok halves ∧
    Exact halves ∧ halves.good = .ok true ∧ enqueue halves (sized 1504) = .error (.assertion "good()") :=
  ⟨by decide +kernel, exact_halves, by decide +kernel, by decide +kernel⟩

end DropHeadPacketQueue

end AbcMahimahi.Packet
