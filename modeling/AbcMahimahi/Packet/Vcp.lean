/-
`VCPPacketQueue` (vcp_packet_queue.cc): a router that tells the receivers how congested it is, in three levels.
The level of a packet is half of what its last byte is ahead of the one two before it, and a router that is more
congested raises it.

The bytes wrap around at 8 bits and are compared as `int`, so near the ends of the range of a signed `char` a
raised level reads as none. Doubles are exact rationals; the credits, which nothing reads, are left out.
-/
import AbcMahimahi.Packet.Dropping

namespace AbcMahimahi.Packet

open Bytes

structure VCPPacketQueue where
  base : DroppingPacketQueue
  realDqQueue : List Nat := [0]
  eqQueue : List Nat := [0]
  lastUpdate : Nat := 0
  mode : Nat := 0
  deriving DecidableEq

namespace VCPPacketQueue

/-- The constructor, from the values `get_arg` reads. -/
def ofArgs (packets bytes : Nat) : Except Fault VCPPacketQueue := do
  let base ← DroppingPacketQueue.ofArgs packets bytes
  pure { base := base }

/-- `enqueue`, when `timestamp()` reads `clock`. -/
def enqueue (q : VCPPacketQueue) (p : QueuedPacket) (clock : Nat) : Except Fault VCPPacketQueue := do
  let (admitted, base) ← q.base.admission p
  let now := u32 clock
  pure { q with
    base := base
    eqQueue := if admitted then prune 200 now q.eqQueue ++ [now] else q.eqQueue }

/-! ## The level of a router -/

/-- An opportunity to send is recorded, used or not. -/
def opportunity (q : VCPPacketQueue) (now : Nat) : VCPPacketQueue :=
  { q with realDqQueue := prune 200 now q.realDqQueue ++ [now] }

/-- There are more than `limit` ms between two readings of the clock. -/
def elapsed (limit now t : Nat) : Bool := sub32 now t > limit

/-- `pl`. -/
def load (q : VCPPacketQueue) (sizePackets : Nat) : ℚ :=
  (q.eqQueue.length + 0.5 * sizePackets) / (0.98 * q.realDqQueue.length)

/-- The level follows the load, if it is due. -/
def setMode (q : VCPPacketQueue) (due : Bool) (now sizePackets : Nat) : VCPPacketQueue :=
  let pl := q.load sizePackets
  if due then
    { q with
      lastUpdate := now
      mode := if pl < 0.8 then 0 else if pl > 1.0 then 2 else 1 }
  else q

/-- Once in 200 ms it is. -/
def updateMode (q : VCPPacketQueue) (now sizePackets : Nat) : VCPPacketQueue :=
  q.setMode (elapsed 200 now q.lastUpdate) now sizePackets

/-- `mode_drop_sensitive`, before the level of the packet is looked at. -/
def modeDropSensitive (q : VCPPacketQueue) (now : Nat) : Nat :=
  if q.mode = 2 ∧ elapsed 100 now q.lastUpdate then 1 else q.mode

/-- A packet leaves, and the level is updated. -/
def leave (q : VCPPacketQueue) (now : Nat) : Except Fault (QueuedPacket × VCPPacketQueue) := do
  let (ret, base) ← q.base.dequeue
  let sizePackets ← base.sizePackets
  pure (ret, { q with base := base }.updateMode now sizePackets)

/-! ## The level of a packet -/

/-- A `char`, as an `int`. -/
def ofChar (b : UInt8) : Int := if b.toNat < 128 then b.toNat else b.toNat - 256

def last (c : Bytes) : UInt8 := c.getD (c.length - 1) 0

def thirdLast (c : Bytes) : UInt8 := c.getD (c.length - 3) 0

/-- `incoming_mode`. -/
def decode (c : Bytes) : Nat :=
  if ofChar (last c) = 4 + ofChar (thirdLast c) then 2
  else if ofChar (last c) = 2 + ofChar (thirdLast c) then 1
  else 0

/-- Raise the level of a packet to that of the router. -/
def raise (mode : Nat) (c : Bytes) : Bytes :=
  let raised := UInt8.ofNat (max (decode c) mode - decode c)
  let c := c.set (c.length - 1) (last c + raised)
  c.set (c.length - 3) (thirdLast c - raised)

/-- `dequeue`, when `timestamp()` reads `clock`. -/
def dequeue (q : VCPPacketQueue) (clock : Nat) : Except Hazard (QueuedPacket × VCPPacketQueue) := do
  let now := u32 clock
  let q := q.opportunity now
  if (← watched q.base.sizePackets) = 0 then pure (⟨ascii "arbit", 0⟩, q)
  else do
    let (ret, q) ← watched (q.leave now)
    if ret.contents.length < 3 then throw .outOfBounds
    else pure ({ ret with contents := raise (q.modeDropSensitive now) ret.contents }, q)

/-- The level that the next `dequeue` raises its packet to. -/
def nextMode (q : VCPPacketQueue) (clock : Nat) : Nat :=
  ((q.opportunity (u32 clock)).updateMode (u32 clock) (q.base.internalQueue.length - 1)).modeDropSensitive (u32 clock)

/-! ## Runs -/

/-- A call on the queue, with what it reads from the clock. -/
inductive Op where
  | enqueue (p : QueuedPacket) (clock : Nat)
  | dequeue (clock : Nat)
  deriving DecidableEq, Repr

/-- One call and the packet it returns. -/
def step (q : VCPPacketQueue) : Op → Except Hazard (Option QueuedPacket × VCPPacketQueue)
  | .enqueue p clock => do
    let q ← watched (q.enqueue p clock)
    pure (none, q)
  | .dequeue clock => do
    let (ret, q) ← q.dequeue clock
    pure (some ret, q)

/-- What a run offers: packets of a size that an `int` holds. -/
def Op.Sized : Op → Prop
  | .enqueue p _ => Packet.Sized p
  | .dequeue _ => True

/-- A queue that some run of calls has led to from its construction. -/
def Reached (q : VCPPacketQueue) : Prop :=
  ∃ packets bytes q₀ ops outs, ofArgs packets bytes = .ok q₀ ∧ (∀ op ∈ ops, Op.Sized op) ∧
    Run.steps step q₀ ops = .ok (outs, q)

/-- A packet goes through routers one after the other, and they are in these modes. -/
inductive Path : Bytes → List Nat → Bytes → Prop
  | nil (c : Bytes) : Path c [] c
  | hop {c c' c'' : Bytes} {ms : List Nat} {q q' : VCPPacketQueue} {clock arrival : Nat} {rest : List QueuedPacket}
      (hq : Reached q) (hhead : q.base.internalQueue = ⟨c, arrival⟩ :: rest)
      (hd : q.dequeue clock = .ok (⟨c', arrival⟩, q')) (hrest : Path c' ms c'') : Path c (q.nextMode clock :: ms) c''

/-! ## One router -/

/-- The level `m` has been added to bytes that both were `x`, and taken off the other. -/
structure Level (x : Int) (m : Nat) (c : Bytes) : Prop where
  long : 3 ≤ c.length
  last : ofChar (last c) = x + m
  thirdLast : ofChar (thirdLast c) = x - m
  mode : m ≤ 2

theorem ofChar_bound (b : UInt8) : -128 ≤ ofChar b ∧ ofChar b ≤ 127 := by
  have := b.toNat_lt
  unfold ofChar
  split <;> omega

theorem ofChar_add {b : UInt8} {n : Nat} (hn : n ≤ 2) :
    ofChar (b + UInt8.ofNat n) = if ofChar b + n ≤ 127 then ofChar b + n else ofChar b + n - 256 := by
  have hb := b.toNat_lt
  have hadd : (b + UInt8.ofNat n).toNat = (b.toNat + n) % 256 := by
    rw [UInt8.toNat_add, UInt8.toNat_ofNat']
    omega
  unfold ofChar
  rw [hadd]
  split <;> split <;> split <;> omega

theorem ofChar_sub {b : UInt8} {n : Nat} (hn : n ≤ 2) :
    ofChar (b - UInt8.ofNat n) = if -128 ≤ ofChar b - n then ofChar b - n else ofChar b - n + 256 := by
  have hb := b.toNat_lt
  have hsub : (b - UInt8.ofNat n).toNat = (b.toNat + 256 - n) % 256 := by
    rw [UInt8.toNat_sub, UInt8.toNat_ofNat']
    omega
  unfold ofChar
  rw [hsub]
  split <;> split <;> split <;> omega

section

variable {x : Int} {m n : Nat} {c : Bytes}

theorem Level.decode (h : Level x m c) : decode c = m := by
  have hmode := h.mode
  unfold VCPPacketQueue.decode
  rw [h.last, h.thirdLast]
  split
  · omega
  · split <;> omega

theorem raise_bytes (h : 3 ≤ c.length) (n : Nat) : (raise n c).length = c.length ∧
    last (raise n c) = last c + UInt8.ofNat (max (VCPPacketQueue.decode c) n - VCPPacketQueue.decode c) ∧
    thirdLast (raise n c) = thirdLast c - UInt8.ofNat (max (VCPPacketQueue.decode c) n - VCPPacketQueue.decode c) := by
  unfold raise
  dsimp only
  generalize UInt8.ofNat (max (VCPPacketQueue.decode c) n - VCPPacketQueue.decode c) = raised
  unfold VCPPacketQueue.last VCPPacketQueue.thirdLast
  simp only [List.length_set]
  refine ⟨trivial, ?_, ?_⟩
  · rw [getD_set, if_neg (by omega), getD_set, if_pos (by omega)]
  · rw [getD_set, if_pos (by rw [List.length_set]; omega), getD_set, if_neg (by omega)]

/-- Raised in the range of a `char`, a level is read again. -/
theorem Level.raise (h : Level x m c) (hn : n ≤ 2) (hhigh : x + (max m n : Nat) ≤ 127) (hlow : -128 ≤ x - (max m n : Nat)) :
    Level x (max m n) (raise n c) := by
  obtain ⟨hlen, hlast, hthird⟩ := raise_bytes h.long n
  have hmode := h.mode
  rw [h.decode] at hlast hthird
  refine ⟨by rw [hlen]; exact h.long, ?_, ?_, by omega⟩
  · rw [hlast, ofChar_add (by omega), h.last, if_pos (by omega)]
    omega
  · rw [hthird, ofChar_sub (by omega), h.thirdLast, if_pos (by omega)]
    omega

/-- Raised out of it, it is not. -/
theorem Level.lost (h : Level x m c) (hn : n ≤ 2) (hout : ¬ (x + (max m n : Nat) ≤ 127 ∧ -128 ≤ x - (max m n : Nat))) :
    VCPPacketQueue.decode (VCPPacketQueue.raise n c) ≠ max m n := by
  obtain ⟨hlen, hlast, hthird⟩ := raise_bytes h.long n
  have hmode := h.mode
  have hhigh := ofChar_bound (VCPPacketQueue.last c)
  have hlow := ofChar_bound (VCPPacketQueue.thirdLast c)
  rw [h.last] at hhigh
  rw [h.thirdLast] at hlow
  rw [h.decode] at hlast hthird
  have hl := ofChar_add (b := VCPPacketQueue.last c) (n := max m n - m) (by omega)
  have ht := ofChar_sub (b := VCPPacketQueue.thirdLast c) (n := max m n - m) (by omega)
  rw [← hlast, h.last] at hl
  rw [← hthird, h.thirdLast] at ht
  -- the bytes are 256 off as far apart as they should be
  have hbehind : ofChar (VCPPacketQueue.last (VCPPacketQueue.raise n c)) <
      ofChar (VCPPacketQueue.thirdLast (VCPPacketQueue.raise n c)) := by
    rw [hl, ht]
    split <;> split <;> omega
  unfold VCPPacketQueue.decode
  rw [if_neg (by omega), if_neg (by omega)]
  omega

end

/-! ## The queue of a router -/

open DroppingPacketQueue

/-- The queue underneath is represented, and the mode is one of three. -/
structure Sane (q : VCPPacketQueue) : Prop where
  rep : Rep q.base
  mode : q.mode ≤ 2

section

variable {q q' : VCPPacketQueue}

theorem setMode_sane {due : Bool} {now sizePackets : Nat} (h : Sane q) : Sane (q.setMode due now sizePackets) := by
  cases due with
  | false => exact h
  | true =>
    refine ⟨h.rep, ?_⟩
    change (if q.load sizePackets < 0.8 then 0 else if q.load sizePackets > 1.0 then 2 else 1) ≤ 2
    split
    · decide
    · split <;> decide

theorem modeDropSensitive_le {now : Nat} (h : q.mode ≤ 2) : q.modeDropSensitive now ≤ 2 := by
  unfold modeDropSensitive
  split
  · decide
  · exact h

theorem modeDropSensitive_queue (q : VCPPacketQueue) (base : DroppingPacketQueue) (now : Nat) :
    { q with base := base }.modeDropSensitive now = q.modeDropSensitive now := rfl

/-- The mode does not depend on what is queued but for its size. -/
theorem setMode_queue (q : VCPPacketQueue) (base : DroppingPacketQueue) (due : Bool) (now sizePackets : Nat) :
    { q with base := base }.setMode due now sizePackets = { q.setMode due now sizePackets with base := base } := by
  cases due with
  | true => rfl
  | false => rfl

/-- A packet leaves a queue that has one. -/
theorem leave_spec {p : QueuedPacket} {rest : List QueuedPacket} (h : Sane q) (hq : q.base.internalQueue = p :: rest)
    (clock : Nat) : ∃ q', (q.opportunity (u32 clock)).leave (u32 clock) = .ok (p, q') ∧ Sane q' ∧
      q'.modeDropSensitive (u32 clock) = q.nextMode clock := by
  obtain ⟨base, hd, hrep, hrest⟩ := h.rep.dequeue hq
  have hbase : (q.opportunity (u32 clock)).base.dequeue = .ok (p, base) := hd
  unfold leave nextMode
  rw [hbase, Run.ok_bind]
  dsimp only
  rw [hrep.sizePackets, hrest, hq]
  have hsane : Sane { q.opportunity (u32 clock) with base := base } := ⟨hrep, h.mode⟩
  refine ⟨_, rfl, setMode_sane hsane, ?_⟩
  unfold updateMode
  rw [setMode_queue, modeDropSensitive_queue, List.length_cons, Nat.add_sub_cancel]

/-- What `dequeue` does with a packet that has the two bytes. -/
theorem dequeue_eq {c : Bytes} {arrival : Nat} {rest : List QueuedPacket} (h : Sane q)
    (hq : q.base.internalQueue = ⟨c, arrival⟩ :: rest) (hlen : 3 ≤ c.length) (clock : Nat) :
    ∃ q', q.dequeue clock = .ok (⟨raise (q.nextMode clock) c, arrival⟩, q') ∧ q.nextMode clock ≤ 2 := by
  obtain ⟨q', hl, hsane, hmode⟩ := leave_spec h hq clock
  have hsize : (q.opportunity (u32 clock)).base.sizePackets = .ok (rest.length + 1) := by
    have hpackets := h.rep.sizePackets
    rw [hq] at hpackets
    exact hpackets
  refine ⟨q', ?_, by rw [← hmode]; exact modeDropSensitive_le hsane.mode⟩
  unfold dequeue
  dsimp only
  rw [hsize, watched_ok, Run.ok_bind, if_neg (Nat.succ_ne_zero _), hl, watched_ok, Run.ok_bind]
  dsimp only
  rw [if_neg (by omega), hmode]
  rfl

theorem dequeue_sane {ret : QueuedPacket} {clock : Nat} (h : Sane q) (hd : q.dequeue clock = .ok (ret, q')) : Sane q' := by
  unfold dequeue at hd
  obtain ⟨n, hn, hd⟩ := Run.bind_ok hd
  split at hd
  · cases hd
    exact ⟨h.rep, h.mode⟩
  · obtain ⟨⟨p, q₁⟩, hl, hd⟩ := Run.bind_ok hd
    have hsane : Sane q₁ := by
      have hl := watched_eq_ok hl
      obtain ⟨⟨p', base⟩, hpop, -⟩ := Run.bind_ok hl
      obtain ⟨hq, -⟩ := dequeue_ok hpop
      obtain ⟨q₂, hl₂, hsane, -⟩ := leave_spec h hq clock
      rw [hl] at hl₂
      cases hl₂
      exact hsane
    dsimp only at hd
    split at hd
    · cases hd
    · cases hd
      exact hsane

theorem step_sane {op : Op} {out : Option QueuedPacket} (h : Sane q) (hop : op.Sized) (hs : q.step op = .ok (out, q')) :
    Sane q' := by
  cases op with
  | enqueue p clock =>
    obtain ⟨q₁, he, hs⟩ := Run.bind_ok hs
    cases hs
    obtain ⟨⟨admitted, base⟩, ha, he⟩ := Run.bind_ok (watched_eq_ok he)
    cases he
    exact ⟨admit_rep h.rep hop ha, h.mode⟩
  | dequeue clock =>
    obtain ⟨⟨ret, q₁⟩, hd, hs⟩ := Run.bind_ok hs
    cases hs
    exact dequeue_sane h hd

theorem Reached.sane (h : Reached q) : Sane q := by
  obtain ⟨packets, bytes, q₀, ops, outs, hq₀, hops, hrun⟩ := h
  have hstart : Sane q₀ := by
    obtain ⟨base, hbase, hq₀⟩ := Run.bind_ok hq₀
    cases hq₀
    exact ⟨(rep_ofArgs hbase).1, Nat.zero_le _⟩
  exact Run.steps_inv (G := fun _ op => Op.Sized op) (fun _ _ _ _ hsane hop hs => step_sane hsane hop hs) hstart
    (Run.along_of_forall (fun _ => hops) q₀) hrun

end

/-! ## A path of routers -/

/-- What a path does to a packet is determined by the modes. -/
theorem Path.contents {c c' : Bytes} {ms : List Nat} (h : Path c ms c') (hlen : 3 ≤ c.length) :
    c' = ms.foldl (fun c m => raise m c) c ∧ ∀ m ∈ ms, m ≤ 2 := by
  induction h with
  | nil c => exact ⟨rfl, by simp⟩
  | @hop c c₁ c' ms q q' clock arrival rest hq hhead hd _ ih =>
    obtain ⟨q₁, hd₁, hmode⟩ := dequeue_eq hq.sane hhead hlen clock
    rw [hd] at hd₁
    cases hd₁
    obtain ⟨hcontents, hmodes⟩ := ih (by rw [(raise_bytes hlen _).1]; exact hlen)
    refine ⟨hcontents, fun m hm => ?_⟩
    rcases List.mem_cons.1 hm with rfl | hm
    · exact hmode
    · exact hmodes m hm

theorem Path.part {c c' : Bytes} {ms ms' : List Nat} (h : Path c ms c') (hpart : ms' <+: ms) : ∃ c', Path c ms' c' := by
  induction h generalizing ms' with
  | nil c =>
    rw [List.prefix_nil.1 hpart]
    exact ⟨c, .nil c⟩
  | hop hq hhead hd _ ih =>
    cases ms' with
    | nil => exact ⟨_, .nil _⟩
    | cons m ms' =>
      obtain ⟨rfl, hrest⟩ := List.cons_prefix_cons.1 hpart
      obtain ⟨c', hpath⟩ := ih hrest
      exact ⟨c', .hop hq hhead hd hpath⟩

theorem le_foldl_max : ∀ (ms : List Nat) (m : Nat), m ≤ ms.foldl max m
  | [], _ => le_rfl
  | n :: ms, m => (le_max_left m n).trans (le_foldl_max ms (max m n))

/-- From a level on, every part of a path leaves the highest level there was exactly when the highest of all is in
the range of a `char`. -/
theorem Level.path_iff {x : Int} : ∀ {ms : List Nat} {m : Nat} {c : Bytes}, Level x m c → (∀ n ∈ ms, n ≤ 2) →
    ((∀ ms', ms' <+: ms → VCPPacketQueue.decode (ms'.foldl (fun c m => VCPPacketQueue.raise m c) c) = ms'.foldl max m) ↔
      x + (ms.foldl max m : Nat) ≤ 127 ∧ -128 ≤ x - (ms.foldl max m : Nat))
  | [], m, c, h, _ => by
    have hhigh := ofChar_bound (VCPPacketQueue.last c)
    have hlow := ofChar_bound (VCPPacketQueue.thirdLast c)
    rw [h.last] at hhigh
    rw [h.thirdLast] at hlow
    constructor
    · intro _
      exact ⟨hhigh.2, hlow.1⟩
    · intro _ ms' hpart
      rw [List.prefix_nil.1 hpart]
      exact h.decode
  | n :: ms, m, c, h, hms => by
    have hn := hms n (List.mem_cons_self ..)
    have hle := le_foldl_max ms (max m n)
    rw [List.foldl_cons]
    by_cases hin : x + (max m n : Nat) ≤ 127 ∧ -128 ≤ x - (max m n : Nat)
    · rw [← Level.path_iff (h.raise hn hin.1 hin.2) (fun k hk => hms k (List.mem_cons_of_mem _ hk))]
      constructor
      · intro hall ms' hpart
        exact hall (n :: ms') (List.cons_prefix_cons.2 ⟨rfl, hpart⟩)
      · intro hrest ms' hpart
        cases ms' with
        | nil => exact h.decode
        | cons n' ms' =>
          obtain ⟨rfl, hpart'⟩ := List.cons_prefix_cons.1 hpart
          exact hrest ms' hpart'
    · constructor
      · intro hall
        exact absurd (hall [n] (List.cons_prefix_cons.2 ⟨rfl, List.nil_prefix⟩)) (h.lost hn hin)
      · intro hout
        omega

/-- A packet whose two bytes are equal has, after every part of a path of routers, the highest of the modes so far,
exactly when the highest of all can be added to the byte, and taken off it, in the range of a signed `char`. -/
theorem level_kept_iff {c c' : Bytes} {ms : List Nat} (hlen : 3 ≤ c.length) (hequal : last c = thirdLast c)
    (hpath : Path c ms c') :
    (∀ ms' c', ms' <+: ms → Path c ms' c' → decode c' = ms'.foldl max 0) ↔
      ofChar (last c) + (ms.foldl max 0 : Nat) ≤ 127 ∧ -128 ≤ ofChar (last c) - (ms.foldl max 0 : Nat) := by
  have hstart : Level (ofChar (last c)) 0 c := ⟨hlen, by simp, by simp [hequal], by decide⟩
  rw [← hstart.path_iff (hpath.contents hlen).2]
  constructor
  · intro hall ms' hpart
    obtain ⟨c', hpath'⟩ := hpath.part hpart
    rw [← (hpath'.contents hlen).1]
    exact hall ms' c' hpart hpath'
  · intro hall ms' c' hpart hpath'
    rw [(hpath'.contents hlen).1]
    exact hall ms' hpart

instance : ∀ op, Decidable (Op.Sized op)
  | .enqueue p _ => inferInstanceAs (Decidable (Sized p))
  | .dequeue _ => inferInstanceAs (Decidable True)

/-- A router that has just been set up. -/
def idle : VCPPacketQueue := { base := { packetLimit := 10, byteLimit := 0 } }

/-- After these calls, the first packet, and the mode of the router and what it makes of the packet at 201 ms. -/
def served (ops : List Op) : Except Hazard (Option QueuedPacket × Nat × QueuedPacket) := do
  let (_, q) ← Run.steps step idle ops
  let (ret, _) ← q.dequeue 201
  pure (q.base.internalQueue.head?, q.nextMode 201, ret)

theorem path_served (ops : List Op) {c c'' : Bytes} (c' : Bytes) {m : Nat} {ms : List Nat} (hops : ∀ op ∈ ops, op.Sized)
    (h : served ops = .ok (some ⟨c, 0⟩, m, ⟨c', 0⟩)) (hrest : Path c' ms c'') : Path c (m :: ms) c'' := by
  obtain ⟨⟨outs, q⟩, hrun, h⟩ := Run.bind_ok h
  obtain ⟨⟨ret, q'⟩, hd, h⟩ := Run.bind_ok h
  have hserved := Except.ok.inj h
  simp only [Prod.mk.injEq] at hserved
  obtain ⟨hhead, rfl, rfl⟩ := hserved
  obtain ⟨rest, hqueue⟩ := List.head?_eq_some_iff.1 hhead
  exact .hop ⟨10, 0, idle, ops, outs, rfl, hops, hrun⟩ hqueue hd hrest

/-- A packet of equal bytes but for the two that carry the level. -/
def levelled (b : UInt8) (level : UInt8) : Bytes := List.replicate 25 b ++ [b - level, b, b + level]

/-- When a packet has arrived and nothing has left for 200 ms, the router is in its highest mode. -/
def highest (c : Bytes) : List Op := [.enqueue ⟨c, 0⟩ 0]

/-- Bytes of 0 carry the level, over a router in the middle mode, one in the highest and one in the lowest. -/
theorem level_kept_small : Path (levelled 0 0) [1, 2, 0] (levelled 0 2) ∧ decode (levelled 0 2) = 2 := by
  have hpath : Path (levelled 0 0) [1, 2, 0] (levelled 0 2) := by
    refine path_served ((List.replicate 3 (.dequeue 120)) ++ List.replicate 2 (.enqueue ⟨levelled 0 0, 0⟩ 180)) (levelled 0 1) ?_ ?_ <|
      path_served (highest (levelled 0 1)) (levelled 0 2) ?_ ?_ <|
      path_served ((List.replicate 3 (.dequeue 120)) ++ [.enqueue ⟨levelled 0 2, 0⟩ 180]) _ ?_ ?_ (.nil _)
    all_goals decide +kernel
  exact ⟨hpath, (level_kept_iff (by decide) (by decide) hpath).2 (by decide) [1, 2, 0] _ (List.prefix_refl _) hpath⟩

/-- A byte of 127 wraps around: after a router in the highest mode there is no level to read. -/
theorem level_wraps : last (List.replicate 28 127) = thirdLast (List.replicate 28 127) ∧
    ∃ c', Path (List.replicate 28 127) [2] c' ∧ c' = List.replicate 25 127 ++ [125, 127, 129] ∧ decode c' = 0 ∧
      decode c' ≠ [2].foldl max 0 :=
  ⟨rfl, _, path_served (highest (List.replicate 28 127)) _ (by decide) (by decide +kernel) (.nil _), rfl, by decide, by decide⟩

end VCPPacketQueue

end AbcMahimahi.Packet
