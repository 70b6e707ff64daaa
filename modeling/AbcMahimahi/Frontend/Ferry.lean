/-
The ferry of `PacketShell` (packetshell.cc): the event loop around a queue between two TUN devices. What
comes from the one device goes into the queue, and what the queue has ready goes to the other one. The
queue is any of those that the shells of mahimahi put there.
-/
import AbcMahimahi.Lib.LossyLine
import AbcMahimahi.Util.Poller

namespace AbcMahimahi.Frontend

open Bytes LossyLine EventLoop Poller

/-- What `timestamp()` returns each time it is called, from the first call on, and a bound on it. -/
structure Readings where
  reading : Nat → Nat
  last : Nat
  monotone : Monotone reading
  le_last : ∀ i, reading i ≤ last

def Readings.first (r : Readings) : Nat := r.reading 0

/-- The clock stands still. -/
def Readings.const (now : Nat) : Readings := ⟨fun _ => now, now, monotone_const, fun _ => le_rfl⟩

/-- What `PacketShell` asks of its queue. A packet is written at one of the readings. -/
class FerryQueue (Q : Type) where
  readPacket : Q → Readings → Bytes → Except Fault Q
  writePackets : Q → Readings → List (Nat × Bytes) × Q
  waitTime : Q → Readings → Except Fault (Nat × Q)
  pendingOutput : Q → Readings → Bool
  finished : Q → Bool

/-- `Ferry`, with the packets that it has read and written so far. -/
structure Ferry (Q : Type) where
  queue : Q
  tun : FileDescriptor := {}
  sibling : FileDescriptor := {}
  signalFd : FileDescriptor := {}
  children : List Managed := []
  received : List (Nat × Bytes) := []
  sent : List (Nat × Bytes) := []

/-- A turn of the loop: what the clock says in each call, what `::poll` returns, the packet that the TUN
device has to read, and the signal. `::read` may fail, and so may each `::write`. -/
structure Round where
  waited : Readings
  kernel : Kernel
  asked : Readings
  packet : Bytes
  read : Readings
  written : Readings
  signal : Signal
  readFails : Bool := false
  writeFails : Nat → Bool := fun _ => false

namespace Ferry

variable {Q : Type} [FerryQueue Q]

/-- The TUN device gets a datagram: read it and give it to the queue. -/
def readTun (r : Round) (f : Ferry Q) : Except Fault (Reply × Ferry Q) := do
  let (packet, tun) ← f.tun.readSome (if r.readFails then none else some r.packet)
  let queue ← FerryQueue.readPacket f.queue r.read packet
  pure ({}, { f with queue := queue, tun := tun, received := f.received ++ [(r.read.first, packet)] })

/-- A TUN device takes each packet whole, in one call, unless that call fails. -/
def writeAll (fails : Nat → Bool) : List Bytes → FileDescriptor → Except Fault FileDescriptor
  | [], fd => pure fd
  | packet :: packets, fd => do
    let (_, fd) ← fd.write (fun _ offered => if fails 0 then none else some offered.length) packet
    writeAll (fun call => fails (call + 1)) packets fd

/-- The queue is ready to write datagrams: send them to the sibling's TUN device. -/
def writeSibling (r : Round) (f : Ferry Q) : Except Fault (Reply × Ferry Q) := do
  let (written, queue) := FerryQueue.writePackets f.queue r.written
  let sibling ← writeAll r.writeFails (written.map Prod.snd) f.sibling
  pure ({}, { f with queue := queue, sibling := sibling, sent := f.sent ++ written })

def readSignal (r : Round) (f : Ferry Q) : Except Fault (Reply × Ferry Q) := do
  let (result, _, children) ← handleSignal f.children r.signal
  pure ({ result := result }, { f with signalFd := f.signalFd.registerRead, children := children })

/-- The actions of `Ferry::loop`, and the one of `internal_loop` behind them. -/
def actions : List (Action Round (Ferry Q)) :=
  [{ fd := Ferry.tun, direction := .input, callback := readTun },
   { fd := Ferry.sibling, direction := .output, callback := writeSibling
     whenInterested := fun r f => FerryQueue.pendingOutput f.queue r.asked },
   -- exit if finished
   { fd := Ferry.sibling, direction := .output, callback := fun _ f => pure ({ result := .exit, exitStatus := 77 }, f)
     whenInterested := fun _ f => FerryQueue.finished f.queue },
   { fd := Ferry.signalFd, direction := .input, callback := readSignal }]

/-- A turn of `internal_loop`; none of the callbacks cancels its action. -/
def turn (f : Ferry Q) (r : Round) : Except Fault (Poller.Result × Ferry Q) := do
  let (_, queue) ← FerryQueue.waitTime f.queue r.waited
  let (result, _, f) ← poll r.kernel r actions { f with queue := queue }
  pure (result, f)

/-- `internal_loop`, as far as the rounds go: the exit status, if there is one. -/
def loop (f : Ferry Q) : List Round → Except Fault (Option Nat × Ferry Q)
  | [] => pure (none, f)
  | r :: rs => do
    let (result, f) ← f.turn r
    match result with
    | .exit status => pure (some status, f)
    | _ => loop f rs

end Ferry

/-! ## Queues that are lines -/

/-- Something is ready to be written from the time given on. -/
def Ready {Q : Type} [FerryQueue Q] (q : Q) (now : Nat) : Prop :=
  ∀ r : Readings, now ≤ r.first → (FerryQueue.writePackets q r).1 ≠ []

/-- The items that are still held, each with its time as before. -/
def Kept (same : Bytes → Bytes → Prop) (l' l : List (Nat × Bytes)) : Prop :=
  List.SublistForall₂ (fun o i => same i.2 o.2 ∧ o.1 = i.1) l' l

/-- The items that are written, no earlier than they may leave. -/
def Written (r : Readings) (out gone : List (Nat × Bytes)) : Prop :=
  List.Forall₂ (fun o g => o.2 = g.2 ∧ g.1 ≤ o.1 ∧ o.1 ≤ r.last) out gone

/-- A queue for a ferry is a line that holds packets back for `d` at least. `Holds q l` says which packets
are in it, with the times before which they do not leave. -/
structure Line {Q : Type} [FerryQueue Q] (same : Bytes → Bytes → Prop) (d : Nat) (Holds : Q → List (Nat × Bytes) → Prop) : Prop where
  read : ∀ {q q' : Q} {l : List (Nat × Bytes)} {r : Readings} {contents : Bytes}, Holds q l → r.last + 2 ^ 31 ≤ 2 ^ 64 →
    contents ≠ [] → FerryQueue.readPacket q r contents = .ok q' →
    ∃ l', Holds q' l' ∧ Kept same l' (l ++ [(r.first + d, contents)])
  wait : ∀ {q q' : Q} {l : List (Nat × Bytes)} {r : Readings} {w : Nat}, Holds q l → FerryQueue.waitTime q r = .ok (w, q') →
    ∃ l', Holds q' l' ∧ Kept same l' l
  write : ∀ {q : Q} {l : List (Nat × Bytes)} (r : Readings), Holds q l → (∀ p ∈ l, p.1 ≤ r.first + d) →
    ∃ gone l', Holds (FerryQueue.writePackets q r).2 l' ∧ Kept same (gone ++ l') l ∧
      Written r (FerryQueue.writePackets q r).1 gone
  pending : ∀ {q : Q} {l : List (Nat × Bytes)} {r : Readings}, Holds q l → (∀ p ∈ l, p.1 ≤ r.first + d) →
    FerryQueue.pendingOutput q r = true → Ready q r.first
  stays : ∀ {q q' : Q} {r : Readings} {now : Nat} {contents : Bytes}, Ready q now →
    FerryQueue.readPacket q r contents = .ok q' → Ready q' now

/-- What a line may do to a packet: nothing, or one thing and then another, but it leaves something of it. -/
structure Rewrites (same : Bytes → Bytes → Prop) : Prop where
  refl : ∀ a, same a a
  trans : ∀ a b c, same a b → same b c → same a c
  nonempty : ∀ a b, same a b → a ≠ [] → b ≠ []

section

variable {Q : Type} {same : Bytes → Bytes → Prop} {d : Nat} {Holds : Q → List (Nat × Bytes) → Prop}

theorem Kept.through {l' l : List (Nat × Bytes)} (h : Kept same l' l) : Through same 0 l' l :=
  part_imp (fun _ _ hk => ⟨hk.1, le_of_eq (by rw [hk.2, add_zero])⟩) h

theorem Written.through (hsame : Rewrites same) {r : Readings} {out gone : List (Nat × Bytes)} (h : Written r out gone) :
    Through same 0 out gone :=
  part_of_forall₂ (h.imp fun _ g hog => ⟨hog.1 ▸ hsame.refl g.2, hog.2.1⟩)

theorem Written.times {r : Readings} : ∀ {out gone : List (Nat × Bytes)}, Written r out gone → ∀ o ∈ out, o.1 ≤ r.last
  | [], _, _, o, ho => absurd ho List.not_mem_nil
  | _ :: _, _, .cons h hs, o, ho => by
    rcases List.mem_cons.1 ho with rfl | ho
    · exact h.2.2
    · exact Written.times hs o ho

/-- A ferry whose queue is a line, up to the time given. -/
structure Carries (same : Bytes → Bytes → Prop) (d : Nat) (Holds : Q → List (Nat × Bytes) → Prop) (now : Nat) (f : Ferry Q) : Prop where
  held : ∃ l, Holds f.queue l ∧ (∀ p ∈ l, p.1 ≤ now + d) ∧ Through same d (f.sent ++ l) f.received
  past : ∀ p ∈ f.received, p.1 ≤ now ∧ p.2 ≠ []
  sent : ∀ p ∈ f.sent, p.1 ≤ now

namespace Carries

variable {now now' : Nat} {f : Ferry Q}

theorem later (h : Carries same d Holds now f) (hle : now ≤ now') : Carries same d Holds now' f := by
  obtain ⟨l, hholds, hl, hthrough⟩ := h.held
  refine ⟨⟨l, hholds, fun p hp => ?_, hthrough⟩, fun p hp => ?_, fun p hp => (h.sent p hp).trans hle⟩
  · exact (hl p hp).trans (Nat.add_le_add_right hle d)
  · exact ⟨(h.past p hp).1.trans hle, (h.past p hp).2⟩

/-- What has come out is part of what went in. -/
theorem through (h : Carries same d Holds now f) : Through same d f.sent f.received := by
  obtain ⟨l, -, -, hthrough⟩ := h.held
  exact hthrough.mono (List.sublist_append_left _ _) (List.Sublist.refl _)

variable [FerryQueue Q]

theorem wait (hline : Line same d Holds) (hsame : Rewrites same) (h : Carries same d Holds now f) {r : Readings} {w : Nat} {queue : Q}
    (hwait : FerryQueue.waitTime f.queue r = .ok (w, queue)) : Carries same d Holds now { f with queue := queue } := by
  obtain ⟨l, hholds, hl, hthrough⟩ := h.held
  obtain ⟨l', hholds', hkept⟩ := hline.wait hholds hwait
  refine ⟨⟨l', hholds', fun p hp => ?_, ?_⟩, h.past, h.sent⟩
  · obtain ⟨x, hx, hpx⟩ := part_mem hkept p hp
    rw [hpx.2]
    exact hl x hx
  · have hpart : Through same 0 (f.sent ++ l') (f.sent ++ l) := (through_refl hsame.refl f.sent).append hkept.through
    exact hpart.trans hsame.trans hthrough

theorem readTun (hline : Line same d Holds) (hsame : Rewrites same) (h : Carries same d Holds now f) {r : Round} {queue : Q}
    (hle : now ≤ r.read.first) (hwrap : r.read.last + 2 ^ 31 ≤ 2 ^ 64) (hpacket : r.packet ≠ [])
    (hread : FerryQueue.readPacket f.queue r.read r.packet = .ok queue) (tun : FileDescriptor) :
    Carries same d Holds r.read.first
      { f with queue := queue, tun := tun, received := f.received ++ [(r.read.first, r.packet)] } := by
  obtain ⟨l, hholds, hl, hthrough⟩ := h.held
  obtain ⟨l', hholds', hkept⟩ := hline.read hholds hwrap hpacket hread
  refine ⟨⟨l', hholds', fun p hp => ?_, ?_⟩, fun p hp => ?_, fun p hp => (h.sent p hp).trans hle⟩
  · obtain ⟨x, hx, hpx⟩ := part_mem hkept p hp
    rw [hpx.2]
    rcases List.mem_append.1 hx with hx | hx
    · exact (hl x hx).trans (Nat.add_le_add_right hle d)
    · rw [List.mem_singleton.1 hx]
  -- what was read is the last to go, after its own delay
  · have hpart : Through same 0 (f.sent ++ l') (f.sent ++ (l ++ [(r.read.first + d, r.packet)])) :=
      (through_refl hsame.refl f.sent).append hkept.through
    have hlast : Through same d [(r.read.first + d, r.packet)] [(r.read.first, r.packet)] :=
      .cons ⟨hsame.refl _, le_rfl⟩ .nil
    have hall := hthrough.append hlast
    rw [List.append_assoc] at hall
    exact hpart.trans hsame.trans hall
  · rcases List.mem_append.1 hp with hp | hp
    · exact ⟨(h.past p hp).1.trans hle, (h.past p hp).2⟩
    · rw [List.mem_singleton.1 hp]
      exact ⟨le_rfl, hpacket⟩

/-- No more packets are written than have been read, and none of them is empty. -/
theorem written (hline : Line same d Holds) (hsame : Rewrites same) (h : Carries same d Holds now f) {r : Readings}
    (hle : now ≤ r.first) : (FerryQueue.writePackets f.queue r).1.length ≤ f.received.length ∧
      ∀ o ∈ (FerryQueue.writePackets f.queue r).1, o.2 ≠ [] := by
  obtain ⟨l, hholds, hl, hthrough⟩ := h.held
  obtain ⟨gone, l', -, hkept, hwritten⟩ := hline.write r hholds fun p hp => (hl p hp).trans (Nat.add_le_add_right hle d)
  have hgone : Through same 0 gone l := hkept.through.mono (List.sublist_append_left _ _) (List.Sublist.refl _)
  have hpart : Through same d l f.received := hthrough.mono (List.sublist_append_right _ _) (List.Sublist.refl _)
  have hout : Through same (d + 0 + 0) (FerryQueue.writePackets f.queue r).1 f.received :=
    (hwritten.through hsame).trans hsame.trans (hgone.trans hsame.trans hpart)
  refine ⟨part_length hout, fun o ho => ?_⟩
  obtain ⟨i, hi, hafter⟩ := part_mem hout o ho
  exact hsame.nonempty _ _ hafter.1 (h.past i hi).2

theorem writeSibling (hline : Line same d Holds) (hsame : Rewrites same) (h : Carries same d Holds now f) {r : Readings}
    (hle : now ≤ r.first) (sibling : FileDescriptor) :
    Carries same d Holds r.last { f with
      queue := (FerryQueue.writePackets f.queue r).2
      sibling := sibling
      sent := f.sent ++ (FerryQueue.writePackets f.queue r).1 } := by
  obtain ⟨l, hholds, hl, hthrough⟩ := h.held
  have hfirst : r.first ≤ r.last := r.le_last 0
  obtain ⟨gone, l', hholds', hkept, hwritten⟩ := hline.write r hholds fun p hp => (hl p hp).trans (Nat.add_le_add_right hle d)
  refine ⟨⟨l', hholds', fun p hp => ?_, ?_⟩, fun p hp => ?_, fun p hp => ?_⟩
  · obtain ⟨x, hx, hpx⟩ := part_mem hkept p (List.mem_append_right _ hp)
    rw [hpx.2]
    exact (hl x hx).trans (Nat.add_le_add_right (hle.trans hfirst) d)
  -- what is written and what stays were together in the queue
  · have hout : Through same (0 + 0) ((FerryQueue.writePackets f.queue r).1 ++ l') l :=
      ((hwritten.through hsame).append (through_refl hsame.refl l')).trans hsame.trans hkept.through
    have hpart := ((through_refl hsame.refl f.sent).append hout).trans hsame.trans hthrough
    rw [← List.append_assoc] at hpart
    exact hpart
  · exact ⟨(h.past p hp).1.trans (hle.trans hfirst), (h.past p hp).2⟩
  · rcases List.mem_append.1 hp with hp | hp
    · exact (h.sent p hp).trans (hle.trans hfirst)
    · exact hwritten.times p hp

end Carries

end

/-! ## A turn -/

namespace Ferry

/-- What is read is the packet that the device had. -/
theorem readTun_ok {Q : Type} [FerryQueue Q] {r : Round} {f f' : Ferry Q} {reply : Reply} (h : readTun r f = .ok (reply, f')) :
    ∃ queue, FerryQueue.readPacket f.queue r.read r.packet = .ok queue ∧ reply = {} ∧
      f' = { f with queue := queue, tun := f.tun.read r.packet, received := f.received ++ [(r.read.first, r.packet)] } := by
  unfold readTun at h
  obtain ⟨⟨packet, tun⟩, hsome, h⟩ := Run.bind_ok h
  obtain ⟨queue, hread, h⟩ := Run.bind_ok h
  split at hsome
  · cases hsome
  · cases hsome
    cases h
    exact ⟨queue, hread, rfl, rfl⟩

theorem readTun_error {Q : Type} [FerryQueue Q] {r : Round} {f : Ferry Q} {e : Fault} (h : readTun r f = .error e) :
    r.readFails = true ∧ e = .unixError "read" ∨ FerryQueue.readPacket f.queue r.read r.packet = .error e := by
  unfold readTun at h
  by_cases hfails : r.readFails = true
  · rw [if_pos hfails] at h
    cases h
    exact Or.inl ⟨hfails, rfl⟩
  · rw [if_neg hfails, show f.tun.readSome (some r.packet) = .ok (r.packet, f.tun.read r.packet) from rfl, Run.ok_bind] at h
    rcases Run.bind_error h with h | ⟨queue, -, h⟩
    · exact Or.inr h
    · cases h

theorem write_packet {fd : FileDescriptor} {packet : Bytes} (fails : Bool) (h : packet ≠ []) :
    fd.write (fun _ offered => if fails then none else some offered.length) packet =
      if fails then .error (.unixError "write") else .ok ([packet], fd.registerWrite) := by
  have hlen : packet.length ≠ 0 := fun hzero => h (List.eq_nil_of_length_eq_zero hzero)
  obtain ⟨turns, hturns⟩ : ∃ turns, max 1 packet.length = turns + 1 := ⟨max 1 packet.length - 1, by omega⟩
  unfold FileDescriptor.write FileDescriptor.writeLoop FileDescriptor.writeSome
  rw [hturns]
  dsimp only
  rw [if_neg (by simpa using h)]
  cases fails with
  | true => rfl
  | false =>
    simp only [Bool.false_eq_true, if_false, if_neg hlen]
    simp

/-- One of the calls fails, or all packets are written. -/
theorem writeAll_cases : ∀ (fails : Nat → Bool) {packets : List Bytes} {fd : FileDescriptor}, (∀ p ∈ packets, p ≠ []) →
    (∃ call, fails call = true) ∧ writeAll fails packets fd = .error (.unixError "write") ∨
    writeAll fails packets fd = .ok (FileDescriptor.registerWrite^[packets.length] fd)
  | _, [], _, _ => Or.inr rfl
  | fails, packet :: packets, fd, h => by
    unfold writeAll
    rw [write_packet (fails 0) (h packet (List.mem_cons_self ..))]
    by_cases hfirst : fails 0 = true
    · rw [if_pos hfirst]
      exact Or.inl ⟨⟨0, hfirst⟩, rfl⟩
    · rw [if_neg hfirst, Run.ok_bind]
      rcases @writeAll_cases (fun call => fails (call + 1)) packets fd.registerWrite fun p hp => h p (List.mem_cons_of_mem _ hp) with ⟨⟨call, hcall⟩, herr⟩ | hok
      · exact Or.inl ⟨⟨call + 1, hcall⟩, herr⟩
      · exact Or.inr hok

theorem writeSibling_cases {Q : Type} [FerryQueue Q] {r : Round} {f : Ferry Q}
    (h : ∀ o ∈ (FerryQueue.writePackets f.queue r.written).1, o.2 ≠ []) :
    (∃ call, r.writeFails call = true) ∧ writeSibling r f = .error (.unixError "write") ∨
    writeSibling r f = .ok ({}, { f with
      queue := (FerryQueue.writePackets f.queue r.written).2
      sibling := FileDescriptor.registerWrite^[(FerryQueue.writePackets f.queue r.written).1.length] f.sibling
      sent := f.sent ++ (FerryQueue.writePackets f.queue r.written).1 }) := by
  have hnonempty : ∀ p ∈ (FerryQueue.writePackets f.queue r.written).1.map Prod.snd, p ≠ [] := by
    intro p hp
    obtain ⟨o, ho, rfl⟩ := List.mem_map.1 hp
    exact h o ho
  unfold writeSibling
  dsimp only
  rcases @writeAll_cases r.writeFails _ f.sibling hnonempty with ⟨hcall, herr⟩ | hok
  · rw [herr]
    exact Or.inl ⟨hcall, rfl⟩
  · rw [hok, List.length_map]
    exact Or.inr rfl

end Ferry

/-- The calls of a round come one after the other, from the time given on, and the clock is not about to wrap. -/
structure Round.Timed (start : Nat) (r : Round) : Prop where
  waited : start ≤ r.waited.first
  asked : r.waited.last ≤ r.asked.first
  read : r.asked.last ≤ r.read.first
  written : r.read.last ≤ r.written.first
  wrap : r.written.last + 2 ^ 31 ≤ 2 ^ 64
  packet : r.packet ≠ []

/-- What can fail in a turn: the queue, the signal handler, or a call of the system. -/
inductive TurnFault {Q : Type} [FerryQueue Q] (f : Ferry Q) (r : Round) : Fault → Prop
  | wait {e : Fault} (h : FerryQueue.waitTime f.queue r.waited = .error e) : TurnFault f r e
  | read {q : Q} {e : Fault} (h : FerryQueue.readPacket q r.read r.packet = .error e) : TurnFault f r e
  | tun (h : r.readFails = true) : TurnFault f r (.unixError "read")
  | sibling {call : Nat} (h : r.writeFails call = true) : TurnFault f r (.unixError "write")
  | signal {children : List Managed} {e : Fault} (h : handleSignal children r.signal = .error e) : TurnFault f r e
  | poll (h : r.kernel = .failure) : TurnFault f r (.unixError "poll")

/-- What the queue throws is in `B`. -/
structure QueueThrows (B : Fault → Prop) (Q : Type) [FerryQueue Q] : Prop where
  read : ∀ (q : Q) (r : Readings) (contents : Bytes), Run.Throws B (FerryQueue.readPacket q r contents)
  wait : ∀ (q : Q) (r : Readings), Run.Throws B (FerryQueue.waitTime q r)

theorem TurnFault.notIdle {Q : Type} [FerryQueue Q] {f : Ferry Q} {r : Round} {e : Fault} (h : TurnFault f r e)
    (hqueue : QueueThrows NotIdle Q) : NotIdle e := by
  cases h with
  | wait h => exact hqueue.wait _ _ _ h
  | read h => exact hqueue.read _ _ _ _ h
  | signal h => exact handleSignal_throws _ _ _ h
  | tun _ | sibling _ | poll _ => exact notIdle_unixError _

section

variable {Q : Type} [FerryQueue Q] {same : Bytes → Bytes → Prop} {d : Nat} {Holds : Q → List (Nat × Bytes) → Prop}

/-- Up to when the ferry has got before the `n`-th of its actions. -/
def Round.reached (r : Round) : Nat → Nat
  | 0 => r.asked.last
  | 1 => r.read.last
  | _ => r.written.last

/-- What a turn may have read. -/
def Round.Reads (r : Round) (before after : List (Nat × Bytes)) : Prop :=
  after = before ∨ after = before ++ [(r.read.first, r.packet)]

theorem Round.Timed.reached_le {start : Nat} {r : Round} (h : r.Timed start) (n : Nat) : r.reached n ≤ r.written.last := by
  have hread := r.read.le_last 0
  have hwritten := r.written.le_last 0
  have := h.read
  have := h.written
  unfold Readings.first at *
  unfold Round.reached
  split <;> omega

theorem Round.Timed.reached_succ {start : Nat} {r : Round} (h : r.Timed start) (n : Nat) : r.reached n ≤ r.reached (n + 1) := by
  match n with
  | 0 =>
    have := r.read.le_last 0
    exact h.read.trans this
  | 1 =>
    have := r.written.le_last 0
    exact h.written.trans this
  | n + 2 => exact le_rfl

/-- In a turn, between its actions: `n` of them are through. The queue is the one that the poller asked. -/
structure Within (same : Bytes → Bytes → Prop) (d : Nat) (Holds : Q → List (Nat × Bytes) → Prop) (received : List (Nat × Bytes))
    (queue : Q) (r : Round) (n : Nat) (t : Ferry Q) : Prop where
  carries : Carries same d Holds (r.reached n) t
  reads : r.Reads received t.received
  fresh : n = 0 → t.received = received
  ready : n ≤ 1 → FerryQueue.pendingOutput queue r.asked = true → Ready t.queue r.asked.first

namespace Within

variable {received : List (Nat × Bytes)} {queue : Q} {r : Round} {start n : Nat} {t t' : Ferry Q} {reply : Reply}

theorem skip (h : Within same d Holds received queue r n t) (ht : r.Timed start) : Within same d Holds received queue r (n + 1) t :=
  ⟨h.carries.later (ht.reached_succ n), h.reads, fun hn => absurd hn (Nat.succ_ne_zero n), fun hn => h.ready (Nat.le_of_succ_le hn)⟩

/-- A packet is read. -/
theorem read (hline : Line same d Holds) (hsame : Rewrites same) (h : Within same d Holds received queue r 0 t) (ht : r.Timed start)
    (hs : Ferry.readTun r t = .ok (reply, t')) :
    reply.result = .cont ∧ t.tun.readCount ≠ t'.tun.readCount ∧ Within same d Holds received queue r 1 t' := by
  obtain ⟨q', hread, rfl, rfl⟩ := Ferry.readTun_ok hs
  have hwrap : r.read.last + 2 ^ 31 ≤ 2 ^ 64 := by
    have := r.written.le_last 0
    have := ht.written
    have := ht.wrap
    unfold Readings.first at *
    omega
  have hnext := h.carries.readTun hline hsame ht.read hwrap ht.packet hread (t.tun.read r.packet)
  refine ⟨rfl, FileDescriptor.readCount_moves _ _, hnext.later (r.read.le_last 0), ?_, fun hn => absurd hn (Nat.succ_ne_zero 0), ?_⟩
  · rw [h.fresh rfl]
    exact Or.inr rfl
  · exact fun _ hpending => hline.stays (h.ready (Nat.zero_le _) hpending) hread

/-- What is ready is written, for it was there when the poller asked, unless the device fails. -/
theorem write (hline : Line same d Holds) (hsame : Rewrites same) (h : Within same d Holds received queue r 1 t) (ht : r.Timed start)
    (hasked : FerryQueue.pendingOutput queue r.asked = true) (hcount : received.length + 1 < 2 ^ 32) :
    (∃ call, r.writeFails call = true) ∧ Ferry.writeSibling r t = .error (.unixError "write") ∨
    ∃ t', Ferry.writeSibling r t = .ok ({}, t') ∧ t.sibling.writeCount ≠ t'.sibling.writeCount ∧
      Within same d Holds received queue r 2 t' := by
  have hlen : t.received.length < 2 ^ 32 := by
    rcases h.reads with heq | heq
    · rw [heq]
      omega
    · rw [heq, List.length_append, List.length_singleton]
      exact hcount
  have hpast : r.asked.first ≤ r.written.first :=
    (r.asked.le_last 0).trans (ht.read.trans ((r.read.le_last 0).trans ht.written))
  have hready := h.ready le_rfl hasked r.written hpast
  obtain ⟨hfew, hnonempty⟩ := h.carries.written hline hsame ht.written
  have hnext := h.carries.writeSibling hline hsame ht.written
    (FileDescriptor.registerWrite^[(FerryQueue.writePackets t.queue r.written).1.length] t.sibling)
  refine (Ferry.writeSibling_cases hnonempty).imp_right fun hwrite => ?_
  refine ⟨_, hwrite, ?_, hnext, h.reads, fun hn => absurd hn (by decide), fun hn => absurd hn (by decide)⟩
  exact FileDescriptor.writeCount_moves _ (fun hzero => hready (List.eq_nil_of_length_eq_zero hzero)) (hfew.trans_lt hlen)

theorem signal (h : Within same d Holds received queue r 3 t) (hs : Ferry.readSignal r t = .ok (reply, t')) :
    t.signalFd.readCount ≠ t'.signalFd.readCount ∧ Within same d Holds received queue r 4 t' := by
  obtain ⟨x, -, hs⟩ := Run.bind_ok hs
  cases hs
  refine ⟨?_, ⟨h.carries.held, h.carries.past, h.carries.sent⟩, h.reads, fun hn => absurd hn (by decide), fun hn => absurd hn (by decide)⟩
  show t.signalFd.readCount ≠ u32 (t.signalFd.readCount + 1)
  unfold u32
  omega

end Within

/-- A turn of a ferry around a line: no busy wait, no empty packet, and the line carries on. -/
theorem turn_carries (hline : Line same d Holds) (hsame : Rewrites same) {now : Nat} {f : Ferry Q} {r : Round}
    (h : Carries same d Holds now f) (ht : r.Timed now) (hcount : f.received.length + 1 < 2 ^ 32) :
    (∀ e, f.turn r = .error e → TurnFault f r e) ∧
    ∀ result f', f.turn r = .ok (result, f') → Carries same d Holds r.written.last f' ∧ r.Reads f.received f'.received := by
  unfold Ferry.turn
  cases hwait : FerryQueue.waitTime f.queue r.waited with
  | error e =>
    refine ⟨fun e' he => ?_, fun result f' hs => (by cases hs)⟩
    cases he
    exact .wait hwait
  | ok x =>
    obtain ⟨w, queue⟩ := x
    rw [Run.ok_bind]
    dsimp only
    have hfirst : now ≤ r.asked.first := ht.waited.trans ((r.waited.le_last 0).trans ht.asked)
    have hwaited := (h.wait hline hsame hwait).later hfirst
    have hstart : Within same d Holds f.received queue r 0 { f with queue := queue } := by
      obtain ⟨l, hholds, hl, -⟩ := hwaited.held
      exact ⟨hwaited.later (r.asked.le_last 0), Or.inl rfl, fun _ => rfl, fun _ => hline.pending hholds hl⟩
    have hpoll : (∀ e, poll r.kernel r Ferry.actions { f with queue := queue } = .error e → TurnFault f r e) ∧
        ∀ result actions f', poll r.kernel r Ferry.actions { f with queue := queue } = .ok (result, actions, f') →
          Carries same d Holds r.written.last f' ∧ r.Reads f.received f'.received := by
      -- each way out of the poll leaves the state of the last callback
      have hend : ∀ {n : Nat} {t : Ferry Q}, Within same d Holds f.received queue r n t →
          Carries same d Holds r.written.last t ∧ r.Reads f.received t.received :=
        fun {n _} h => ⟨h.carries.later (ht.reached_le n), h.reads⟩
      refine poll_steady (I := Within same d Holds f.received queue r)
        (P := fun _ t => Carries same d Holds r.written.last t ∧ r.Reads f.received t.received)
        hstart (fun _ => hend hstart) (fun _ => hend hstart) .poll (fun t => hend) (fun _ n t _ h _ => hend h)
        (fun _ n a t _ _ h _ => h.skip ht) ?_
      rintro n a t ha hasked hwithin
      match n, ha with
      -- the callbacks in the order of the constructor: the TUN device, the socket, the signals
      | 0, ha =>
        cases ha
        refine ⟨fun e he => ?_, fun reply t' hs => ?_⟩
        · rcases Ferry.readTun_error he with ⟨hfails, rfl⟩ | he
          · exact .tun hfails
          · exact .read he
        · obtain ⟨hcont, hmoves, hnext⟩ := hwithin.read hline hsame ht hs
          exact ⟨fun hexit => (by rw [hcont] at hexit; cases hexit), fun _ => ⟨fun hstuck => absurd hstuck hmoves, hnext⟩⟩
      | 1, ha =>
        cases ha
        rcases hwithin.write hline hsame ht hasked hcount with ⟨⟨call, hcall⟩, hwrite⟩ | ⟨t₁, hwrite, hmoves, hnext⟩
        · refine ⟨fun e he => ?_, fun reply t' hs => (by cases hwrite.symm.trans hs)⟩
          cases hwrite.symm.trans he
          exact .sibling hcall
        · refine ⟨fun e he => (by cases hwrite.symm.trans he), fun reply t' hs => ?_⟩
          cases hwrite.symm.trans hs
          exact ⟨fun hexit => (by cases hexit), fun _ => ⟨fun hstuck => absurd hstuck hmoves, hnext⟩⟩
      | 2, ha =>
        cases ha
        refine ⟨fun e he => (by cases he), fun reply t' hs => ?_⟩
        cases hs
        exact ⟨fun _ => hend hwithin, fun hne => absurd rfl hne⟩
      | 3, ha =>
        cases ha
        refine ⟨fun e he => ?_, fun reply t' hs => ?_⟩
        · rcases Run.bind_error he with he | ⟨_, -, he⟩
          · exact .signal he
          · cases he
        · obtain ⟨hmoves, hnext⟩ := hwithin.signal hs
          exact ⟨fun _ => hend hnext, fun _ => ⟨fun hstuck => absurd hstuck hmoves, hnext⟩⟩
    obtain ⟨herr, hok⟩ := hpoll
    refine ⟨fun e he => ?_, fun result f' hs => ?_⟩
    · rcases Run.bind_error he with he | ⟨_, -, he⟩
      · exact herr e he
      · cases he
    · obtain ⟨⟨result', actions, f''⟩, hs', hs⟩ := Run.bind_ok hs
      cases hs
      exact hok _ _ _ hs'

/-! ## What a turn does -/

/-- The sibling can be written to. -/
def Round.Writable (r : Round) : Prop := ∃ revents, r.kernel = .ready revents ∧ (revents 1).output = true

/-- What a turn has done after `n` of its actions, unless it ends the loop: what it read, and what it wrote
where the queue had asked for that. -/
structure Turned (r : Round) (queue : Q) (f : Ferry Q) (n : Nat) (got : List (Nat × Bytes)) (read : Q) (t : Ferry Q) : Prop where
  reads : got = [] ∧ read = queue ∨ got = [(r.read.first, r.packet)] ∧ FerryQueue.readPacket queue r.read r.packet = .ok read
  received : t.received = f.received ++ got
  first : n = 0 → got = []
  before : n ≤ 1 → t.queue = read ∧ t.sent = f.sent
  wrote : 2 ≤ n → FerryQueue.pendingOutput queue r.asked = true → r.Writable →
    t.queue = (FerryQueue.writePackets read r.written).2 ∧ t.sent = f.sent ++ (FerryQueue.writePackets read r.written).1
  kept : 2 ≤ n → FerryQueue.pendingOutput queue r.asked = false → t.queue = read ∧ t.sent = f.sent

namespace Turned

variable {r : Round} {queue read : Q} {f t t' : Ferry Q} {n : Nat} {got : List (Nat × Bytes)}

/-- The first two actions have been skipped, or the queue had nothing to write, or it could not be written. -/
theorem skip (h : Turned r queue f n got read t)
    (hskip : n = 1 → FerryQueue.pendingOutput queue r.asked = true → ¬ r.Writable) : Turned r queue f (n + 1) got read t := by
  refine ⟨h.reads, h.received, fun hn => absurd hn (Nat.succ_ne_zero n), fun hn => h.before (Nat.le_of_succ_le hn), fun hn hpending hw => ?_,
    fun hn hpending => ?_⟩
  · rcases Nat.lt_or_ge n 2 with hlt | hge
    · exact absurd hw (hskip (by omega) hpending)
    · exact h.wrote hge hpending hw
  · rcases Nat.lt_or_ge n 2 with hlt | hge
    · exact h.before (by omega)
    · exact h.kept hge hpending

/-- The rest of a ferry is of no matter. -/
theorem congr (h : Turned r queue f n got read t) (hreceived : t'.received = t.received) (hqueue : t'.queue = t.queue)
    (hsent : t'.sent = t.sent) : Turned r queue f n got read t' :=
  ⟨h.reads, hreceived.trans h.received, h.first, hqueue.symm ▸ hsent.symm ▸ h.before, hqueue.symm ▸ hsent.symm ▸ h.wrote,
    hqueue.symm ▸ hsent.symm ▸ h.kept⟩

theorem readTun {reply : Reply} (h : Turned r queue f 0 got read t) (hs : Ferry.readTun r t = .ok (reply, t')) :
    Turned r queue f 1 [(r.read.first, r.packet)] t'.queue t' := by
  obtain ⟨q', hread, -, rfl⟩ := Ferry.readTun_ok hs
  obtain ⟨hqueue, hsent⟩ := h.before (Nat.zero_le 1)
  have hgot := h.first rfl
  have hreceived := h.received
  subst hgot
  rcases h.reads with ⟨-, rfl⟩ | ⟨hne, -⟩
  · rw [hqueue] at hread
    refine ⟨Or.inr ⟨rfl, hread⟩, ?_, fun hn => absurd hn (Nat.succ_ne_zero 0), fun _ => ⟨rfl, hsent⟩,
      fun hn => absurd hn (by decide), fun hn => absurd hn (by decide)⟩
    show t.received ++ _ = _
    rw [hreceived, List.append_nil]
  · cases hne

theorem writeSibling {reply : Reply} (h : Turned r queue f 1 got read t) (hasked : FerryQueue.pendingOutput queue r.asked = true)
    (hs : Ferry.writeSibling r t = .ok (reply, t')) : Turned r queue f 2 got read t' := by
  obtain ⟨sibling, -, hs⟩ := Run.bind_ok hs
  cases hs
  obtain ⟨hqueue, hsent⟩ := h.before le_rfl
  refine ⟨h.reads, h.received, fun hn => absurd hn (by decide), fun hn => absurd hn (by decide), fun _ _ _ => ?_, fun _ hpending => ?_⟩
  · dsimp only
    rw [hqueue, hsent]
    exact ⟨rfl, rfl⟩
  · rw [hasked] at hpending
    cases hpending

end Turned

/-- A turn that does not end the loop does what its actions do. -/
theorem turn_turned {f f' : Ferry Q} {r : Round} {result : Poller.Result} (h : f.turn r = .ok (result, f'))
    (hgoes : ∀ status, result ≠ .exit status) : ∃ w queue got read, FerryQueue.waitTime f.queue r.waited = .ok (w, queue) ∧
      Turned r queue f 4 got read f' := by
  unfold Ferry.turn at h
  obtain ⟨⟨w, queue⟩, hwait, h⟩ := Run.bind_ok h
  obtain ⟨⟨result', actions, f''⟩, hpoll, h⟩ := Run.bind_ok h
  cases h
  have hstart : Turned r queue f 0 [] queue { f with queue := queue } :=
    ⟨Or.inl ⟨rfl, rfl⟩, (List.append_nil _).symm, fun _ => rfl, fun _ => ⟨rfl, rfl⟩, fun hn => absurd hn (by decide),
      fun hn => absurd hn (by decide)⟩
  -- a poll that nothing happens in is one in which nobody can write
  have htimeout : r.kernel = .timeout → ∃ got read, Turned r queue f 4 got read { f with queue := queue } := by
    intro hkernel
    have hnot : ¬ r.Writable := fun ⟨revents, hready, _⟩ => by rw [hkernel] at hready; cases hready
    exact ⟨[], queue, (((hstart.skip fun _ _ => hnot).skip fun _ _ => hnot).skip fun _ _ => hnot).skip fun _ _ => hnot⟩
  have hall : (∀ e, poll r.kernel r Ferry.actions { f with queue := queue } = .error e → True) ∧
      ∀ result actions t, poll r.kernel r Ferry.actions { f with queue := queue } = .ok (result, actions, t) →
        (∀ status, result ≠ .exit status) → ∃ got read, Turned r queue f 4 got read t := by
    refine poll_steady (I := fun n t => ∃ got read, Turned r queue f n got read t)
      (P := fun result t => (∀ status, result ≠ .exit status) → ∃ got read, Turned r queue f 4 got read t)
      ⟨[], queue, hstart⟩ (fun _ hne => absurd rfl (hne 0)) (fun hkernel _ => htimeout hkernel) (fun _ => trivial)
      (fun t ht _ => ht) (fun revents n t _ _ _ hne => absurd rfl (hne 0)) ?_ ?_
    -- a callback that is skipped: if it is the second with output pending, the device was not ready
    · rintro revents n a t hkernel ha ⟨got, read, ht⟩ hskip
      refine ⟨got, read, ht.skip ?_⟩
      rintro rfl hpending ⟨revents', hready, hout⟩
      rw [hkernel] at hready
      cases hready
      cases ha
      have hevents := hskip hpending
      rw [show (revents 1).has .output = (revents 1).output from rfl, hout] at hevents
      cases hevents
    · rintro n a t ha hasked ⟨got, read, ht⟩
      refine ⟨fun _ _ => trivial, fun reply t' hs => ⟨fun hexit hne => absurd rfl (hne reply.exitStatus), fun _ => ?_⟩⟩
      match n, ha with
      | 0, ha =>
        cases ha
        exact ⟨fun _ => trivial, _, _, ht.readTun hs⟩
      | 1, ha =>
        cases ha
        exact ⟨fun _ => trivial, _, _, ht.writeSibling hasked hs⟩
      | 2, ha =>
        cases ha
        cases hs
        exact ⟨fun _ => trivial, _, _, ht.skip fun hn => absurd hn (by decide)⟩
      | 3, ha =>
        cases ha
        obtain ⟨x, -, hs⟩ := Run.bind_ok hs
        cases hs
        exact ⟨fun _ => trivial, _, _, (ht.skip fun hn => absurd hn (by decide)).congr rfl rfl rfl⟩
  obtain ⟨got, read, hturned⟩ := hall.2 _ _ _ hpoll hgoes
  exact ⟨w, queue, got, read, hwait, hturned⟩

/-! ## The loop -/

/-- The rounds follow each other. -/
def Round.AllTimed : Nat → List Round → Prop
  | _, [] => True
  | start, r :: rs => r.Timed start ∧ AllTimed r.written.last rs

/-- When the rounds are over that begin at the time given. -/
def Round.finish (start : Nat) (rs : List Round) : Nat := rs.foldl (fun _ r => r.written.last) start

theorem Ferry.loop_cons_none {f f' : Ferry Q} {r : Round} {rs : List Round} (h : f.loop (r :: rs) = .ok (none, f')) :
    ∃ result f₁, f.turn r = .ok (result, f₁) ∧ (∀ status, result ≠ .exit status) ∧ f₁.loop rs = .ok (none, f') := by
  unfold Ferry.loop at h
  obtain ⟨⟨result, f₁⟩, hturn, h⟩ := Run.bind_ok h
  dsimp only at h
  split at h
  · cases h
  · rename_i hgoes
    exact ⟨result, f₁, hturn, hgoes, h⟩

/-- The packets that the TUN device had to read, in the rounds given. -/
def Round.offered (rs : List Round) : List (Nat × Bytes) := rs.map fun r => (r.read.first, r.packet)

/-- The loop of a ferry around a line, from the time given on. Nothing but the queue, the signal handler and
`::poll` can fail, and the line carries on. -/
theorem loop_carries (hline : Line same d Holds) (hsame : Rewrites same) : ∀ {rs : List Round} {now : Nat} {f : Ferry Q},
    Carries same d Holds now f → Round.AllTimed now rs → f.received.length + rs.length < 2 ^ 32 →
    (∀ e, f.loop rs = .error e → ∃ f', ∃ r ∈ rs, TurnFault (f' : Ferry Q) r e) ∧
    ∀ status f', f.loop rs = .ok (status, f') → ∃ now', Carries same d Holds now' f' ∧
      ∃ got, f'.received = f.received ++ got ∧ got.Sublist (Round.offered rs)
  | [], now, f, h, _, _ => by
    refine ⟨fun e he => (by cases he), fun status f' hs => ?_⟩
    cases hs
    exact ⟨now, h, [], (List.append_nil _).symm, List.Sublist.refl _⟩
  | r :: rs, now, f, h, ⟨ht, hrest⟩, hcount => by
    rw [List.length_cons] at hcount
    obtain ⟨herr, hok⟩ := turn_carries hline hsame h ht (by omega)
    unfold Ferry.loop
    refine ⟨fun e he => ?_, fun status f' hs => ?_⟩
    · rcases Run.bind_error he with he | ⟨⟨result, f₁⟩, hturn, he⟩
      · exact ⟨f, r, List.mem_cons_self .., herr e he⟩
      · obtain ⟨h₁, hreads⟩ := hok result f₁ hturn
        have hcount₁ : f₁.received.length + rs.length < 2 ^ 32 := by
          rcases hreads with heq | heq
          · rw [heq]
            omega
          · rw [heq, List.length_append, List.length_singleton]
            omega
        dsimp only at he
        split at he
        · cases he
        · obtain ⟨f', r', hr', hfault⟩ := (loop_carries hline hsame h₁ hrest hcount₁).1 e he
          exact ⟨f', r', List.mem_cons_of_mem _ hr', hfault⟩
    · obtain ⟨⟨result, f₁⟩, hturn, hs⟩ := Run.bind_ok hs
      obtain ⟨h₁, hreads⟩ := hok result f₁ hturn
      obtain ⟨got, hgot, hsub, hlen⟩ : ∃ got, f₁.received = f.received ++ got ∧ got.Sublist [(r.read.first, r.packet)] ∧
          got.length ≤ 1 := by
        rcases hreads with heq | heq
        · exact ⟨[], by rw [heq, List.append_nil], List.nil_sublist _, Nat.zero_le _⟩
        · exact ⟨_, heq, List.Sublist.refl _, le_rfl⟩
      dsimp only at hs
      split at hs
      · cases hs
        exact ⟨_, h₁, got, hgot, hsub.trans (List.singleton_sublist.2 (List.mem_cons_self ..))⟩
      · have hcount₁ : f₁.received.length + rs.length < 2 ^ 32 := by
          rw [hgot, List.length_append]
          omega
        obtain ⟨now', h', got', hgot', hsub'⟩ := (loop_carries hline hsame h₁ hrest hcount₁).2 status f' hs
        refine ⟨now', h', got ++ got', ?_, ?_⟩
        · rw [hgot', hgot, List.append_assoc]
        · exact hsub.append hsub'

end

/-! ## Queues that do not look at the time -/

/-- Packets with the times at which they are written. -/
def stamp (r : Readings) (packets : List Bytes) : List (Nat × Bytes) := packets.zipIdx.map fun p => (r.reading p.2, p.1)

/-- A queue that keeps packets in order, but may lose or change some of them. -/
structure Thins {Q : Type} [FerryQueue Q] (same : Bytes → Bytes → Prop) (queued : Q → List Bytes) : Prop where
  read : ∀ {q q' : Q} {r : Readings} {contents : Bytes}, FerryQueue.readPacket q r contents = .ok q' →
    List.SublistForall₂ (fun o i => same i o) (queued q') (queued q ++ [contents])
  wait : ∀ {q q' : Q} {r : Readings} {w : Nat}, FerryQueue.waitTime q r = .ok (w, q') →
    List.SublistForall₂ (fun o i => same i o) (queued q') (queued q)
  write : ∀ (q : Q) (r : Readings), ∃ out, (FerryQueue.writePackets q r).1 = stamp r out ∧
    List.SublistForall₂ (fun o i => same i o) (out ++ queued (FerryQueue.writePackets q r).2) (queued q)
  pending : ∀ {q : Q} {r : Readings}, FerryQueue.pendingOutput q r = true → Ready q r.first
  stays : ∀ {q q' : Q} {r : Readings} {now : Nat} {contents : Bytes}, Ready q now →
    FerryQueue.readPacket q r contents = .ok q' → Ready q' now

/-- The packets that are left keep their times. -/
theorem exists_kept {same : Bytes → Bytes → Prop} : ∀ {a : List Bytes} {l : List (Nat × Bytes)},
    List.SublistForall₂ (fun o i => same i o) a (l.map Prod.snd) → ∃ l', l'.map Prod.snd = a ∧ Kept same l' l
  | [], _, _ => ⟨[], rfl, .nil⟩
  | _ :: _, [], h => (by cases h)
  | b :: a, i :: l, .cons hr h => by
    obtain ⟨l', rfl, hkept⟩ := exists_kept h
    exact ⟨(i.1, b) :: l', rfl, .cons ⟨hr, rfl⟩ hkept⟩
  | _ :: _, i :: l, .cons_right h => by
    obtain ⟨l', hl', hkept⟩ := exists_kept h
    exact ⟨l', hl', .cons_right hkept⟩

theorem stamp_written {r : Readings} {gone : List (Nat × Bytes)} (h : ∀ p ∈ gone, p.1 ≤ r.first) :
    Written r (stamp r (gone.map Prod.snd)) gone := by
  refine List.forall₂_iff_get.2 ⟨by simp [stamp], fun i hi hi' => ?_⟩
  have hfirst := h _ (List.getElem_mem hi')
  have hmono := r.monotone (Nat.zero_le i)
  unfold Readings.first at hfirst
  simp only [stamp, List.get_eq_getElem, List.getElem_map, List.getElem_zipIdx, Nat.zero_add]
  exact ⟨trivial, hfirst.trans hmono, r.le_last i⟩

/-- Such a queue is a line that holds nothing back. -/
theorem Thins.line {Q : Type} [FerryQueue Q] {same : Bytes → Bytes → Prop} {queued : Q → List Bytes} (h : Thins same queued) :
    Line same 0 fun (q : Q) l => l.map Prod.snd = queued q where
  read {q q' l r contents} hl _ _ hread := by
    have hpart := h.read hread
    rw [← hl, ← List.map_singleton (f := Prod.snd) (a := (r.first + 0, contents)), ← List.map_append] at hpart
    exact exists_kept hpart
  wait {q q' l r w} hl hwait := by
    have hpart := h.wait hwait
    rw [← hl] at hpart
    exact exists_kept hpart
  write {q l} r hl hpast := by
    obtain ⟨out, hout, hpart⟩ := h.write q r
    rw [← hl] at hpart
    obtain ⟨l', hl', hkept⟩ := exists_kept hpart
    obtain ⟨gone, left, rfl, hgone, hleft⟩ := List.map_eq_append_iff.1 hl'
    refine ⟨gone, left, hleft, hkept, ?_⟩
    rw [hout, ← hgone]
    refine stamp_written fun p hp => ?_
    obtain ⟨x, hx, hpx⟩ := part_mem hkept p (List.mem_append_left _ hp)
    rw [hpx.2]
    exact hpast x hx
  pending _ _ := h.pending
  stays := h.stays

end AbcMahimahi.Frontend
