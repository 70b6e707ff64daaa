/-
The shells of mahimahi and their nesting: `mm-delay`, `mm-loss`, `mm-onoff`, `mm-meter` and `mm-link` put their
queue into a ferry, and the kernel forwards what one of them wrote to the shell around it, behind its NAT. Each of
them is a line; so is the nest, and the delays add up.
-/
import AbcMahimahi.Frontend.DelayFerry
import AbcMahimahi.Frontend.LinkFerry
import AbcMahimahi.Frontend.LossQueue

namespace AbcMahimahi.Frontend

open Bytes LossyLine Packet

theorem rewrites_same : Rewrites Same := ⟨fun _ => rfl, fun _ _ _ => Eq.trans, fun _ _ h hne => h ▸ hne⟩

theorem marked_of_same (a b : Bytes) (h : Same a b) : Marked a b := h ▸ Marked.refl a

theorem rewrites_marked : Rewrites Marked where
  refl := Marked.refl
  trans _ _ _ := Marked.trans
  nonempty a b h hne hempty := by
    have hlen := h.length
    rw [hempty, List.length_nil] at hlen
    exact hne (List.eq_nil_of_length_eq_zero hlen.symm)

/-- A queue for a ferry that is a line: it may lose packets, changes the others by marks at most, and holds them
back for the delay at least. -/
structure Shell where
  Q : Type
  queue : FerryQueue Q
  same : Bytes → Bytes → Prop
  rewrites : Rewrites same
  marked : ∀ a b, same a b → Marked a b
  delay : Nat
  Holds : Q → List (Nat × Bytes) → Prop
  line : Line same delay Holds
  throws : QueueThrows Poller.NotIdle Q

attribute [instance] Shell.queue

theorem QueueThrows.notIdle {Q : Type} [FerryQueue Q] (h : QueueThrows Fault.Broken Q) : QueueThrows Poller.NotIdle Q :=
  ⟨fun q r contents => (h.read q r contents).imp fun _ => Poller.notIdle_of_broken,
    fun q r => (h.wait q r).imp fun _ => Poller.notIdle_of_broken⟩

namespace Shell

/-- `mm-delay`. -/
def ofDelay (delayMs : Nat) (h : delayMs < 2 ^ 31) : Shell :=
  ⟨DelayQueue, inferInstance, Same, rewrites_same, marked_of_same, delayMs, DelayQueue.Holding delayMs, DelayQueue.line h,
    DelayQueue.throws.notIdle⟩

/-- `mm-loss`, `mm-onoff` and `mm-meter`. -/
def ofLoss {Q : Type} [FerryQueue Q] {base : Q → LossQueue} (h : Wraps base) : Shell :=
  ⟨Q, inferInstance, Same, rewrites_same, marked_of_same, 0, fun q l => l.map Prod.snd = (base q).packetQueue, h.thins.line,
    h.throws.notIdle⟩

def loss : Shell := ofLoss IIDLoss.wraps

def onoff : Shell := ofLoss SwitchingLink.wraps

def meter : Shell := ofLoss MeterQueue.wraps

/-- `mm-link`, over a discipline that leaves a packet as it is. -/
def link (Q : Type) [AbstractPacketQueue Q] [FifoDiscipline Q Same] : Shell :=
  ⟨LinkQueue Q, inferInstance, Same, rewrites_same, marked_of_same, 0, fun q l => l.map Prod.snd = q.packets,
    (LinkQueue.thins rewrites_same).line, LinkQueue.throws⟩

/-- `mm-link` over the ABC router. -/
def abcLink : Shell :=
  ⟨LinkQueue CellularDiscipline, inferInstance, Marked, rewrites_marked, fun _ _ h => h, 0, fun q l => l.map Prod.snd = q.packets,
    (LinkQueue.thins rewrites_marked).line, LinkQueue.throws⟩

end Shell

theorem carries_start (s : Shell) {queue : s.Q} (h : s.Holds queue []) (start : Nat) :
    Carries s.same s.delay s.Holds start { queue := queue } :=
  ⟨⟨[], h, fun _ hp => absurd hp List.not_mem_nil, .nil⟩, fun _ hp => absurd hp List.not_mem_nil, fun _ hp => absurd hp List.not_mem_nil⟩

/-- The loop of a shell, however the rounds go: it never waits busily and writes no empty packet, so nothing
fails but the queue, a signal or a call of the system; and what it writes is part of what it read, in order, each
packet after the delay and as it was, up to what the ABC router may mark. -/
theorem shell_carries (s : Shell) {queue : s.Q} {start : Nat} {rs : List Round} (hempty : s.Holds queue [])
    (ht : Round.AllTimed start rs) (hfew : rs.length < 2 ^ 32) :
    (∀ e, Ferry.loop { queue := queue } rs = .error e → (e ≠ Poller.busyWait ∧ e ≠ FileDescriptor.nothingToWrite) ∧
      ∃ f, ∃ r ∈ rs, TurnFault (f : Ferry s.Q) r e) ∧
    ∀ status f, Ferry.loop { queue := queue } rs = .ok (status, f) →
      Through s.same s.delay f.sent f.received ∧ f.received.Sublist (Round.offered rs) := by
  obtain ⟨herr, hok⟩ := loop_carries s.line s.rewrites (carries_start s hempty start) ht (by simpa using hfew)
  refine ⟨fun e he => ?_, fun status f hrun => ?_⟩
  · obtain ⟨f, r, hr, hfault⟩ := herr e he
    exact ⟨hfault.notIdle s.throws, f, r, hr, hfault⟩
  · obtain ⟨now, hcarries, got, hgot, hsub⟩ := hok status f hrun
    rw [show ({ queue := queue } : Ferry s.Q).received = [] from rfl, List.nil_append] at hgot
    exact ⟨hcarries.through, hgot ▸ hsub⟩

/-- `mm-delay 10`, after the rounds with three datagrams. -/
def delayed : Ferry DelayQueue where
  queue := { delayMs := 10 }
  tun := { readCount := 3 }
  sibling := { writeCount := 3 }
  received := [(100, firstDatagram), (103, secondDatagram), (111, thirdDatagram)]
  sent := [(111, firstDatagram), (114, secondDatagram), (122, thirdDatagram)]

theorem shell_carries_quick : Ferry.loop { queue := ({ delayMs := 10 } : DelayQueue) } quickRounds = .ok (none, delayed) ∧
    Through Same 10 delayed.sent delayed.received ∧ delayed.received.Sublist (Round.offered quickRounds) :=
  ⟨rfl, (@shell_carries (.ofDelay 10 (by decide)) ({ delayMs := 10 } : DelayQueue) 100 quickRounds ⟨rfl, rfl⟩ quickRounds_timed
    (by decide)).2 none delayed rfl⟩

/-! ## Shells in shells -/

/-- A shell at work, from a queue without packets on: what its loop did in the rounds given. Its clock began to
run at its `initial_timestamp()`. -/
structure Hop where
  shell : Shell
  queue : shell.Q
  empty : shell.Holds queue []
  initialTimestamp : Nat
  start : Nat
  rounds : List Round
  timed : Round.AllTimed start rounds
  few : rounds.length < 2 ^ 32
  status : Option Nat
  ferry : Ferry shell.Q
  ran : Ferry.loop { queue := queue } rounds = .ok (status, ferry)

namespace Hop

/-- What the ferry has read, on the clock that all shells share. -/
def received (h : Hop) : List (Nat × Bytes) := ahead h.initialTimestamp h.ferry.received

/-- What it has written, on that clock. -/
def sent (h : Hop) : List (Nat × Bytes) := ahead h.initialTimestamp h.ferry.sent

theorem through (h : Hop) : Through Marked h.shell.delay h.sent h.received := by
  obtain ⟨now, hcarries, -⟩ := (loop_carries h.shell.line h.shell.rewrites (carries_start h.shell h.empty h.start) h.timed
    (by simpa using h.few)).2 h.status h.ferry h.ran
  exact (hcarries.through.imp h.shell.marked).ahead h.initialTimestamp

variable (forward : Bytes → Bytes → Prop)

/-- The kernel brings packets from one shell to the next one, in order, each as it forwards it: with the time to
live, the checksums and the address that the NAT gives it. It may lose some. -/
def Linked : List Hop → Prop
  | h :: h' :: hs => Through forward 0 h'.received h.sent ∧ Linked (h' :: hs)
  | _ => True

/-- What may become of a packet in a shell and so many more: each may mark it, and between two of them the kernel
forwards it. -/
def Rewritten : Nat → Bytes → Bytes → Prop
  | 0 => Marked
  | n + 1 => Relation.Comp Marked (Relation.Comp forward (Rewritten n))

/-- What comes out of the last shell of a nest. -/
def output : Hop → List Hop → List (Nat × Bytes)
  | h, [] => h.sent
  | _, h :: hs => output h hs

def delay (hs : List Hop) : Nat := (hs.map (·.shell.delay)).sum

end Hop

/-- Shells in shells, of whatever kinds, and however their loops go and the kernel forwards packets: what comes out
of the last shell is part of what went into the first, in the order in which it went in, each packet at most once,
no more changed than by marks and on the way between shells, and later by all the delays at least. -/
theorem nest_through (forward : Bytes → Bytes → Prop) : ∀ (h : Hop) (hs : List Hop), Hop.Linked forward (h :: hs) →
    Through (Hop.Rewritten forward hs.length) (Hop.delay (h :: hs)) (Hop.output h hs) h.received
  | h, [], _ => by
    rw [show Hop.delay [h] = h.shell.delay from Nat.add_zero _]
    exact h.through
  | h, h' :: hs, ⟨hlink, hrest⟩ => by
    have hlater := nest_through forward h' hs hrest
    have hall := (hlater.comp hlink).comp h.through
    rw [zero_add] at hall
    exact hall

/-- The three datagrams in `mm-delay 10`. -/
def delayHop : Hop where
  shell := .ofDelay 10 (by decide)
  queue := { delayMs := 10 }
  empty := ⟨rfl, rfl⟩
  initialTimestamp := 5000
  start := 100
  rounds := quickRounds
  timed := quickRounds_timed
  few := by decide
  status := none
  ferry := delayed
  ran := rfl

/-- The first of them behind the NAT, where it has one router less to live for. -/
def firstForwarded : Bytes := datagram 1 63 199 123 4

def thirdForwarded : Bytes := datagram 3 63 199 121 4

def meterRounds : List Round :=
  [quickRound (polled true false) firstForwarded 60 62, quickRound (polled false true) firstForwarded 62 62,
    quickRound (polled true false) thirdForwarded 62 73, quickRound (polled false true) thirdForwarded 73 74]

theorem meterRounds_timed : Round.AllTimed 60 meterRounds := by
  refine ⟨?_, ?_, ?_, ?_, trivial⟩ <;> exact quickRound_timed (by decide) (by decide) (by decide) (by decide)

/-- `mm-meter` around it, where two of them arrive. -/
def meterHop : Hop where
  shell := .meter
  queue := {}
  empty := rfl
  initialTimestamp := 5050
  start := 60
  rounds := meterRounds
  timed := meterRounds_timed
  few := by decide
  status := none
  ferry := {
    queue := {}
    tun := { readCount := 2 }
    sibling := { writeCount := 2 }
    received := [(62, firstForwarded), (73, thirdForwarded)]
    sent := [(62, firstForwarded), (74, thirdForwarded)] }
  ran := rfl

/-- All but the time to live, the checksum of the header and the address of the sender. -/
def Forwarded (a b : Bytes) : Prop := b.take 12 = a.take 12 ∧ b.drop 20 = a.drop 20

instance (a b : Bytes) : Decidable (Forwarded a b) := inferInstanceAs (Decidable (_ ∧ _))

theorem nest_through_pair : Hop.output delayHop [meterHop] = [(5112, firstForwarded), (5124, thirdForwarded)] ∧
    Through (Hop.Rewritten Forwarded 1) 10 [(5112, firstForwarded), (5124, thirdForwarded)]
      [(5100, firstDatagram), (5103, secondDatagram), (5111, thirdDatagram)] := by
  have hlinked : Hop.Linked Forwarded [delayHop, meterHop] :=
    ⟨.cons ⟨by decide, by decide⟩ (.cons_right (.cons ⟨by decide, by decide⟩ .nil)), trivial⟩
  exact ⟨rfl, nest_through Forwarded delayHop [meterHop] hlinked⟩

end AbcMahimahi.Frontend
