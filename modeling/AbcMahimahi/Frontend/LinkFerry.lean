/-
`mm-link` (linkshell.cc): the ferry around a `LinkQueue`. Over any discipline that keeps one queue in order the
link is a line: `rationalize` takes packets from the discipline to the wire and from there to the output, and
none of these steps puts one before another or makes one up.
-/
import AbcMahimahi.Frontend.Disciplines
import AbcMahimahi.Frontend.Ferry
import AbcMahimahi.Frontend.LogReadable

namespace AbcMahimahi.Frontend

open Bytes Packet LossyLine

namespace LinkQueue

variable {Q : Type} [AbstractPacketQueue Q]

instance : FerryQueue (LinkQueue Q) where
  readPacket q r contents := (fun x => x.2) <$> q.readPacket contents r.first
  writePackets q r := (stamp r q.writePackets.1, q.writePackets.2)
  waitTime q r := (fun x => (x.1, x.2.2)) <$> q.waitTime r.first
  pendingOutput q _ := !q.outputQueue.isEmpty
  finished q := q.finished

variable {same : Bytes → Bytes → Prop} [FifoDiscipline Q same]

/-- The packet that is being sent. -/
def onTheWire (q : LinkQueue Q) : List Bytes := if q.packetInTransitBytesLeft = 0 then [] else [q.packetInTransit.contents]

/-- The packets in a link, the next one to leave first. -/
def packets (q : LinkQueue Q) : List Bytes := q.outputQueue ++ (q.onTheWire ++ FifoDiscipline.queued q.packetQueue)

/-- Some steps of a link, which lose packets at most. -/
structure Moved (q q' : LinkQueue Q) : Prop where
  packets : Part same q'.packets q.packets
  output : q.outputQueue <+: q'.outputQueue

variable (hsame : Rewrites same) {q q' q'' : LinkQueue Q}

omit [AbstractPacketQueue Q] in
theorem use_outputQueue (h : q.useADeliveryOpportunity = .ok q') : q'.outputQueue = q.outputQueue := by
  unfold useADeliveryOpportunity at h
  obtain ⟨q₁, hrecord, h⟩ := Run.bind_ok h
  obtain ⟨time, -, hrecord⟩ := Run.bind_ok hrecord
  cases hrecord
  dsimp only at h
  split at h
  · split at h
    · cases h
      rfl
    · cases h
      rfl
  · cases h
    rfl

include hsame

theorem part_packets (l : List Bytes) : Part same l l := part_of_forall₂ (List.forall₂_same.2 fun a _ => hsame.refl a)

theorem Moved.refl (q : LinkQueue Q) : Moved q q := ⟨part_packets hsame _, List.prefix_rfl⟩

theorem Moved.trans (h : Moved q q') (h' : Moved q' q'') : Moved q q'' :=
  ⟨part_trans (fun o m i hom hmi => hsame.trans i m o hmi hom) h'.packets h.packets, h.output.trans h'.output⟩

theorem use_moved (h : q.useADeliveryOpportunity = .ok q') : Moved q q' := by
  obtain ⟨-, hleft, hqueue⟩ := use_ok h
  obtain ⟨-, -, htransit⟩ := use_log h
  have houtput := use_outputQueue h
  refine ⟨?_, by rw [houtput]⟩
  unfold packets onTheWire
  rw [houtput, hleft, htransit, hqueue]
  exact part_packets hsame _

theorem fetch_moved {found : Bool} (h : q.fetch = .ok (found, q')) : Moved q q' := by
  unfold LinkQueue.fetch at h
  split at h
  · cases h
    exact .refl hsame q
  · rename_i hleft
    have hwire : q.onTheWire = [] := if_pos (not_not.1 hleft)
    split at h
    · rename_i hempty
      -- an empty queue gives up no packet, but the call may change its state
      split at h
      · obtain ⟨⟨p, packetQueue⟩, hdequeue, h⟩ := Run.bind_ok h
        cases h
        exact ⟨part_append (part_packets hsame _) (part_append (part_packets hsame _) (FifoDiscipline.idle hempty hdequeue)), List.prefix_rfl⟩
      · cases h
        exact .refl hsame q
    · rename_i hempty
      obtain ⟨⟨p, packetQueue⟩, hdequeue, h⟩ := Run.bind_ok h
      cases h
      refine ⟨?_, List.prefix_rfl⟩
      have htaken := FifoDiscipline.dequeue (Bool.not_eq_true _ ▸ hempty) hdequeue
      have hfetched : Part same (q.outputQueue ++ (p.contents :: FifoDiscipline.queued packetQueue))
          (q.outputQueue ++ FifoDiscipline.queued q.packetQueue) := part_append (part_packets hsame _) htaken
      unfold packets
      rw [hwire, List.nil_append]
      refine part_mono hfetched ?_ (List.Sublist.refl _)
      refine (List.Sublist.refl _).append ?_
      unfold onTheWire
      dsimp only
      split
      · exact List.sublist_cons_self _ _
      · exact List.Sublist.refl _

theorem send_moved {time amount : Nat} (hpos : 0 < q.packetInTransitBytesLeft) (h : q.send time amount = .ok q') : Moved q q' := by
  -- a packet is in transit, so it is what is on the wire
  have hwire : q.onTheWire = [q.packetInTransit.contents] := if_neg (Nat.pos_iff_ne_zero.1 hpos)
  unfold send depart at h
  dsimp only at h
  split at h
  -- the last bytes of the packet: it goes to the output
  · rename_i hdone
    obtain ⟨q₁, hrecord, h⟩ := Run.bind_ok h
    unfold recordDeparture at hrecord
    split at hrecord
    · cases hrecord
      cases h
      refine ⟨?_, List.prefix_append _ _⟩
      unfold packets
      rw [hwire]
      unfold onTheWire logLine
      dsimp only
      rw [if_pos hdone, List.nil_append, List.append_assoc]
      exact part_packets hsame _
    · cases hrecord
  · rename_i hleft
    cases h
    -- some bytes are left, so it is still on the wire
    have hwire' : onTheWire { q with packetInTransitBytesLeft := q.packetInTransitBytesLeft - amount } =
        [q.packetInTransit.contents] := if_neg hleft
    refine ⟨?_, List.prefix_rfl⟩
    unfold packets
    rw [hwire, hwire']
    exact part_packets hsame _

theorem serve_moved {time : Nat} : ∀ {turns bytesLeft left : Nat} {q q' : LinkQueue Q},
    serve time turns bytesLeft q = .ok (left, q') → Moved q q'
  | 0, _, _, q, _, h => by
    cases h
    exact .refl hsame q
  | turns + 1, bytesLeft, left, q, q', h => by
    unfold serve at h
    split at h
    · cases h
      exact .refl hsame q
    · obtain ⟨⟨found, q₁⟩, hfetch, h⟩ := Run.bind_ok h
      have hmoved := fetch_moved hsame hfetch
      dsimp only at h
      split at h
      · cases h
        exact hmoved
      · obtain ⟨_, -, h⟩ := Run.bind_ok h
        obtain ⟨_, -, h⟩ := Run.bind_ok h
        obtain ⟨_, hpos, h⟩ := Run.bind_ok h
        obtain ⟨_, -, h⟩ := Run.bind_ok h
        obtain ⟨q₂, hsend, h⟩ := Run.bind_ok h
        have hsent : Moved q₁ q₂ := send_moved hsame (by simpa using check_ok hpos) hsend
        exact (hmoved.trans hsame hsent).trans hsame (serve_moved h)

theorem deliver_moved {s : Service Q} (h : q.deliver = .ok (s, q')) : Moved q q' := by
  unfold deliver at h
  obtain ⟨time, -, h⟩ := Run.bind_ok h
  obtain ⟨q₁, huse, h⟩ := Run.bind_ok h
  obtain ⟨⟨left, q₂⟩, hserve, h⟩ := Run.bind_ok h
  cases h
  exact (use_moved hsame huse).trans hsame (serve_moved hsame hserve)

theorem rationalizeLoop_moved {now : Nat} : ∀ {turns : Nat} {q q' : LinkQueue Q} {ss : List (Service Q)},
    rationalizeLoop now turns q = .ok (ss, q') → Moved q q'
  | 0, q, q', ss, h => by
    unfold rationalizeLoop at h
    obtain ⟨time, -, h⟩ := Run.bind_ok h
    split at h
    · cases h
    · cases h
      exact .refl hsame q
  | turns + 1, q, q', ss, h => by
    unfold rationalizeLoop at h
    obtain ⟨time, -, h⟩ := Run.bind_ok h
    split at h
    · obtain ⟨⟨s, q₁⟩, hdeliver, h⟩ := Run.bind_ok h
      obtain ⟨⟨ss', q₂⟩, hrest, h⟩ := Run.bind_ok h
      cases h
      exact (deliver_moved hsame hdeliver).trans hsame (rationalizeLoop_moved hrest)
    · cases h
      exact .refl hsame q

/-- A packet that is read goes behind those that are there. -/
theorem readPacket_packets {contents : Bytes} {now : Nat} {ss : List (Service Q)} (h : q.readPacket contents now = .ok (ss, q')) :
    Part same q'.packets (q.packets ++ [contents]) ∧ q.outputQueue <+: q'.outputQueue := by
  unfold readPacket at h
  split at h
  · cases h
  · obtain ⟨⟨ss', q₁⟩, hrationalize, h⟩ := Run.bind_ok h
    obtain ⟨packetQueue, henqueue, h⟩ := Run.bind_ok h
    cases h
    have hmoved := rationalizeLoop_moved hsame hrationalize
    refine ⟨?_, hmoved.output⟩
    have htaken : Part same (q₁.outputQueue ++ (q₁.onTheWire ++ FifoDiscipline.queued packetQueue))
        (q₁.outputQueue ++ (q₁.onTheWire ++ (FifoDiscipline.queued q₁.packetQueue ++ [contents]))) :=
      part_append (part_packets hsame _) (part_append (part_packets hsame _) (FifoDiscipline.enqueue henqueue))
    have hbefore : Part same (q₁.packets ++ [contents]) (q.packets ++ [contents]) :=
      part_append hmoved.packets (part_packets hsame _)
    -- the new packet is behind all that the link holds
    have hassoc : q₁.outputQueue ++ (q₁.onTheWire ++ (FifoDiscipline.queued q₁.packetQueue ++ [contents])) =
        q₁.packets ++ [contents] := by
      unfold packets
      rw [List.append_assoc, List.append_assoc]
    rw [hassoc] at htaken
    exact part_trans (fun o m i hom hmi => hsame.trans i m o hmi hom) htaken hbefore

theorem waitTime_moved {now w : Nat} {ss : List (Service Q)} (h : q.waitTime now = .ok (w, ss, q')) : Moved q q' := by
  obtain ⟨⟨ss', q₁⟩, hrationalize, h⟩ := Run.bind_ok h
  obtain ⟨next, -, h⟩ := Run.bind_ok h
  cases h
  exact rationalizeLoop_moved hsame hrationalize

omit [FifoDiscipline Q same] hsame in
theorem ready_iff {now : Nat} : Ready q now ↔ q.outputQueue ≠ [] := by
  have hstamp : ∀ (r : Readings) (packets : List Bytes), stamp r packets ≠ [] ↔ packets ≠ [] := by
    intro r packets
    unfold stamp
    simp
  exact ⟨fun h => (hstamp _ _).1 (h (.const now) le_rfl), fun h r _ => (hstamp _ _).2 h⟩

/-- A link over such a discipline keeps the packets in order; what it changes of them is the discipline's. -/
theorem thins : Thins same (packets : LinkQueue Q → List Bytes) where
  read h := by
    obtain ⟨⟨ss, q'⟩, hread, rfl⟩ := Run.map_eq_ok h
    exact (readPacket_packets hsame hread).1
  wait h := by
    obtain ⟨⟨w, ss, q'⟩, hwait, heq⟩ := Run.map_eq_ok h
    cases heq
    exact (waitTime_moved hsame hwait).packets
  write q r := ⟨q.outputQueue, rfl, part_packets hsame _⟩
  pending {q r} h := by
    refine ready_iff.2 fun hempty => ?_
    replace h : (!q.outputQueue.isEmpty) = true := h
    rw [hempty] at h
    cases h
  stays {q q' r now contents} hready h := by
    obtain ⟨⟨ss, q₁⟩, hread, rfl⟩ := Run.map_eq_ok h
    refine ready_iff.2 fun hempty => ready_iff.1 hready ?_
    obtain ⟨more, hmore⟩ := (readPacket_packets hsame hread).2
    dsimp only at hempty
    rw [hempty] at hmore
    exact (List.append_eq_nil_iff.1 hmore).1

end LinkQueue

/-! ## What it throws -/

namespace LinkQueue

variable {Q : Type}

theorem nextDeliveryTime_throws (q : LinkQueue Q) : Run.Throws Fault.Broken q.nextDeliveryTime := by
  unfold nextDeliveryTime
  split
  · exact Run.throws_ok _
  · split
    · exact Run.throws_ok _
    · exact Run.throws_error .outOfRange

theorem use_throws (q : LinkQueue Q) : Run.Throws Fault.Broken q.useADeliveryOpportunity := by
  refine ((nextDeliveryTime_throws q).bind fun _ _ => Run.throws_ok _).bind fun q₁ _ => ?_
  dsimp only
  split
  · split <;> exact Run.throws_ok _
  · exact Run.throws_ok _

theorem send_throws (q : LinkQueue Q) (time amount : Nat) : Run.Throws Fault.Broken (q.send time amount) := by
  unfold send depart recordDeparture
  dsimp only
  split
  · refine Run.Throws.bind ?_ fun _ _ => Run.throws_ok _
    split
    · exact Run.throws_ok _
    · exact Run.throws_error .outOfRange
  · exact Run.throws_ok _

section

variable [AbstractPacketQueue Q] (hdequeue : ∀ q : Q, Run.Throws Fault.Broken (AbstractPacketQueue.dequeue q))

include hdequeue

theorem fetch_throws (q : LinkQueue Q) : Run.Throws Fault.Broken q.fetch := by
  unfold LinkQueue.fetch
  split
  · exact Run.throws_ok _
  · split
    · split
      · exact (hdequeue _).bind fun _ _ => Run.throws_ok _
      · exact Run.throws_ok _
    · exact (hdequeue _).bind fun _ _ => Run.throws_ok _

theorem serve_throws (time : Nat) : ∀ (turns bytesLeft : Nat) (q : LinkQueue Q),
    Run.Throws Fault.Broken (serve time turns bytesLeft q)
  | 0, _, _ => Run.throws_ok _
  | turns + 1, bytesLeft, q => by
    unfold serve
    split
    · exact Run.throws_ok _
    · refine (fetch_throws hdequeue q).bind fun r _ => ?_
      dsimp only
      split
      · exact Run.throws_ok _
      · exact (throws_check _ _).bind fun _ _ => (throws_check _ _).bind fun _ _ => (throws_check _ _).bind fun _ _ =>
          (throws_check _ _).bind fun _ _ => (send_throws _ _ _).bind fun _ _ => serve_throws time turns _ _

theorem rationalizeLoop_throws (now : Nat) : ∀ (turns : Nat) (q : LinkQueue Q),
    Run.Throws Fault.Broken (rationalizeLoop now turns q)
  | 0, q => by
    refine (nextDeliveryTime_throws q).bind fun _ _ => ?_
    split
    · exact Run.throws_error .endless
    · exact Run.throws_ok _
  | turns + 1, q => by
    have hdeliver : Run.Throws Fault.Broken q.deliver :=
      (nextDeliveryTime_throws q).bind fun _ _ => (use_throws q).bind fun q₁ _ =>
        (serve_throws hdequeue _ _ _ q₁).bind fun _ _ => Run.throws_ok _
    refine (nextDeliveryTime_throws q).bind fun _ _ => ?_
    split
    · exact hdeliver.bind fun r _ => (rationalizeLoop_throws now turns r.2).bind fun _ _ => Run.throws_ok _
    · exact Run.throws_ok _

end

/-- What a link throws is no busy wait: the one message is that a packet is too long. -/
theorem throws {Q : Type} [AbstractPacketQueue Q] {same : Bytes → Bytes → Prop} [FifoDiscipline Q same] :
    QueueThrows Poller.NotIdle (LinkQueue Q) where
  read q r contents := by
    refine Run.Throws.map ?_ _
    unfold readPacket
    split
    · exact Run.throws_error (Poller.notIdle_message (by decide))
    · exact (((rationalizeLoop_throws FifoDiscipline.dequeue_throws r.first _ q).bind fun x _ => (FifoDiscipline.enqueue_throws x.2.packetQueue _).bind fun _ _ =>
        Run.throws_ok _)).imp fun _ => Poller.notIdle_of_broken
  wait q r := by
    refine Run.Throws.map ?_ _
    exact ((rationalizeLoop_throws FifoDiscipline.dequeue_throws r.first _ q).bind fun x _ => (nextDeliveryTime_throws x.2).bind fun _ _ =>
      Run.throws_ok _).imp fun _ => Poller.notIdle_of_broken

end LinkQueue

end AbcMahimahi.Frontend
