/-
The relay of `DNSProxy::handle_tcp` (dns_proxy.cc): a poller around two queues of bytes, one for each way
between a client and the DNS server. What the two sockets do in a poll, and what `::poll` returns, is up to
the world.
-/
import AbcMahimahi.Util.BytestreamQueue
import AbcMahimahi.Util.Poller

namespace AbcMahimahi.DnsProxy

open Bytes EventLoop Poller

/-- What happens in a poll. -/
structure Round where
  kernel : Kernel
  dnsServer : Socket
  client : Socket

/-- The descriptors and the queues of a connection, with the bytes that have been read from and written to
either side so far. -/
structure Relay where
  dnsServer : FileDescriptor := {}
  client : FileDescriptor := {}
  fromClient : ByteStreamQueue
  fromServer : ByteStreamQueue
  clientSaid : Bytes := []
  serverHeard : Bytes := []
  serverSaid : Bytes := []
  clientHeard : Bytes := []

def bufferSize : Nat := 1024 * 1024

/-! ## The calls of a queue on a descriptor -/

/-- `queue.push( fd )`, with the bytes that were read. -/
def push (q : ByteStreamQueue) (fd : FileDescriptor) (socket : Socket) :
    Except Fault (ByteStreamQueue.Result × Bytes × ByteStreamQueue × FileDescriptor) := do
  let (result, q') ← q.push fun limit => (socket.read limit).getD []
  let (got, fd) ← fd.readSome (socket.read q.contiguousSpaceToPush)
  pure (result, got, q', fd)

/-- `queue.pop( fd )`, with the bytes that were written. -/
def pop (q : ByteStreamQueue) (fd : FileDescriptor) (socket : Socket) :
    Except Fault (Bytes × ByteStreamQueue × FileDescriptor) := do
  let q' ← q.pop fun offered => (socket.write 0 offered).getD 0
  let (taken, fd) ← fd.writeSome q.offered (socket.write 0 q.offered)
  pure (q.offered.take taken, q', fd)

/-- `eof( result ) ? ResultType::Cancel : ResultType::Continue` -/
def replyTo (result : ByteStreamQueue.Result) : Reply := { result := if result = .endOfFile then .cancel else .cont }

/-! ## The relay -/

def serverIn (r : Round) (s : Relay) : Except Fault (Reply × Relay) := do
  let (result, got, fromServer, dnsServer) ← push s.fromServer s.dnsServer r.dnsServer
  pure (replyTo result, { s with fromServer := fromServer, dnsServer := dnsServer, serverSaid := s.serverSaid ++ got })

def clientIn (r : Round) (s : Relay) : Except Fault (Reply × Relay) := do
  let (result, got, fromClient, client) ← push s.fromClient s.client r.client
  pure (replyTo result, { s with fromClient := fromClient, client := client, clientSaid := s.clientSaid ++ got })

def serverOut (r : Round) (s : Relay) : Except Fault (Reply × Relay) := do
  let (given, fromClient, dnsServer) ← pop s.fromClient s.dnsServer r.dnsServer
  pure ({}, { s with fromClient := fromClient, dnsServer := dnsServer, serverHeard := s.serverHeard ++ given })

def clientOut (r : Round) (s : Relay) : Except Fault (Reply × Relay) := do
  let (given, fromServer, client) ← pop s.fromServer s.client r.client
  pure ({}, { s with fromServer := fromServer, client := client, clientHeard := s.clientHeard ++ given })

def actions : List (Action Round Relay) :=
  [{ fd := Relay.dnsServer, direction := .input, callback := serverIn, whenInterested := fun _ s => s.fromServer.spaceAvailable },
   { fd := Relay.client, direction := .input, callback := clientIn, whenInterested := fun _ s => s.fromClient.spaceAvailable },
   { fd := Relay.dnsServer, direction := .output, callback := serverOut, whenInterested := fun _ s => s.fromClient.nonEmpty },
   { fd := Relay.client, direction := .output, callback := clientOut, whenInterested := fun _ s => s.fromServer.nonEmpty }]

/-- The thread of `handle_tcp`, once it is connected, as far as the rounds go: whether it has returned. -/
def handleTcp (rounds : List Round) : Except Fault (Bool × Relay) := do
  let fromClient ← ByteStreamQueue.make bufferSize
  let fromServer ← ByteStreamQueue.make bufferSize
  loop Round.kernel actions { fromClient := fromClient, fromServer := fromServer } rounds

/-! ## The calls on one queue -/

section

variable {size : Nat} {input output : Bytes} {q : ByteStreamQueue}

theorem result_of_push {read : Nat → Bytes} {result : ByteStreamQueue.Result} {q' : ByteStreamQueue}
    (h : q.push read = .ok (result, q')) : result = .endOfFile ↔ read q.contiguousSpaceToPush = [] := by
  unfold ByteStreamQueue.push at h
  obtain ⟨-, -, h⟩ := Run.bind_ok h
  obtain ⟨-, -, h⟩ := Run.bind_ok h
  split at h
  · rename_i hempty
    cases h
    exact iff_of_true rfl (List.isEmpty_iff.1 hempty)
  · rename_i hsome
    obtain ⟨q₁, -, h⟩ := Run.bind_ok h
    obtain ⟨-, -, h⟩ := Run.bind_ok h
    cases h
    exact iff_of_false (by decide) fun hnil => hsome (List.isEmpty_iff.2 hnil)

/-- What is read is taken in; nothing but the system call can fail. -/
theorem push_holds (fd : FileDescriptor) (socket : Socket) (h : ByteStreamQueue.Holds size input output q) (hspace : q.spaceAvailable = true) :
    (∀ e, push q fd socket = .error e → IoFault e) ∧
    ∀ result got q' fd', push q fd socket = .ok (result, got, q', fd') → ByteStreamQueue.Holds size (input ++ got) output q' ∧
      fd' = fd.read got ∧ (result = .endOfFile ↔ got = []) := by
  have hread : ((fun limit => (socket.read limit).getD []) q.contiguousSpaceToPush).length ≤ q.contiguousSpaceToPush := by
    dsimp only
    cases hgot : socket.read q.contiguousSpaceToPush with
    | none => exact Nat.zero_le _
    | some got => exact socket.read_le _ _ hgot
  obtain ⟨result, q₁, hpush, hinv, hlen, hheld, -⟩ := @ByteStreamQueue.Inv.push_spec q h.inv hspace (fun limit => (socket.read limit).getD []) hread
  have hresult := result_of_push hpush
  unfold push
  rw [hpush, Run.ok_bind]
  dsimp only at hheld hresult ⊢
  cases hgot : socket.read q.contiguousSpaceToPush with
  | none =>
    refine ⟨fun e he => ?_, fun result got q' fd' hs => (by cases hs)⟩
    cases he
    exact .read
  | some got =>
    rw [hgot] at hheld hresult
    refine ⟨fun e he => (by cases he), fun result' got' q' fd' hs => ?_⟩
    cases hs
    refine ⟨⟨hinv, hlen.trans h.size, ?_⟩, rfl, hresult⟩
    rw [hheld, h.fifo, List.append_assoc]
    rfl

/-- What is written is given out; nothing but the system call can fail. -/
theorem pop_holds (fd : FileDescriptor) (socket : Socket) (h : ByteStreamQueue.Holds size input output q) (hsome : q.nonEmpty = true) :
    (∀ e, pop q fd socket = .error e → IoFault e) ∧
    ∀ given q' fd', pop q fd socket = .ok (given, q', fd') → ByteStreamQueue.Holds size input (output ++ given) q' ∧
      fd' = fd.registerWrite := by
  -- a `write` that fails has taken nothing
  have hwrite : q.offered ≠ [] → (fun offered => (socket.write 0 offered).getD 0) q.offered ≤ q.offered.length := by
    intro _
    dsimp only
    cases htaken : socket.write 0 q.offered with
    | none => exact Nat.zero_le _
    | some taken => exact socket.write_le _ _ _ htaken
  obtain ⟨q₁, hpop, hinv, hlen, hheld⟩ :=
    @ByteStreamQueue.Inv.pop_spec q h.inv hsome (fun offered => (socket.write 0 offered).getD 0) hwrite
  -- a queue that holds something offers something
  have hoffered : q.offered ≠ [] := by
    intro hnil
    unfold ByteStreamQueue.pop at hpop
    obtain ⟨-, -, hpop⟩ := Run.bind_ok hpop
    obtain ⟨-, -, hpop⟩ := Run.bind_ok hpop
    rw [hnil, if_pos List.isEmpty_nil] at hpop
    cases hpop
  obtain ⟨herr, hok⟩ := FileDescriptor.writeSome_spec fd (socket.write 0 q.offered) hoffered
  unfold pop
  rw [hpop, Run.ok_bind]
  refine ⟨fun e he => ?_, fun given q' fd' hs => ?_⟩
  · rcases Run.bind_error he with he | ⟨_, -, he⟩
    · exact herr e he
    · cases he
  · obtain ⟨⟨taken, fd₁⟩, hsome', hs⟩ := Run.bind_ok hs
    cases hs
    obtain ⟨htaken, -, rfl⟩ := hok taken fd' hsome'
    rw [htaken, Option.getD_some] at hheld
    refine ⟨⟨hinv, hlen.trans h.size, ?_⟩, rfl⟩
    rw [h.fifo, hheld, List.append_assoc]

end

/-! ## The connection -/

/-- Each way, what has been read is what has been written and what is still held. -/
structure Relays (s : Relay) : Prop where
  forth : ByteStreamQueue.Holds bufferSize s.clientSaid s.serverHeard s.fromClient
  back : ByteStreamQueue.Holds bufferSize s.serverSaid s.clientHeard s.fromServer

/-- Both sides are at their end, and nothing is held back. -/
def Complete (s : Relay) : Prop :=
  (s.dnsServer.eof = true ∧ s.client.eof = true) ∧ s.fromClient.nonEmpty = false ∧ s.fromServer.nonEmpty = false

theorem holds_nonEmpty {size : Nat} {input output : Bytes} {q : ByteStreamQueue} (h : ByteStreamQueue.Holds size input output q) :
    q.nonEmpty = true ↔ output.length < input.length := by
  unfold ByteStreamQueue.nonEmpty
  rw [decide_eq_true_iff, h.inv.availableToPop_eq, h.fifo, List.length_append]
  omega

theorem holds_empty {size : Nat} {input output : Bytes} {q : ByteStreamQueue} (h : ByteStreamQueue.Holds size input output q)
    (hempty : q.nonEmpty = false) : input = output := by
  unfold ByteStreamQueue.nonEmpty at hempty
  rw [decide_eq_false_iff_not, h.inv.availableToPop_eq, not_lt, Nat.le_zero, List.length_eq_zero_iff] at hempty
  rw [h.fifo, hempty, List.append_nil]

/-- An empty queue has space. -/
theorem space_of_empty {input output : Bytes} {q : ByteStreamQueue} (h : ByteStreamQueue.Holds bufferSize input output q)
    (hempty : q.nonEmpty = false) : q.spaceAvailable = true := by
  unfold ByteStreamQueue.nonEmpty at hempty
  rw [decide_eq_false_iff_not, h.inv.availableToPop_eq] at hempty
  unfold ByteStreamQueue.spaceAvailable
  rw [decide_eq_true_iff, h.inv.availableToPush_eq, h.size]
  unfold bufferSize
  omega

/-- The poller asks for nothing just when the connection is complete. -/
theorem quiet_iff {s : Relay} (h : Relays s) (r : Round) : (∀ a ∈ actions, a.events r s = false) ↔ Complete s := by
  have hlist : (∀ a ∈ actions, a.events r s = false) ↔ (s.dnsServer.eof = true ∨ s.fromServer.spaceAvailable = false) ∧
      (s.client.eof = true ∨ s.fromClient.spaceAvailable = false) ∧ s.fromClient.nonEmpty = false ∧ s.fromServer.nonEmpty = false := by
    simp [actions, Action.events]
    cases s.dnsServer.eof <;> cases s.client.eof <;> simp
  rw [hlist]
  constructor
  · rintro ⟨hserver, hclient, hforth, hback⟩
    have hspace := space_of_empty h.forth hforth
    have hspace' := space_of_empty h.back hback
    rw [hspace'] at hserver
    rw [hspace] at hclient
    exact ⟨⟨by simpa using hserver, by simpa using hclient⟩, hforth, hback⟩
  · rintro ⟨⟨hserver, hclient⟩, hforth, hback⟩
    exact ⟨Or.inl hserver, Or.inl hclient, hforth, hback⟩

/-- What holds in a poll that began at `s`, before the `n`-th action: what an action was asked for is still there. -/
structure Within (s : Relay) (n : Nat) (t : Relay) : Prop where
  relays : Relays t
  serverSpace : n = 0 → t.fromServer = s.fromServer
  clientSpace : n ≤ 1 → t.fromClient = s.fromClient
  forth : n ≤ 2 → s.fromClient.nonEmpty = true → t.fromClient.nonEmpty = true
  back : n ≤ 3 → s.fromServer.nonEmpty = true → t.fromServer.nonEmpty = true

/-- What a callback of the relay does. -/
def Does (a : Action Round Relay) (s : Relay) (n : Nat) (t t' : Relay) (reply : Reply) : Prop :=
  reply.result ≠ .exit ∧ (reply.result = .cancel → a.direction = .input ∧ (a.fd t').eof = true) ∧ Stays actions t t' ∧
    (a.serviceCount t = a.serviceCount t' → IoFault busyWait) ∧ Within s (n + 1) t'

theorem replyTo_goes (result : ByteStreamQueue.Result) : (replyTo result).result ≠ .exit := by
  cases result <;> decide

theorem replyTo_cancel {result : ByteStreamQueue.Result} (h : (replyTo result).result = .cancel) : result = .endOfFile := by
  cases result
  · cases h
  · rfl

theorem stays_iff {t t' : Relay} : Stays actions t t' ↔
    (t.dnsServer.eof = true → t'.dnsServer.eof = true) ∧ (t.client.eof = true → t'.client.eof = true) := by
  constructor
  · intro h
    exact ⟨h _ (List.mem_cons_self ..), h _ (List.mem_cons_of_mem _ (List.mem_cons_self ..))⟩
  · rintro ⟨hserver, hclient⟩ a ha
    rcases List.mem_cons.1 ha with rfl | ha
    · exact hserver
    rcases List.mem_cons.1 ha with rfl | ha
    · exact hclient
    rcases List.mem_cons.1 ha with rfl | ha
    · exact hserver
    rw [List.mem_singleton.1 ha]
    exact hclient

section

variable {r : Round} {s t t' : Relay} {reply : Reply}

theorem Within.serverIn (h : Within s 0 t) (hasked : s.fromServer.spaceAvailable = true) :
    (∀ e, serverIn r t = .error e → IoFault e) ∧
    ∀ reply t', serverIn r t = .ok (reply, t') → Does (actions[0]) s 0 t t' reply := by
  have hspace : t.fromServer.spaceAvailable = true := by rw [h.serverSpace rfl]; exact hasked
  obtain ⟨herr, hok⟩ := push_holds t.dnsServer r.dnsServer h.relays.back hspace
  refine ⟨fun e he => ?_, fun reply t' hs => ?_⟩
  · rcases Run.bind_error he with he | ⟨_, -, he⟩
    · exact herr e he
    · cases he
  obtain ⟨⟨result, got, fromServer, dnsServer⟩, hpush, hs⟩ := Run.bind_ok hs
  cases hs
  obtain ⟨hholds, rfl, hend⟩ := hok _ _ _ _ hpush
  refine ⟨replyTo_goes result, fun hcancel => ⟨rfl, ?_⟩, stays_iff.2 ⟨fun heof => FileDescriptor.eof_read heof got, id⟩,
    fun hstuck => absurd hstuck (FileDescriptor.readCount_moves _ _), ?_⟩
  · rw [hend.1 (replyTo_cancel hcancel)]
    rfl
  · refine ⟨⟨h.relays.forth, hholds⟩, fun hn => absurd hn (by decide), fun _ => h.clientSpace (Nat.zero_le 1),
      fun _ => h.forth (Nat.zero_le 2), fun _ hback => ?_⟩
    have hlt := (holds_nonEmpty h.relays.back).1 (h.back (Nat.zero_le 3) hback)
    refine (holds_nonEmpty hholds).2 ?_
    rw [List.length_append]
    omega

theorem Within.clientIn (h : Within s 1 t) (hasked : s.fromClient.spaceAvailable = true) :
    (∀ e, clientIn r t = .error e → IoFault e) ∧
    ∀ reply t', clientIn r t = .ok (reply, t') → Does (actions[1]) s 1 t t' reply := by
  have hspace : t.fromClient.spaceAvailable = true := by rw [h.clientSpace le_rfl]; exact hasked
  obtain ⟨herr, hok⟩ := push_holds t.client r.client h.relays.forth hspace
  refine ⟨fun e he => ?_, fun reply t' hs => ?_⟩
  · rcases Run.bind_error he with he | ⟨_, -, he⟩
    · exact herr e he
    · cases he
  obtain ⟨⟨result, got, fromClient, client⟩, hpush, hs⟩ := Run.bind_ok hs
  cases hs
  obtain ⟨hholds, rfl, hend⟩ := hok _ _ _ _ hpush
  refine ⟨replyTo_goes result, fun hcancel => ⟨rfl, ?_⟩, stays_iff.2 ⟨id, fun heof => FileDescriptor.eof_read heof got⟩,
    fun hstuck => absurd hstuck (FileDescriptor.readCount_moves _ _), ?_⟩
  · rw [hend.1 (replyTo_cancel hcancel)]
    rfl
  · refine ⟨⟨hholds, h.relays.back⟩, fun hn => absurd hn (by decide), fun hn => absurd hn (by decide), fun _ hforth => ?_,
      fun _ => h.back (by decide)⟩
    have hlt := (holds_nonEmpty h.relays.forth).1 (h.forth (by decide) hforth)
    refine (holds_nonEmpty hholds).2 ?_
    rw [List.length_append]
    omega

theorem Within.serverOut (h : Within s 2 t) (hasked : s.fromClient.nonEmpty = true) :
    (∀ e, serverOut r t = .error e → IoFault e) ∧
    ∀ reply t', serverOut r t = .ok (reply, t') → Does (actions[2]) s 2 t t' reply := by
  obtain ⟨herr, hok⟩ := pop_holds t.dnsServer r.dnsServer h.relays.forth (h.forth le_rfl hasked)
  refine ⟨fun e he => ?_, fun reply t' hs => ?_⟩
  · rcases Run.bind_error he with he | ⟨_, -, he⟩
    · exact herr e he
    · cases he
  obtain ⟨⟨given, fromClient, dnsServer⟩, hpop, hs⟩ := Run.bind_ok hs
  cases hs
  obtain ⟨hholds, rfl⟩ := hok _ _ _ hpop
  refine ⟨by decide, fun hcancel => (by cases hcancel), stays_iff.2 ⟨id, id⟩,
    fun hstuck => absurd hstuck (FileDescriptor.writeCount_moves _ Nat.one_ne_zero (by decide)), ?_⟩
  exact ⟨⟨hholds, h.relays.back⟩, fun hn => absurd hn (by decide), fun hn => absurd hn (by decide), fun hn => absurd hn (by decide), fun _ => h.back (by decide)⟩

theorem Within.clientOut (h : Within s 3 t) (hasked : s.fromServer.nonEmpty = true) :
    (∀ e, clientOut r t = .error e → IoFault e) ∧
    ∀ reply t', clientOut r t = .ok (reply, t') → Does (actions[3]) s 3 t t' reply := by
  obtain ⟨herr, hok⟩ := pop_holds t.client r.client h.relays.back (h.back le_rfl hasked)
  refine ⟨fun e he => ?_, fun reply t' hs => ?_⟩
  · rcases Run.bind_error he with he | ⟨_, -, he⟩
    · exact herr e he
    · cases he
  obtain ⟨⟨given, fromServer, client⟩, hpop, hs⟩ := Run.bind_ok hs
  cases hs
  obtain ⟨hholds, rfl⟩ := hok _ _ _ hpop
  refine ⟨by decide, fun hcancel => (by cases hcancel), stays_iff.2 ⟨id, id⟩,
    fun hstuck => absurd hstuck (FileDescriptor.writeCount_moves _ Nat.one_ne_zero (by decide)), ?_⟩
  exact ⟨⟨h.relays.forth, hholds⟩, fun hn => absurd hn (by decide), fun hn => absurd hn (by decide), fun hn => absurd hn (by decide),
    fun hn => absurd hn (by decide)⟩

theorem Within.skip {n : Nat} (h : Within s n t) : Within s (n + 1) t :=
  ⟨h.relays, fun hn => absurd hn (Nat.succ_ne_zero n), fun hn => h.clientSpace (Nat.le_of_succ_le hn),
    fun hn => h.forth (Nat.le_of_succ_le hn), fun hn => h.back (Nat.le_of_succ_le hn)⟩

end

/-- A poll of the relay. Its queues stay what they are, the system alone can fail, and where no descriptor is in
trouble it exits when the connection is complete. -/
theorem poll_relays {r : Round} {acts : List (Action Round Relay)} {s : Relay} (hclosing : Closing actions acts s) (h : Relays s) :
    (∀ e, poll r.kernel r acts s = .error e → IoFault e) ∧
    ∀ result acts' s', poll r.kernel r acts s = .ok (result, acts', s') →
      (Closing actions acts' s' ∧ Relays s') ∧ ∀ status, result = .exit status → r.kernel.HangsUp ∨ Complete s' := by
  have hpoll : (∀ e, poll r.kernel r acts s = .error e → IoFault e) ∧
      ∀ result acts' s', poll r.kernel r acts s = .ok (result, acts', s') →
        (Relays s' ∧ ∀ status, result = .exit status → r.kernel.HangsUp ∨ Complete s') ∧ Closing actions acts' s' := by
    refine poll_closing (I := fun n t => Within s n t) (P := fun result t => Relays t ∧ ∀ status, result = .exit status → r.kernel.HangsUp ∨ Complete t)
      ?_ hclosing ⟨h, fun _ => rfl, fun _ => rfl, fun _ => id, fun _ => id⟩ ?_ ?_ ?_ ?_ ?_ ?_ ?_
    · simp [actions]
    · exact fun hquiet => ⟨h, fun _ _ => Or.inr ((quiet_iff h r).1 hquiet)⟩
    · exact fun _ => ⟨h, fun status hexit => (by cases hexit)⟩
    · exact fun _ => .poll
    · exact fun t ht => ⟨ht.relays, fun status hexit => (by cases hexit)⟩
    · exact fun revents n t hkernel ht hhangup => ⟨ht.relays, fun _ _ => Or.inl ⟨revents, n, hkernel, hhangup⟩⟩
    · exact fun n t ht => ht.skip
    · rintro n a t ha hasked ht
      have hwanted := interested_of_events hasked
      match n, ha with
      | 0, ha => cases ha; exact ht.serverIn hwanted
      | 1, ha => cases ha; exact ht.clientIn hwanted
      | 2, ha => cases ha; exact ht.serverOut hwanted
      | 3, ha => cases ha; exact ht.clientOut hwanted
  obtain ⟨herr, hok⟩ := hpoll
  refine ⟨herr, fun result acts' s' hs => ?_⟩
  obtain ⟨⟨hrelays, hexit⟩, hclosing'⟩ := hok result acts' s' hs
  exact ⟨⟨hclosing', hrelays⟩, hexit⟩

/-- The relay of a connection to the DNS server. However the two sockets cut up what they read and what they take,
and whatever `::poll` returns, no assertion fails and no call is a busy wait: the relay ends by itself, or by a
system call that fails. Each way the bytes read are those written and then the few still held, in order. Unless a
descriptor is in trouble the relay ends only when both sides have come to their end and everything has been
delivered; and then it does, in the next poll. -/
theorem dns_relay (rounds : List Round) :
    (∀ e, handleTcp rounds = .error e → IoFault e) ∧
    ∀ ended s, handleTcp rounds = .ok (ended, s) →
      (s.clientSaid = s.serverHeard ++ s.fromClient.held ∧ s.fromClient.held.length < bufferSize) ∧
      (s.serverSaid = s.clientHeard ++ s.fromServer.held ∧ s.fromServer.held.length < bufferSize) ∧
      (ended = true → (∀ r ∈ rounds, ¬ r.kernel.HangsUp) →
        s.dnsServer.eof = true ∧ s.client.eof = true ∧ s.serverHeard = s.clientSaid ∧ s.clientHeard = s.serverSaid) ∧
      (ended = false → s.dnsServer.eof = true → s.client.eof = true → s.serverHeard = s.clientSaid → s.clientHeard = s.serverSaid →
        ∀ r, handleTcp (rounds ++ [r]) = .ok (true, s)) := by
  have hsize : 1 < bufferSize ∧ bufferSize < 2 ^ 63 := by decide
  obtain ⟨q, hmake, hq⟩ := ByteStreamQueue.make_holds hsize.1 hsize.2
  have hstart : handleTcp = loop Round.kernel actions { fromClient := q, fromServer := q } := by
    funext rounds
    unfold handleTcp
    rw [hmake]
    rfl
  -- the invariant of a poll: what was read is what was written and what is held
  have hpolls : ∀ r ∈ rounds, ∀ acts s, (Closing actions acts s ∧ Relays s) → (∀ e, poll r.kernel r acts s = .error e → IoFault e) ∧
      ∀ result acts' s', poll r.kernel r acts s = .ok (result, acts', s') →
        (Closing actions acts' s' ∧ Relays s') ∧ ∀ status, result = .exit status → (∀ r ∈ rounds, ¬ r.kernel.HangsUp) → Complete s' := by
    rintro r hr acts s ⟨hclosing, hrelays⟩
    obtain ⟨herr, hok⟩ := poll_relays (r := r) hclosing hrelays
    refine ⟨herr, fun result acts' s' hs => ?_⟩
    obtain ⟨hkept, hexit⟩ := hok result acts' s' hs
    exact ⟨hkept, fun status hstatus hcalm => (hexit status hstatus).resolve_left (hcalm r hr)⟩
  have hactive : ∀ a ∈ actions, a.active = true := by simp [actions]
  obtain ⟨herr, hok⟩ := loop_rule hpolls ⟨closing_self hactive { fromClient := q, fromServer := q }, hq, hq⟩
  rw [hstart]
  refine ⟨herr, fun ended s hs => ?_⟩
  obtain ⟨hend, acts, ⟨hclosing, hrelays⟩, hmore⟩ := hok ended s hs
  refine ⟨⟨hrelays.forth.fifo, hrelays.forth.size ▸ hrelays.forth.inv.length_held_lt⟩,
    ⟨hrelays.back.fifo, hrelays.back.size ▸ hrelays.back.inv.length_held_lt⟩, fun hended hcalm => ?_,
    fun hended hserver hclient hforth hback r => ?_⟩
  · obtain ⟨⟨hserver, hclient⟩, hforth, hback⟩ := hend hended hcalm
    exact ⟨hserver, hclient, (holds_empty hrelays.forth hforth).symm, (holds_empty hrelays.back hback).symm⟩
  -- what is read and written is the same, so neither queue holds a byte
  · have hcomplete : Complete s := by
      refine ⟨⟨hserver, hclient⟩, ?_, ?_⟩
      · rw [← Bool.not_eq_true, holds_nonEmpty hrelays.forth, hforth]
        exact lt_irrefl _
      · rw [← Bool.not_eq_true, holds_nonEmpty hrelays.back, hback]
        exact lt_irrefl _
    rw [hmore hended [r]]
    exact hclosing.loop_quiet hactive ((quiet_iff hrelays r).2 hcomplete)

end AbcMahimahi.DnsProxy
