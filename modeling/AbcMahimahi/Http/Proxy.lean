/-
The loop of `HTTPProxy` (http_proxy.cc): a poller between a client and a server. What the client says is
parsed into requests, which are written to the server; what the server says is parsed into responses to
them, which are written to the client and saved in a backing store.
-/
import AbcMahimahi.Http.Assertions
import AbcMahimahi.Http.Waiting
import AbcMahimahi.Util.Poller

namespace AbcMahimahi.Http

open Bytes EventLoop Poller

/-- What happens in a poll. -/
structure ProxyRound where
  kernel : Kernel
  server : Socket
  client : Socket

/-- The descriptors, the parsers and the backing store of a connection, with what has been read and written so
far: the pieces of the client's stream, what has happened at the response parser, the requests and responses
that have been passed on, and the bytes that either side has got. -/
structure HTTPProxy (B : Type) where
  server : FileDescriptor := {}
  client : FileDescriptor := {}
  requestParser : HTTPRequestParser := .start ()
  responseParser : HTTPResponseParser := .start []
  backingStore : B
  clientSaid : List Bytes := []
  events : List ProxyEvent := []
  forwarded : List HTTPRequest := []
  answered : List HTTPResponse := []
  serverHeard : Bytes := []
  clientHeard : Bytes := []

namespace HTTPProxy

/-- `FileDescriptor::BUFFER_SIZE`, the limit of `read`. -/
def bufferSize : Nat := 1024 * 1024

variable {B : Type}

/-- Responses from the server go to the response parser. -/
def serverIn (r : ProxyRound) (s : HTTPProxy B) : Except Fault (Reply × HTTPProxy B) := do
  let (buffer, server) ← s.server.readSome (r.server.read bufferSize)
  let responseParser ← s.responseParser.parse buffer
  pure ({}, { s with server := server, responseParser := responseParser, events := s.events ++ [.bytes buffer] })

/-- Requests from the client go to the request parser. -/
def clientIn (r : ProxyRound) (s : HTTPProxy B) : Except Fault (Reply × HTTPProxy B) := do
  let (buffer, client) ← s.client.readSome (r.client.read bufferSize)
  let requestParser ← s.requestParser.parse buffer
  pure ({}, { s with client := client, requestParser := requestParser, clientSaid := s.clientSaid ++ [buffer] })

/-- A completed request from the client is serialized and sent to the server. -/
def serverOut (r : ProxyRound) (s : HTTPProxy B) : Except Fault (Reply × HTTPProxy B) := do
  -- the front of an empty queue is undefined; the poller asks for one that is not empty
  let request ← orOutOfRange s.requestParser.front
  let text ← request.str
  let (pieces, server) ← s.server.write r.server.write text
  pure ({}, { s with
    server := server
    responseParser := s.responseParser.newRequestArrived request
    requestParser := s.requestParser.pop
    events := s.events ++ [.request request]
    forwarded := s.forwarded ++ [request]
    serverHeard := s.serverHeard ++ pieces.flatten })

/-- A completed response from the server is serialized and sent to the client, and saved. -/
def clientOut (save : HTTPResponse → B → Except Fault B) (r : ProxyRound) (s : HTTPProxy B) :
    Except Fault (Reply × HTTPProxy B) := do
  let response ← orOutOfRange s.responseParser.front
  let text ← response.str
  let (pieces, client) ← s.client.write r.client.write text
  let backingStore ← save response s.backingStore
  pure ({}, { s with
    client := client
    responseParser := s.responseParser.pop
    backingStore := backingStore
    answered := s.answered ++ [response]
    clientHeard := s.clientHeard ++ pieces.flatten })

def actions (save : HTTPResponse → B → Except Fault B) : List (Action ProxyRound (HTTPProxy B)) :=
  [{ fd := HTTPProxy.server, direction := .input, callback := serverIn, whenInterested := fun _ s => !s.client.eof },
   { fd := HTTPProxy.client, direction := .input, callback := clientIn, whenInterested := fun _ s => !s.server.eof },
   { fd := HTTPProxy.server, direction := .output, callback := serverOut, whenInterested := fun _ s => !s.requestParser.empty },
   { fd := HTTPProxy.client, direction := .output, callback := clientOut save, whenInterested := fun _ s => !s.responseParser.empty }]

/-- `HTTPProxy::loop` on a connection, as far as the rounds go: whether it has returned. -/
def loop (save : HTTPResponse → B → Except Fault B) (backingStore : B) (rounds : List ProxyRound) :
    Except Fault (Bool × HTTPProxy B) :=
  Poller.loop ProxyRound.kernel (actions save) { backingStore := backingStore } rounds

/-! ## What the proxy keeps -/

/-- The pieces of a stream: the empty one that stands for its end comes last, and once. -/
def Ends (pieces : List Bytes) (eof : Bool) : Prop :=
  ∃ front, (∀ x ∈ front, x ≠ []) ∧ pieces = front ++ if eof then [[]] else []

/-- What has been passed on and what waits is what has been parsed; what has been written is the text of what has
been passed on, and the backing store holds the responses among it. -/
structure Records (save : HTTPResponse → B → Except Fault B) (start : B) (s : HTTPProxy B) : Prop where
  requests : Pieces.feed HTTPMessageSequence.parse (.start () : HTTPRequestParser) s.clientSaid =
    .ok (s.requestParser.behind s.forwarded)
  responses : s.events.foldlM ProxyEvent.step (.start []) = .ok (s.responseParser.behind s.answered)
  arrived : ProxyEvent.requests s.events = s.forwarded
  serverHeard : s.serverHeard = s.forwarded.flatMap HTTPMessage.serialized
  clientHeard : s.clientHeard = s.answered.flatMap HTTPMessage.serialized
  store : s.answered.foldlM (fun b m => save m b) start = .ok s.backingStore
  idle : HTTPRequestParser.Idle s.requestParser
  whole : s.responseParser.Whole
  clientEnds : Ends s.clientSaid s.client.eof
  serverEnds : Ends (ProxyEvent.pieces s.events) s.server.eof

/-- What can go wrong from a state on: a system call, a parser, the backing store, when the client has got all of the
response already, or a message of 4 GiB, whose pieces may take the counter of the descriptor all the way around. -/
inductive Fails (save : HTTPResponse → B → Except Fault B) (s : HTTPProxy B) : Fault → Prop
  | io {e : Fault} (h : IoFault e) : Fails save s e
  | request {e : Fault} {buf : Bytes} (h : s.requestParser.parse buf = .error e) (hthrown : e.Thrown) : Fails save s e
  | response {e : Fault} {buf : Bytes} (h : s.responseParser.parse buf = .error e) : Fails save s e
  | save {e : Fault} {m : HTTPResponse} {socket : Socket} {pieces : List Bytes} {client : FileDescriptor}
      (hm : s.responseParser.front = some m) (hwrite : s.client.write socket.write m.serialized = .ok (pieces, client))
      (hheard : pieces.flatten = m.serialized) (h : save m s.backingStore = .error e) : Fails save s e
  | hugeRequest {m : HTTPRequest} (hm : s.requestParser.front = some m) (h : 2 ^ 32 ≤ m.serialized.length) : Fails save s busyWait
  | hugeResponse {m : HTTPResponse} {b : B} (hm : s.responseParser.front = some m) (hsave : save m s.backingStore = .ok b)
      (h : 2 ^ 32 ≤ m.serialized.length) : Fails save s busyWait

/-- It fails in a state that meets the invariant. -/
def FailsSoundly (save : HTTPResponse → B → Except Fault B) (start : B) (e : Fault) : Prop :=
  ∃ s, Records save start s ∧ Fails save s e

/-- What holds in a poll that began at `s`, before the `n`-th action: what an action was asked for is still there. -/
structure Within (save : HTTPResponse → B → Except Fault B) (start : B) (s : HTTPProxy B) (n : Nat) (t : HTTPProxy B) : Prop where
  records : Records save start t
  server : n = 0 → t.server = s.server
  client : n ≤ 1 → t.client = s.client
  forth : n ≤ 2 → s.requestParser.empty = false → t.requestParser.empty = false
  back : n ≤ 3 → s.responseParser.empty = false → t.responseParser.empty = false

/-- What a callback of the proxy does. -/
def Does (save : HTTPResponse → B → Except Fault B) (start : B) (a : Action ProxyRound (HTTPProxy B)) (s : HTTPProxy B) (n : Nat)
    (t t' : HTTPProxy B) (reply : Reply) : Prop :=
  reply.result ≠ .exit ∧ (reply.result = .cancel → a.direction = .input ∧ (a.fd t').eof = true) ∧ Stays (actions save) t t' ∧
    (a.serviceCount t = a.serviceCount t' → FailsSoundly save start busyWait) ∧ Within save start s (n + 1) t'

theorem stays_of {save : HTTPResponse → B → Except Fault B} {t t' : HTTPProxy B} (hserver : t.server.eof = true → t'.server.eof = true)
    (hclient : t.client.eof = true → t'.client.eof = true) : Stays (actions save) t t' := by
  rintro a ha
  rcases List.mem_cons.1 ha with rfl | ha
  · exact hserver
  rcases List.mem_cons.1 ha with rfl | ha
  · exact hclient
  rcases List.mem_cons.1 ha with rfl | ha
  · exact hserver
  rw [List.mem_singleton.1 ha]
  exact hclient

theorem readSome_ok {fd fd' : FileDescriptor} {got : Option Bytes} {buffer : Bytes} (h : fd.readSome got = .ok (buffer, fd')) :
    got = some buffer ∧ fd' = fd.read buffer := by
  cases got with
  | none => cases h
  | some got => cases h; exact ⟨rfl, rfl⟩

theorem readSome_error {fd : FileDescriptor} {got : Option Bytes} {e : Fault} (h : fd.readSome got = .error e) : IoFault e := by
  cases got with
  | none => cases h; exact .read
  | some got => cases h

/-- A piece is read from a stream that has not ended. -/
theorem Ends.read {pieces : List Bytes} {fd : FileDescriptor} (h : Ends pieces fd.eof) (heof : fd.eof = false) (got : Bytes) :
    Ends (pieces ++ [got]) (fd.read got).eof := by
  obtain ⟨front, hfront, hpieces⟩ := h
  rw [heof, if_neg Bool.false_ne_true, List.append_nil] at hpieces
  unfold FileDescriptor.read FileDescriptor.registerRead
  cases hgot : got with
  | nil => exact ⟨front, hfront, by rw [hpieces]; rfl⟩
  | cons b bs =>
    refine ⟨front ++ [b :: bs], fun x hx => ?_, ?_⟩
    · rcases List.mem_append.1 hx with hx | hx
      · exact hfront x hx
      · rw [List.mem_singleton.1 hx]
        exact List.cons_ne_nil b bs
    · rw [hpieces]
      simp [heof]

theorem serialized_ne {S : Type} (m : HTTPMessage S) : m.serialized ≠ [] := by
  intro hnil
  have hlen := congrArg List.length hnil
  unfold HTTPMessage.serialized at hlen
  simp only [List.length_append, length_crlf, List.length_nil] at hlen
  omega

theorem str_whole {S : Type} {m : HTTPMessage S} (h : m.state = .complete) : m.str = .ok m.serialized := by
  unfold HTTPMessage.str
  rw [check_of (by simpa using h)]
  rfl

/-- The pieces of a message of less than 4 GiB do not take the counter all the way around. -/
theorem count_moves {fd fd' : FileDescriptor} {pieces : List Bytes} {text : Bytes} (hne : pieces ≠ [])
    (hlen : pieces.length ≤ text.length) (hfd : fd' = FileDescriptor.registerWrite^[pieces.length] fd)
    (hstuck : fd.writeCount = fd'.writeCount) : 2 ^ 32 ≤ text.length := by
  by_contra hlt
  refine FileDescriptor.writeCount_moves fd ?_ (hlen.trans_lt (not_le.1 hlt)) (hfd ▸ hstuck)
  exact fun hzero => hne (List.eq_nil_of_length_eq_zero hzero)

section

variable {save : HTTPResponse → B → Except Fault B} {start : B} {r : ProxyRound} {s t : HTTPProxy B}
  {a : Action ProxyRound (HTTPProxy B)}

theorem Within.skip {n : Nat} (h : Within save start s n t) : Within save start s (n + 1) t :=
  ⟨h.records, fun hn => absurd hn (Nat.succ_ne_zero n), fun hn => h.client (Nat.le_of_succ_le hn),
    fun hn => h.forth (Nat.le_of_succ_le hn), fun hn => h.back (Nat.le_of_succ_le hn)⟩

theorem Within.serverIn (ha : (actions save)[0]? = some a) (hasked : s.server.eof = false) (h : Within save start s 0 t) :
    (∀ e, a.callback r t = .error e → FailsSoundly save start e) ∧
    ∀ reply t', a.callback r t = .ok (reply, t') → Does save start a s 0 t t' reply := by
  cases ha
  refine ⟨fun e he => ?_, fun reply t' hs => ?_⟩
  · rcases Run.bind_error he with he | ⟨⟨buffer, server⟩, -, he⟩
    · exact ⟨t, h.records, .io (readSome_error he)⟩
    rcases Run.bind_error he with he | ⟨_, -, he⟩
    · exact ⟨t, h.records, .response he⟩
    · cases he
  obtain ⟨⟨buffer, server⟩, hread, hs⟩ := Run.bind_ok hs
  obtain ⟨responseParser, hparse, hs⟩ := Run.bind_ok hs
  cases hs
  obtain ⟨-, rfl⟩ := readSome_ok hread
  have hevents : (t.events ++ [ProxyEvent.bytes buffer]).foldlM ProxyEvent.step (.start []) =
      .ok (responseParser.behind t.answered) := by
    rw [List.foldlM_append, h.records.responses, Run.ok_bind]
    show (HTTPMessageSequence.parse (t.responseParser.behind t.answered) buffer >>= pure) = _
    rw [HTTPMessageSequence.parse_behind t.answered hparse]
    rfl
  have harrived : ProxyEvent.requests (t.events ++ [ProxyEvent.bytes buffer]) = t.forwarded := by
    rw [ProxyEvent.requests_append, h.records.arrived]
    exact List.append_nil _
  refine ⟨by decide, fun hcancel => (by cases hcancel), stays_of (fun heof => FileDescriptor.eof_read heof buffer) id,
    fun hstuck => absurd hstuck (FileDescriptor.readCount_moves _ _), ?_⟩
  have hends : Ends (ProxyEvent.pieces (t.events ++ [ProxyEvent.bytes buffer])) (t.server.read buffer).eof := by
    rw [ProxyEvent.pieces_append]
    exact h.records.serverEnds.read (by rw [h.server rfl]; exact hasked) buffer
  exact ⟨⟨h.records.requests, hevents, harrived, h.records.serverHeard, h.records.clientHeard, h.records.store, h.records.idle,
      HTTPMessageSequence.whole_parse h.records.whole hparse, h.records.clientEnds, hends⟩,
    fun hn => absurd hn (by decide), fun _ => h.client (by decide), fun _ => h.forth (by decide),
    fun _ hback => HTTPMessageSequence.nonempty_parse hparse (h.back (by decide) hback)⟩

theorem Within.clientIn (ha : (actions save)[1]? = some a) (hasked : s.client.eof = false) (h : Within save start s 1 t) :
    (∀ e, a.callback r t = .error e → FailsSoundly save start e) ∧
    ∀ reply t', a.callback r t = .ok (reply, t') → Does save start a s 1 t t' reply := by
  cases ha
  refine ⟨fun e he => ?_, fun reply t' hs => ?_⟩
  · rcases Run.bind_error he with he | ⟨⟨buffer, client⟩, -, he⟩
    · exact ⟨t, h.records, .io (readSome_error he)⟩
    rcases Run.bind_error he with he | ⟨_, -, he⟩
    · have hreturns := HTTPRequestParser.returns_parse h.records.idle buffer
      have hthrown : e.Thrown := by
        rw [he] at hreturns
        cases hreturns with
        | error hthrown => exact hthrown
      exact ⟨t, h.records, .request he hthrown⟩
    · cases he
  obtain ⟨⟨buffer, client⟩, hread, hs⟩ := Run.bind_ok hs
  obtain ⟨requestParser, hparse, hs⟩ := Run.bind_ok hs
  cases hs
  obtain ⟨-, rfl⟩ := readSome_ok hread
  have hfeed : Pieces.feed HTTPMessageSequence.parse (.start () : HTTPRequestParser) (t.clientSaid ++ [buffer]) =
      .ok (requestParser.behind t.forwarded) := by
    rw [Pieces.feed_append, h.records.requests, Run.ok_bind, Pieces.feed_cons, HTTPMessageSequence.parse_behind t.forwarded hparse]
    rfl
  have hidle : HTTPRequestParser.Idle requestParser := by
    have hreturns := HTTPRequestParser.returns_parse h.records.idle buffer
    rw [hparse] at hreturns
    cases hreturns with
    | ok hidle => exact hidle
  refine ⟨by decide, fun hcancel => (by cases hcancel), stays_of id (fun heof => FileDescriptor.eof_read heof buffer),
    fun hstuck => absurd hstuck (FileDescriptor.readCount_moves _ _), ?_⟩
  have hends : Ends (t.clientSaid ++ [buffer]) (t.client.read buffer).eof :=
    h.records.clientEnds.read (by rw [h.client le_rfl]; exact hasked) buffer
  exact ⟨⟨hfeed, h.records.responses, h.records.arrived, h.records.serverHeard, h.records.clientHeard, h.records.store, hidle,
      h.records.whole, hends, h.records.serverEnds⟩, fun hn => absurd hn (by decide), fun hn => absurd hn (by decide), fun _ hforth => HTTPMessageSequence.nonempty_parse hparse (h.forth (by decide) hforth),
    fun _ => h.back (by decide)⟩

theorem Within.serverOut (ha : (actions save)[2]? = some a) (hasked : s.requestParser.empty = false) (h : Within save start s 2 t) :
    (∀ e, a.callback r t = .error e → FailsSoundly save start e) ∧
    ∀ reply t', a.callback r t = .ok (reply, t') → Does save start a s 2 t t' reply := by
  cases ha
  obtain ⟨m, hm⟩ := HTTPMessageSequence.exists_front (h.forth le_rfl hasked)
  have hcomplete := h.records.idle.complete m (HTTPMessageSequence.front_mem hm)
  obtain ⟨herr, hok⟩ := FileDescriptor.write_spec t.server r.server (serialized_ne m)
  have hcall : HTTPProxy.serverOut r t = (do
      let (pieces, server) ← t.server.write r.server.write m.serialized
      pure ({}, { t with
        server := server
        responseParser := t.responseParser.newRequestArrived m
        requestParser := t.requestParser.pop
        events := t.events ++ [.request m]
        forwarded := t.forwarded ++ [m]
        serverHeard := t.serverHeard ++ pieces.flatten })) := by
    unfold HTTPProxy.serverOut
    rw [hm]
    dsimp only [orOutOfRange]
    rw [Run.ok_bind, str_whole hcomplete, Run.ok_bind]
  dsimp only
  rw [hcall]
  refine ⟨fun e he => ?_, fun reply t' hs => ?_⟩
  · rcases Run.bind_error he with he | ⟨_, -, he⟩
    · exact ⟨t, h.records, .io (herr e he)⟩
    · cases he
  obtain ⟨⟨pieces, server⟩, hwrite, hs⟩ := Run.bind_ok hs
  cases hs
  obtain ⟨hflat, hne, hlen, rfl⟩ := hok _ _ hwrite
  have hrequests : Pieces.feed HTTPMessageSequence.parse (.start () : HTTPRequestParser) t.clientSaid =
      .ok (t.requestParser.pop.behind (t.forwarded ++ [m])) := by
    rw [HTTPMessageSequence.behind_pop hm]
    exact h.records.requests
  have hresponses : (t.events ++ [ProxyEvent.request m]).foldlM ProxyEvent.step (.start []) =
      .ok ((t.responseParser.newRequestArrived m).behind t.answered) := by
    rw [List.foldlM_append, h.records.responses]
    rfl
  have harrived : ProxyEvent.requests (t.events ++ [ProxyEvent.request m]) = t.forwarded ++ [m] := by
    rw [ProxyEvent.requests_append, h.records.arrived]
    rfl
  have hheard : t.serverHeard ++ pieces.flatten = (t.forwarded ++ [m]).flatMap HTTPMessage.serialized := by
    rw [h.records.serverHeard, hflat, List.flatMap_append, List.flatMap_singleton]
  have hidle : HTTPRequestParser.Idle t.requestParser.pop :=
    ⟨⟨h.records.idle.inProgress, fun m' hm' => h.records.idle.complete m' (List.mem_of_mem_tail hm')⟩, h.records.idle.pending⟩
  refine ⟨by decide, fun hcancel => (by cases hcancel), stays_of ?_ id, fun hstuck => ?_, ?_⟩
  · intro heof
    dsimp only
    rw [FileDescriptor.eof_registerWrite]
    exact heof
  · exact ⟨t, h.records, .hugeRequest hm (count_moves hne hlen rfl hstuck)⟩
  · have hends : Ends (ProxyEvent.pieces (t.events ++ [ProxyEvent.request m]))
        (FileDescriptor.registerWrite^[pieces.length] t.server).eof := by
      rw [ProxyEvent.pieces_append, FileDescriptor.eof_registerWrite]
      show Ends (ProxyEvent.pieces t.events ++ []) _
      rw [List.append_nil]
      exact h.records.serverEnds
    exact ⟨⟨hrequests, hresponses, harrived, hheard, h.records.clientHeard, h.records.store, hidle, h.records.whole,
      h.records.clientEnds, hends⟩, fun hn => absurd hn (by decide), fun hn => absurd hn (by decide),
      fun hn => absurd hn (by decide), fun _ => h.back (by decide)⟩

theorem Within.clientOut (ha : (actions save)[3]? = some a) (hasked : s.responseParser.empty = false) (h : Within save start s 3 t) :
    (∀ e, a.callback r t = .error e → FailsSoundly save start e) ∧
    ∀ reply t', a.callback r t = .ok (reply, t') → Does save start a s 3 t t' reply := by
  cases ha
  obtain ⟨m, hm⟩ := HTTPMessageSequence.exists_front (h.back le_rfl hasked)
  have hcomplete := h.records.whole m (HTTPMessageSequence.front_mem hm)
  obtain ⟨herr, hok⟩ := FileDescriptor.write_spec t.client r.client (serialized_ne m)
  have hcall : HTTPProxy.clientOut save r t = (do
      let (pieces, client) ← t.client.write r.client.write m.serialized
      let backingStore ← save m t.backingStore
      pure ({}, { t with
        client := client
        responseParser := t.responseParser.pop
        backingStore := backingStore
        answered := t.answered ++ [m]
        clientHeard := t.clientHeard ++ pieces.flatten })) := by
    unfold HTTPProxy.clientOut
    rw [hm]
    dsimp only [orOutOfRange]
    rw [Run.ok_bind, str_whole hcomplete, Run.ok_bind]
  dsimp only
  rw [hcall]
  refine ⟨fun e he => ?_, fun reply t' hs => ?_⟩
  · rcases Run.bind_error he with he | ⟨⟨pieces, client⟩, hwrite, he⟩
    · exact ⟨t, h.records, .io (herr e he)⟩
    rcases Run.bind_error he with he | ⟨_, -, he⟩
    · exact ⟨t, h.records, .save hm hwrite (hok _ _ hwrite).1 he⟩
    · cases he
  obtain ⟨⟨pieces, client⟩, hwrite, hs⟩ := Run.bind_ok hs
  obtain ⟨backingStore, hsave, hs⟩ := Run.bind_ok hs
  cases hs
  obtain ⟨hflat, hne, hlen, rfl⟩ := hok _ _ hwrite
  have hresponses : t.events.foldlM ProxyEvent.step (.start []) = .ok (t.responseParser.pop.behind (t.answered ++ [m])) := by
    rw [HTTPMessageSequence.behind_pop hm]
    exact h.records.responses
  have hheard : t.clientHeard ++ pieces.flatten = (t.answered ++ [m]).flatMap HTTPMessage.serialized := by
    rw [h.records.clientHeard, hflat, List.flatMap_append, List.flatMap_singleton]
  have hstore : (t.answered ++ [m]).foldlM (fun b m => save m b) start = .ok backingStore := by
    rw [List.foldlM_append, h.records.store, Run.ok_bind]
    show (save m t.backingStore >>= pure) = _
    rw [hsave]
    rfl
  have hwhole : t.responseParser.pop.Whole := fun m' hm' => h.records.whole m' (List.mem_of_mem_tail hm')
  refine ⟨by decide, fun hcancel => (by cases hcancel), stays_of id ?_, fun hstuck => ?_, ?_⟩
  · intro heof
    dsimp only
    rw [FileDescriptor.eof_registerWrite]
    exact heof
  · exact ⟨t, h.records, .hugeResponse hm hsave (count_moves hne hlen rfl hstuck)⟩
  · have hends : Ends t.clientSaid (FileDescriptor.registerWrite^[pieces.length] t.client).eof := by
      rw [FileDescriptor.eof_registerWrite]
      exact h.records.clientEnds
    exact ⟨⟨h.records.requests, hresponses, h.records.arrived, h.records.serverHeard, hheard, hstore, h.records.idle, hwhole, hends,
      h.records.serverEnds⟩, fun hn => absurd hn (by decide), fun hn => absurd hn (by decide), fun hn => absurd hn (by decide),
      fun hn => absurd hn (by decide)⟩

end

/-! ## The loop -/

/-- Nothing is waiting, and one side at least is at its end. -/
def Settled (s : HTTPProxy B) : Prop :=
  (s.server.eof = true ∨ s.client.eof = true) ∧ s.requestParser.empty = true ∧ s.responseParser.empty = true

/-- A side is read as long as neither of them is at its end. -/
theorem read_iff {save : HTTPResponse → B → Except Fault B} {n : Nat} (hn : n < 2) {a : Action ProxyRound (HTTPProxy B)}
    (ha : (actions save)[n]? = some a) (r : ProxyRound) (s : HTTPProxy B) :
    a.events r s = true ↔ s.server.eof = false ∧ s.client.eof = false := by
  match n, ha with
  | 0, ha =>
    cases ha
    simp [Action.events]
  | 1, ha =>
    cases ha
    simp [Action.events, and_comm]

/-- The poller asks for nothing just when nothing is waiting and one side is at its end. -/
theorem quiet_iff (save : HTTPResponse → B → Except Fault B) (r : ProxyRound) (s : HTTPProxy B) :
    (∀ a ∈ actions save, a.events r s = false) ↔ s.Settled := by
  unfold Settled
  have hlist : (∀ a ∈ actions save, a.events r s = false) ↔ ((s.server.eof = true ∨ s.client.eof = true) ∧
      (s.client.eof = true ∨ s.server.eof = true)) ∧ s.requestParser.empty = true ∧ s.responseParser.empty = true := by
    simp [actions, Action.events]
    cases s.server.eof <;> cases s.client.eof <;> simp
  rw [hlist, or_comm (a := s.client.eof = true), and_self]

/-- The start of a connection. -/
theorem records_start (save : HTTPResponse → B → Except Fault B) (start : B) : Records save start { backingStore := start } where
  requests := rfl
  responses := rfl
  arrived := rfl
  serverHeard := rfl
  clientHeard := rfl
  store := rfl
  idle := HTTPRequestParser.idle_start
  whole := fun _ hm => absurd hm List.not_mem_nil
  clientEnds := ⟨[], fun _ hx => absurd hx List.not_mem_nil, rfl⟩
  serverEnds := ⟨[], fun _ hx => absurd hx List.not_mem_nil, rfl⟩

/-- A poll of the proxy keeps the invariant, and unless a descriptor is in trouble it exits when nothing is waiting
and one side is at its end. -/
theorem poll_records {save : HTTPResponse → B → Except Fault B} {start : B} {r : ProxyRound}
    {acts : List (Action ProxyRound (HTTPProxy B))} {s : HTTPProxy B} (hclosing : Closing (actions save) acts s)
    (h : Records save start s) :
    (∀ e, poll r.kernel r acts s = .error e → FailsSoundly save start e) ∧
    ∀ result acts' s', poll r.kernel r acts s = .ok (result, acts', s') →
      (Closing (actions save) acts' s' ∧ Records save start s') ∧
        ∀ status, result = .exit status → r.kernel.HangsUp ∨ s'.Settled := by
  have hpoll : (∀ e, poll r.kernel r acts s = .error e → FailsSoundly save start e) ∧
      ∀ result acts' s', poll r.kernel r acts s = .ok (result, acts', s') →
        (Records save start s' ∧ ∀ status, result = .exit status → r.kernel.HangsUp ∨ s'.Settled) ∧
          Closing (actions save) acts' s' := by
    refine poll_closing (I := fun n t => Within save start s n t)
      (P := fun result t => Records save start t ∧ ∀ status, result = .exit status → r.kernel.HangsUp ∨ t.Settled)
      ?_ hclosing ⟨h, fun _ => rfl, fun _ => rfl, fun _ => id, fun _ => id⟩ ?_ ?_ ?_ ?_ ?_ ?_ ?_
    · simp [actions]
    · exact fun hquiet => ⟨h, fun _ _ => Or.inr ((quiet_iff save r s).1 hquiet)⟩
    · exact fun _ => ⟨h, fun status hexit => (by cases hexit)⟩
    · exact fun _ => ⟨s, h, .io .poll⟩
    · exact fun t ht => ⟨ht.records, fun status hexit => (by cases hexit)⟩
    · exact fun revents n t hkernel ht hhangup => ⟨ht.records, fun _ _ => Or.inl ⟨revents, n, hkernel, hhangup⟩⟩
    · exact fun n t ht => ht.skip
    · rintro n a t ha hasked ht
      match n, ha with
      | 0, ha => exact ht.serverIn ha ((read_iff (by decide) ha r s).1 hasked).1
      | 1, ha => exact ht.clientIn ha ((read_iff (by decide) ha r s).1 hasked).2
      | 2, ha =>
        have hwanted := interested_of_events hasked
        refine ht.serverOut ha ?_
        cases ha
        simpa using hwanted
      | 3, ha =>
        have hwanted := interested_of_events hasked
        refine ht.clientOut ha ?_
        cases ha
        simpa using hwanted
  obtain ⟨herr, hok⟩ := hpoll
  refine ⟨herr, fun result acts' s' hs => ?_⟩
  obtain ⟨⟨hrecords, hexit⟩, hclosing'⟩ := hok result acts' s' hs
  exact ⟨⟨hclosing', hrecords⟩, hexit⟩

theorem actions_active {save : HTTPResponse → B → Except Fault B} : ∀ a ∈ actions save, a.active = true := by
  simp [actions]

/-- A loop that has not ended is taken up again from where it is. -/
theorem loop_records (save : HTTPResponse → B → Except Fault B) (start : B) (rounds : List ProxyRound) :
    (∀ e, loop save start rounds = .error e → FailsSoundly save start e) ∧
    ∀ ended s, loop save start rounds = .ok (ended, s) →
      Records save start s ∧ (ended = true → (∀ r ∈ rounds, ¬ r.kernel.HangsUp) → s.Settled) ∧
      ∃ acts, Closing (actions save) acts s ∧
        (ended = false → ∀ more, loop save start (rounds ++ more) = Poller.loop ProxyRound.kernel acts s more) := by
  have hpolls : ∀ r ∈ rounds, ∀ acts s, (Closing (actions save) acts s ∧ Records save start s) →
      (∀ e, poll r.kernel r acts s = .error e → FailsSoundly save start e) ∧
      ∀ result acts' s', poll r.kernel r acts s = .ok (result, acts', s') →
        (Closing (actions save) acts' s' ∧ Records save start s') ∧
          ∀ status, result = .exit status → (∀ r ∈ rounds, ¬ r.kernel.HangsUp) → s'.Settled := by
    rintro r hr acts s ⟨hclosing, hrecords⟩
    obtain ⟨herr, hok⟩ := poll_records (r := r) hclosing hrecords
    refine ⟨herr, fun result acts' s' hs => ?_⟩
    obtain ⟨hkept, hexit⟩ := hok result acts' s' hs
    exact ⟨hkept, fun status hstatus hcalm => (hexit status hstatus).resolve_left (hcalm r hr)⟩
  obtain ⟨herr, hok⟩ := loop_rule hpolls ⟨closing_self actions_active { backingStore := start }, records_start save start⟩
  refine ⟨herr, fun ended s hs => ?_⟩
  obtain ⟨hend, acts, ⟨hclosing, hrecords⟩, hmore⟩ := hok ended s hs
  exact ⟨hrecords, hend, acts, hclosing, hmore⟩

/-- Responses get the requests in the order in which these were forwarded. -/
theorem answered_prefix {save : HTTPResponse → B → Except Fault B} {start : B} {s : HTTPProxy B} (h : Records save start s) :
    (s.answered ++ s.responseParser.completeMessages).map (·.members.request) <+: s.forwarded := by
  have hasked := ProxyEvent.asked_run h.responses
  rw [h.arrived] at hasked
  have hstart : HTTPMessageSequence.asked (.start [] : HTTPResponseParser) = [] := rfl
  rw [hstart, List.nil_append] at hasked
  rw [← hasked]
  unfold HTTPMessageSequence.asked
  rw [List.append_assoc]
  exact List.prefix_append _ _

/-- The loop of the proxy, whatever the two sides send, however their sockets cut it up, and whatever `::poll`
returns. Requests are passed on in order, each as the text of what was parsed, and so are responses; the k-th
response that is saved is saved with the k-th request that was forwarded. No assertion of the request parser
fails, and no call is a busy wait unless a message has 4 GiB. Unless a descriptor is in trouble the loop ends only
when one side is at its end and all that was parsed has been passed on; and then it does, in the next poll. -/
theorem proxy_records (save : HTTPResponse → B → Except Fault B) (start : B) (rounds : List ProxyRound) :
    (∀ e, loop save start rounds = .error e → FailsSoundly save start e) ∧
    ∀ ended s, loop save start rounds = .ok (ended, s) →
      Records save start s ∧
      (s.answered ++ s.responseParser.completeMessages).map (·.members.request) <+: s.forwarded ∧
      (ended = true → (∀ r ∈ rounds, ¬ r.kernel.HangsUp) → s.Settled) ∧
      (ended = false → s.Settled → ∀ r, loop save start (rounds ++ [r]) = .ok (true, s)) := by
  obtain ⟨herr, hok⟩ := loop_records save start rounds
  refine ⟨herr, fun ended s hs => ?_⟩
  obtain ⟨hrecords, hend, acts, hclosing, hmore⟩ := hok ended s hs
  refine ⟨hrecords, answered_prefix hrecords, hend, fun hended hsettled r => ?_⟩
  rw [hmore hended [r]]
  exact hclosing.loop_quiet actions_active ((quiet_iff save r s).2 hsettled)

/-! ## A side that is at its end -/

/-- Nothing has been read since. -/
structure Since (s t : HTTPProxy B) : Prop where
  ended : t.server.eof = true ∨ t.client.eof = true
  clientSaid : t.clientSaid = s.clientSaid
  serverSaid : ProxyEvent.pieces t.events = ProxyEvent.pieces s.events
  requests : t.forwarded ++ t.requestParser.completeMessages = s.forwarded ++ s.requestParser.completeMessages
  responses : t.answered ++ t.responseParser.completeMessages = s.answered ++ s.responseParser.completeMessages

theorem orOutOfRange_ok {α : Type} {x : Option α} {a : α} (h : orOutOfRange x = .ok a) : x = some a := by
  cases x with
  | none => cases h
  | some b => cases h; rfl

theorem str_ok {S : Type} {m : HTTPMessage S} {text : Bytes} (h : m.str = .ok text) : text = m.serialized := by
  obtain ⟨_, -, h⟩ := Run.bind_ok h
  cases h
  rfl

/-- Writing a message leaves the end of the file where it is. -/
theorem eof_write {S : Type} {fd fd' : FileDescriptor} {socket : Socket} {m : HTTPMessage S} {text : Bytes} {pieces : List Bytes}
    (hstr : m.str = .ok text) (h : fd.write socket.write text = .ok (pieces, fd')) : fd'.eof = fd.eof := by
  rw [str_ok hstr] at h
  obtain ⟨-, -, -, rfl⟩ := (FileDescriptor.write_spec fd socket (serialized_ne m)).2 _ _ h
  exact FileDescriptor.eof_registerWrite _ _

theorem completeMessages_pop {S D : Type} {q : HTTPMessageSequence S D} {m : HTTPMessage S} (h : q.front = some m)
    (taken : List (HTTPMessage S)) : taken ++ [m] ++ q.pop.completeMessages = taken ++ q.completeMessages :=
  congrArg HTTPMessageSequence.completeMessages (HTTPMessageSequence.behind_pop h taken)

section

variable {save : HTTPResponse → B → Except Fault B} {s t t' : HTTPProxy B} {r : ProxyRound} {reply : Reply}

theorem Since.serverOut (save : HTTPResponse → B → Except Fault B) (h : Since s t) (hs : HTTPProxy.serverOut r t = .ok (reply, t')) :
    reply = {} ∧ Stays (actions save) t t' ∧ Since s t' := by
  obtain ⟨m, hm, hs⟩ := Run.bind_ok hs
  obtain ⟨text, hstr, hs⟩ := Run.bind_ok hs
  obtain ⟨⟨pieces, server⟩, hwrite, hs⟩ := Run.bind_ok hs
  cases hs
  have heof := eof_write hstr hwrite
  have hpieces : ProxyEvent.pieces (t.events ++ [ProxyEvent.request m]) = ProxyEvent.pieces t.events := by
    rw [ProxyEvent.pieces_append]
    exact List.append_nil _
  refine ⟨rfl, stays_of (fun h => heof.trans h) id, ?_, h.clientSaid, hpieces.trans h.serverSaid, ?_, h.responses⟩
  · dsimp only
    rw [heof]
    exact h.ended
  · exact (completeMessages_pop (orOutOfRange_ok hm) t.forwarded).trans h.requests

theorem Since.clientOut (h : Since s t) (hs : HTTPProxy.clientOut save r t = .ok (reply, t')) :
    reply = {} ∧ Stays (actions save) t t' ∧ Since s t' := by
  obtain ⟨m, hm, hs⟩ := Run.bind_ok hs
  obtain ⟨text, hstr, hs⟩ := Run.bind_ok hs
  obtain ⟨⟨pieces, client⟩, hwrite, hs⟩ := Run.bind_ok hs
  obtain ⟨backingStore, -, hs⟩ := Run.bind_ok hs
  cases hs
  have heof := eof_write hstr hwrite
  refine ⟨rfl, stays_of id (fun h => heof.trans h), ?_, h.clientSaid, h.serverSaid, h.requests, ?_⟩
  · dsimp only
    rw [heof]
    exact h.ended
  · exact (completeMessages_pop (orOutOfRange_ok hm) t.answered).trans h.responses

/-- A poll after one side has come to its end reads from neither of them. -/
theorem poll_since {acts : List (Action ProxyRound (HTTPProxy B))} (hclosing : Closing (actions save) acts t) (h : Since s t) :
    (∀ e, poll r.kernel r acts t = .error e → True) ∧
    ∀ result acts' t', poll r.kernel r acts t = .ok (result, acts', t') →
      (Closing (actions save) acts' t' ∧ Since s t') ∧ ∀ status, result = .exit status → True := by
  have hpoll : (∀ e, poll r.kernel r acts t = .error e → True) ∧
      ∀ result acts' t', poll r.kernel r acts t = .ok (result, acts', t') → Since s t' ∧ Closing (actions save) acts' t' := by
    refine poll_closing (I := fun _ t' => Since s t') (P := fun _ t' => Since s t') actions_active hclosing h (fun _ => h) (fun _ => h)
      (fun _ => trivial) (fun _ h' => h') (fun _ _ _ _ h' _ => h') (fun _ _ h' => h') ?_
    rintro n a t₁ ha hasked h₁
    have hnotRead : ¬ n < 2 := by
      intro hn
      obtain ⟨hserver, hclient⟩ := (read_iff hn ha r t).1 hasked
      rcases h.ended with heof | heof
      · rw [hserver] at heof; cases heof
      · rw [hclient] at heof; cases heof
    refine ⟨fun _ _ => trivial, fun reply t' hs => ?_⟩
    match n, ha with
    | 0, _ => exact absurd (by decide) hnotRead
    | 1, _ => exact absurd (by decide) hnotRead
    | 2, ha =>
      cases ha
      obtain ⟨rfl, hstays, hsince⟩ := h₁.serverOut save hs
      exact ⟨by decide, fun hcancel => (by cases hcancel), hstays, fun _ => trivial, hsince⟩
    | 3, ha =>
      cases ha
      obtain ⟨rfl, hstays, hsince⟩ := h₁.clientOut hs
      exact ⟨by decide, fun hcancel => (by cases hcancel), hstays, fun _ => trivial, hsince⟩
  refine ⟨fun _ _ => trivial, fun result acts' t' hs => ?_⟩
  obtain ⟨hsince, hclosing'⟩ := hpoll.2 _ _ _ hs
  exact ⟨⟨hclosing', hsince⟩, fun _ _ => trivial⟩

end

/-- Once the client or the server has come to its end, neither of them is read any more. So a client that
closes its half of the connection behind its requests gets the responses that were complete by then, and no other:
whatever the server says later is neither passed on nor saved. -/
theorem half_closed {save : HTTPResponse → B → Except Fault B} {start : B} {rounds : List ProxyRound} {s : HTTPProxy B}
    (h : loop save start rounds = .ok (false, s)) (heof : s.server.eof = true ∨ s.client.eof = true)
    {more : List ProxyRound} {ended : Bool} {s' : HTTPProxy B} (h' : loop save start (rounds ++ more) = .ok (ended, s')) :
    s'.clientSaid = s.clientSaid ∧ ProxyEvent.pieces s'.events = ProxyEvent.pieces s.events ∧
    s'.forwarded ++ s'.requestParser.completeMessages = s.forwarded ++ s.requestParser.completeMessages ∧
    s'.answered ++ s'.responseParser.completeMessages = s.answered ++ s.responseParser.completeMessages := by
  obtain ⟨-, -, acts, hclosing, hmore⟩ := (loop_records save start rounds).2 false s h
  rw [hmore rfl more] at h'
  have hstart : Since s s := ⟨heof, rfl, rfl, rfl, rfl⟩
  have hrest := (loop_rule
    (J := fun acts t => Closing (actions save) acts t ∧ Since s t) (D := fun _ => True) (B := fun _ => True)
    (fun r _ acts t ht => poll_since (r := r) ht.1 ht.2) ⟨hclosing, hstart⟩).2 ended s' h'
  obtain ⟨-, -, ⟨-, hsince⟩, -⟩ := hrest
  exact ⟨hsince.clientSaid, hsince.serverSaid, hsince.requests, hsince.responses⟩

/-- A socket that has bytes to read, and takes whole what is written to it. -/
def quickSocket (got : Bytes) : Socket where
  read limit := some (got.take limit)
  write _ offered := some offered.length
  read_le limit got' h := by
    cases h
    exact List.length_take_le limit got
  write_le _ offered taken h := by
    cases h
    exact le_rfl

/-- A poll in which the given actions' descriptors are ready. -/
def quickRound (ready : Nat → Bool) (serverSays clientSays : Bytes) : ProxyRound :=
  ⟨.ready fun n => { input := ready n, output := ready n }, quickSocket serverSays, quickSocket clientSays⟩

/-- A client that says a request and no more. -/
def halfClosing : List ProxyRound :=
  [quickRound (· = 1) [] (ascii "GET / HTTP/1.1\r\n\r\n"), quickRound (fun n => n = 1 || n = 2) [] []]

/-- The response is there to be read, too late. -/
def lateResponse : List ProxyRound := [quickRound (fun _ => true) (ascii "HTTP/1.1 204 No Content\r\n\r\n") []]

def saveAll (m : HTTPResponse) (saved : List HTTPResponse) : Except Fault (List HTTPResponse) := pure (saved ++ [m])

theorem half_closed_late : ∃ s s', loop saveAll [] halfClosing = .ok (false, s) ∧ s.serverHeard = ascii "GET / HTTP/1.1\r\n\r\n" ∧
    loop saveAll [] (halfClosing ++ lateResponse) = .ok (true, s') ∧ ProxyEvent.pieces s'.events = ProxyEvent.pieces s.events ∧
    s'.answered ++ s'.responseParser.completeMessages = s.answered ++ s.responseParser.completeMessages := by
  have hrun : (fun r => (r.1, r.2.client.eof, r.2.serverHeard)) <$> loop saveAll [] halfClosing =
      .ok (false, true, ascii "GET / HTTP/1.1\r\n\r\n") := by decide +kernel
  have hmore : (fun r => r.1) <$> loop saveAll [] (halfClosing ++ lateResponse) = .ok true := by decide +kernel
  obtain ⟨⟨ended, s⟩, h, hvalues⟩ := Run.map_eq_ok hrun
  obtain ⟨⟨ended', s'⟩, h', rfl⟩ := Run.map_eq_ok hmore
  simp only [Prod.mk.injEq] at hvalues
  obtain ⟨rfl, heof, hheard⟩ := hvalues
  obtain ⟨-, hpieces, -, hresponses⟩ := half_closed h (Or.inr heof) h'
  exact ⟨s, s', h, hheard, h', hpieces, hresponses⟩

end HTTPProxy

end AbcMahimahi.Http
