/-
Which request a response is taken to answer. The response parser takes the next request of its queue for every response,
interim ones too, and goes on with the next response where it found the end of the body. So responses are paired with
their own requests where no request is answered by an interim response and the rules of the source find every body.
-/
import AbcMahimahi.Http.Answers

namespace AbcMahimahi.Http

open Bytes

/-! ## A chunk that wraps around fails at once -/

theorem ChunkedBodyParser.AtWrappingChunk.fails {p : ChunkedBodyParser} {x : Bytes} (h : p.AtWrappingChunk x) (b : UInt8) :
    p.read [b] = .error .outOfRange := by
  obtain ⟨hstate, hbuffer, hwide, -⟩ := h
  have hturn := turn_chunk (p := { p with parserBuffer := p.parserBuffer ++ [b] }) 1 (by simp) hstate
  have hlt := p.currentChunkSize.toNat_lt
  have hend : p.chunkEnd ≤ 1 := by
    unfold chunkEnd
    rw [UInt32.toNat_add]
    simp only [UInt32.reduceToNat]
    omega
  rw [hbuffer] at hturn
  have hleave : ({ p with parserBuffer := [b] } : ChunkedBodyParser).leaveChunk = .error .outOfRange := by
    unfold leaveChunk substr
    dsimp only
    rw [if_neg (by simp only [List.length_singleton]; omega)]
    rfl
  rw [read_eq, hbuffer]
  refine Loop.whole_error (hturn.trans ?_)
  dsimp only [List.nil_append]
  rw [if_pos (by exact hend), hleave]
  rfl

theorem responses_failAtOnce : Pieces.FailsAtOnce (HTTPMessageSequence.parse (S := ResponseMembers) (D := List HTTPRequest))
    HTTPMessageSequence.Quiet HTTPMessageSequence.Bad := by
  rintro q x hquiet ⟨hstate, hunknown, p, hp, hwrap⟩
  -- in a chunk that wraps around the buffer has been emptied, and the next byte is thrown at
  have hbuffer : q.buffer = [] := by
    unfold HTTPMessageSequence.Quiet at hquiet
    rw [hstate] at hquiet
    exact hquiet.1
  have hx : x ≠ [] := by
    rintro rfl
    have := hwrap.2.2.2.length_le
    rw [List.drop_nil, length_crlf] at this
    exact absurd this (by decide)
  obtain ⟨b, y, rfl⟩ := List.exists_cons_of_ne_nil hx
  refine ⟨b, y, .outOfRange, rfl, ?_⟩
  rw [HTTPMessageSequence.parse_eq (List.cons_ne_nil b [])]
  refine HTTPMessageSequence.drain_error ?_
  rw [HTTPMessageSequence.parsingStep_body (q := q.append [b]) hstate]
  unfold HTTPMessageSequence.stepBody HTTPMessageSequence.append
  dsimp only
  rw [hbuffer, List.nil_append, HTTPMessage.readInBody_complex hstate hunknown]
  have hread := HTTPResponse.readInComplexBody_eq hstate hp [b]
  unfold BodyParser.read at hread
  dsimp only at hread
  rw [hwrap.fails b] at hread
  rw [show MessageClass.readInComplexBody q.messageInProgress [b] = .error .outOfRange from hread]
  rfl

/-! ## What a call of `parse` does with the requests and the complete responses -/

namespace HTTPMessageSequence

variable {q q' : HTTPResponseParser}

/-- More requests at the end of the queue. -/
def announce (q : HTTPResponseParser) (requests : List HTTPRequest) : HTTPResponseParser :=
  { q with members := q.members ++ requests }

/-- A request has left the queue for each complete response, and for the one in progress. -/
def taken (q : HTTPResponseParser) : Nat :=
  q.completeMessages.length + if q.messageInProgress.state = .firstLinePending then 0 else 1

theorem taken_pending (h : q.messageInProgress.state = .firstLinePending) : q.taken = q.completeMessages.length := by
  unfold taken
  rw [if_pos h, Nat.add_zero]

theorem taken_started (h : q.messageInProgress.state ≠ .firstLinePending) : q.taken = q.completeMessages.length + 1 := by
  unfold taken
  rw [if_neg h]

/-- What one step, or many, keep: complete responses stay, and what has been taken from the queue and
what is in it stays the same in number; a queue with more requests behind makes no difference. -/
structure Follows (q q' : HTTPResponseParser) : Prop where
  complete : q.completeMessages <+: q'.completeMessages
  count : q'.taken + q'.members.length = q.taken + q.members.length

theorem Follows.refl (q : HTTPResponseParser) : Follows q q := ⟨List.prefix_rfl, rfl⟩

theorem Follows.trans {q'' : HTTPResponseParser} (h : Follows q q') (h' : Follows q' q'') : Follows q q'' :=
  ⟨h.complete.trans h'.complete, h'.count.trans h.count⟩

/-- A message whose first line is there. -/
theorem headerLine_started {m m' : HTTPResponse} {line : Bytes} (h : headerLine m line = .ok m') :
    m'.state ≠ .firstLinePending := by
  unfold headerLine at h
  split at h
  · obtain ⟨_, -, h⟩ := Run.bind_ok h
    obtain ⟨hstate, ⟨value, rfl⟩ | ⟨p, -, rfl⟩⟩ := HTTPResponse.calculateExpectedBodySize_ok h
    · rw [hstate]; decide
    · rw [hstate]; decide
  · obtain ⟨_, hcheck, h⟩ := Run.bind_ok h
    obtain ⟨header, -, h⟩ := Run.bind_ok h
    have hstate : m.state = .headersPending := by simpa using check_ok hcheck
    cases h
    rw [hstate]
    decide

theorem readInBody_started {m m' : HTTPResponse} {str : Bytes} {n : Nat} (h : m.readInBody str = .ok (n, m')) :
    m'.state ≠ .firstLinePending := by
  obtain ⟨_, hcheck, h⟩ := Run.bind_ok h
  have hstate : m.state = .bodyPending := by simpa using check_ok hcheck
  obtain ⟨known, -, h⟩ := Run.bind_ok h
  split at h
  · obtain ⟨expected, -, h⟩ := Run.bind_ok h
    obtain ⟨_, -, h⟩ := Run.bind_ok h
    cases h
    dsimp only
    split
    · decide
    · rw [hstate]; decide
  · obtain ⟨_, -, h⟩ := Run.bind_ok h
    split at h
    · cases h
    · obtain ⟨⟨amount, p⟩, -, h⟩ := Run.bind_ok h
      cases amount with
      | none => cases h; rw [hstate]; decide
      | some k => cases h; exact HTTPMessageState.noConfusion

theorem eof_taken {m m' : HTTPResponse} (h : m.eof = .ok m') : m'.state = .firstLinePending ↔ m.state = .firstLinePending := by
  unfold HTTPMessage.eof at h
  split at h
  · cases h; exact Iff.rfl
  · cases h
  · rename_i hstate
    obtain ⟨ends, -, h⟩ := Run.bind_ok h
    cases h
    split
    · rw [hstate]; exact iff_of_false HTTPMessageState.noConfusion HTTPMessageState.noConfusion
    · exact Iff.rfl
  · cases h

/-- One step, on its own and with more requests behind. -/
theorem parsingStep_follows {go : Bool} (h : q.parsingStep = .ok (go, q')) :
    Follows q q' ∧ ∀ requests, (q.announce requests).parsingStep = .ok (go, q'.announce requests) := by
  cases hstate : q.messageInProgress.state with
  | firstLinePending =>
    rw [parsingStep_firstLine hstate] at h
    -- the first line takes a request, and those announced later stand behind it
    cases hfind : find crlf q.buffer with
    | none =>
      rw [stepFirstLine_none hfind] at h
      cases h
      exact ⟨.refl q, fun requests => (parsingStep_firstLine (q := q.announce requests) hstate).trans
        (stepFirstLine_none (q := q.announce requests) hfind)⟩
    | some it =>
      rw [stepFirstLine_some hfind] at h
      obtain ⟨⟨m, members⟩, hnew, h⟩ := Run.bind_ok h
      obtain ⟨m', hm, h⟩ := Run.bind_ok h
      cases h
      cases hmembers : q.members with
      | nil => rw [hmembers] at hnew; cases hnew
      | cons request rest =>
        rw [hmembers] at hnew
        obtain ⟨m₁, hset, hnew⟩ := Run.bind_ok hnew
        cases hnew
        have hstarted : m'.state = .headersPending := by
          obtain ⟨_, -, hm⟩ := Run.bind_ok hm
          cases hm
          rfl
        refine ⟨⟨List.prefix_rfl, ?_⟩, fun requests => ?_⟩
        · rw [taken_pending hstate, taken_started (by rw [hstarted]; decide), hmembers, List.length_cons]
          dsimp only
          omega
        · have hnew' : ParserClass.initializeNewMessage q.messageInProgress (q.announce requests).members =
              .ok (m, members ++ requests) := by
            show initializeNewResponse q.messageInProgress (q.members ++ requests) = _
            rw [hmembers, List.cons_append]
            unfold initializeNewResponse
            dsimp only
            rw [hset]
            rfl
          rw [parsingStep_firstLine (q := q.announce requests) hstate, stepFirstLine_some (q := q.announce requests) hfind]
          show (ParserClass.initializeNewMessage q.messageInProgress (q.announce requests).members >>= _) = _
          rw [hnew', Run.ok_bind]
          dsimp only
          rw [show (q.announce requests).buffer = q.buffer from rfl, hm]
          rfl
  | headersPending =>
    rw [parsingStep_headers hstate] at h
    cases hfind : find crlf q.buffer with
    | none =>
      rw [stepHeaders_none hfind] at h
      cases h
      exact ⟨.refl q, fun requests => (parsingStep_headers (q := q.announce requests) hstate).trans
        (stepHeaders_none (q := q.announce requests) hfind)⟩
    | some it =>
      rw [stepHeaders_some hfind] at h
      obtain ⟨m, hm, h⟩ := Run.bind_ok h
      cases h
      refine ⟨⟨List.prefix_rfl, ?_⟩, fun requests => ?_⟩
      · rw [taken_started (headerLine_started hm), taken_started (by rw [hstate]; decide)]
      · rw [parsingStep_headers (q := q.announce requests) hstate, stepHeaders_some (q := q.announce requests) hfind]
        show (headerLine q.messageInProgress (q.buffer.take it) >>= _) = _
        rw [hm]
        rfl
  | bodyPending =>
    rw [parsingStep_body hstate] at h
    obtain ⟨n, m, hread, hle, hall, rfl, rfl⟩ := stepBody_ok h
    refine ⟨⟨List.prefix_rfl, ?_⟩, fun requests => ?_⟩
    · rw [taken_started (readInBody_started hread), taken_started (by rw [hstate]; decide)]
    · rw [parsingStep_body (q := q.announce requests) hstate]
      unfold stepBody
      rw [show (q.announce requests).messageInProgress.readInBody (q.announce requests).buffer = .ok (n, m) from hread,
        Run.ok_bind]
      dsimp only
      rw [show (q.announce requests).buffer = q.buffer from rfl, check_of (by simpa using hall), Run.ok_bind,
        InternalBuffer.popBytes_of_le hle]
      rfl
  | complete =>
    rw [parsingStep_complete hstate] at h
    cases h
    refine ⟨⟨List.prefix_append _ _, ?_⟩, fun requests => parsingStep_complete (q := q.announce requests) hstate⟩
    rw [taken_pending (q := q.stepComplete) rfl, taken_started (by rw [hstate]; decide)]
    unfold stepComplete
    rw [List.length_append, List.length_singleton]

theorem drain_follows (h : q.drain = .ok q') :
    Follows q q' ∧ ∀ requests, (q.announce requests).drain = .ok (q'.announce requests) := by
  have hwhole : ∀ q', q.drain = .ok q' →
      Follows q q' ∧ ∀ requests, (q.announce requests).drain = .ok (q'.announce requests) := by
    refine Loop.whole_inv turn_lowers
      (I := fun s => Follows q s ∧ ∀ requests, (q.announce requests).drain = (s.announce requests).drain)
      (Q := fun r => ∀ q', r = .ok q' →
        Follows q q' ∧ ∀ requests, (q.announce requests).drain = .ok (q'.announce requests)) ?_ ?_ ?_ ⟨.refl q, fun _ => rfl⟩
    · rintro s s' ⟨hs, hdrain⟩ hturn
      obtain ⟨⟨go, s₁⟩, hstep, hgo⟩ := Run.map_eq_ok hturn
      cases go with
      | false => cases hgo
      | true =>
        cases hgo
        obtain ⟨hfollows, hannounce⟩ := parsingStep_follows hstep
        exact ⟨hs.trans hfollows, fun requests => (hdrain requests).trans (drain_go (hannounce requests))⟩
    · rintro s s' ⟨hs, hdrain⟩ hturn q' hq'
      cases hq'
      obtain ⟨⟨go, s₁⟩, hstep, hgo⟩ := Run.map_eq_ok hturn
      cases go with
      | true => cases hgo
      | false =>
        cases hgo
        obtain ⟨hfollows, hannounce⟩ := parsingStep_follows hstep
        exact ⟨hs.trans hfollows, fun requests => (hdrain requests).trans (drain_stop (hannounce requests))⟩
    · rintro s e - - q' hq'
      cases hq'
  exact hwhole q' h

theorem parse_follows {buf : Bytes} (h : q.parse buf = .ok q') :
    Follows q q' ∧ ∀ requests, (q.announce requests).parse buf = .ok (q'.announce requests) := by
  obtain ⟨m, hnotice, h⟩ := Run.bind_ok h
  obtain ⟨hfollows, hannounce⟩ := drain_follows h
  have htaken : m.state = .firstLinePending ↔ q.messageInProgress.state = .firstLinePending := by
    unfold notice at hnotice
    split at hnotice
    · exact eof_taken hnotice
    · cases hnotice; exact Iff.rfl
  refine ⟨⟨hfollows.complete, hfollows.count.trans ?_⟩, fun requests => ?_⟩
  · unfold taken
    simp only [htaken]
  · unfold parse
    rw [show (q.announce requests).notice buf = .ok m from hnotice]
    exact hannounce requests

theorem feed_follows : ∀ {pieces : List Bytes} {q q' : HTTPResponseParser}, Pieces.feed parse q pieces = .ok q' →
    Follows q q' ∧ ∀ requests, Pieces.feed parse (q.announce requests) pieces = .ok (q'.announce requests)
  | [], q, q', h => by
    cases h
    exact ⟨.refl q, fun _ => rfl⟩
  | x :: pieces, q, q', h => by
    rw [Pieces.feed_cons] at h
    obtain ⟨q₁, hx, h⟩ := Run.bind_ok h
    obtain ⟨hfirst, hannounce⟩ := parse_follows hx
    obtain ⟨hrest, hannounce'⟩ := feed_follows h
    refine ⟨hfirst.trans hrest, fun requests => ?_⟩
    rw [Pieces.feed_cons, hannounce requests]
    exact hannounce' requests

end HTTPMessageSequence

/-! ## Exchanges -/

/-- A request and the responses to it. -/
structure Exchange where
  request : HTTPRequest
  interim : List Answer
  final : Answer

namespace Exchange

def bytes (e : Exchange) : Bytes := e.interim.flatMap Answer.bytes ++ e.final.bytes

/-- Complete responses: interim ones and a final one, which the end of the stream may have to end. -/
structure Complete (e : Exchange) (eof : Bool) : Prop where
  request : e.request.state = .complete
  interim : ∀ a ∈ e.interim, a.Interim ∧ a.To e.request false
  final : ¬ e.final.Interim
  answers : e.final.To e.request false ∨ eof = true ∧ e.final.To e.request true

/-- One response alone, whose body the rules of the source find. -/
structure Handled (e : Exchange) (eof : Bool) : Prop where
  single : e.interim = []
  found : Found e.request e.final.code e.final.headers eof e.final.body

/-- Only the last exchange of a stream that ends can rely on its end. -/
def All (P : Exchange → Bool → Prop) (closed : Bool) : List Exchange → Prop
  | [] => True
  | e :: rest => P e (closed && rest.isEmpty) ∧ All P closed rest

/-- Every response is complete. -/
abbrev AllComplete : Bool → List Exchange → Prop := All Complete

/-- Every request is answered by one response whose body is found. -/
abbrev AllHandled : Bool → List Exchange → Prop := All Handled

end Exchange

/-- What happens at the response parser. -/
inductive ProxyEvent where
  /-- `new_request_arrived( request )` -/
  | request (r : HTTPRequest)
  /-- `parse( buf )` with bytes from the server -/
  | bytes (buf : Bytes)

namespace ProxyEvent

def step (q : HTTPResponseParser) : ProxyEvent → Except Fault HTTPResponseParser
  | .request r => pure (q.newRequestArrived r)
  | .bytes buf => q.parse buf

/-- The requests that arrive, in order. -/
def requests (events : List ProxyEvent) : List HTTPRequest :=
  events.filterMap fun
    | .request r => some r
    | .bytes _ => none

/-- The pieces of the stream, in order. -/
def pieces (events : List ProxyEvent) : List Bytes :=
  events.filterMap fun
    | .request _ => none
    | .bytes buf => some buf

/-- The requests of the exchanges arrive in order, each before the bytes of its responses, and the
pieces are those of all the responses. -/
structure Carry (exchanges : List Exchange) (events : List ProxyEvent) : Prop where
  requests : requests events = exchanges.map (·.request)
  stream : (pieces events).flatten = exchanges.flatMap Exchange.bytes
  nonempty : ∀ x ∈ pieces events, x ≠ []
  inTime : ∀ before, before <+: events →
    (pieces before).flatten <+: (exchanges.take (ProxyEvent.requests before).length).flatMap Exchange.bytes

end ProxyEvent

/-- The end of the stream, if there is one. -/
def finish (closed : Bool) (q : HTTPResponseParser) : Except Fault HTTPResponseParser := if closed then q.parse [] else pure q

/-- A response whose status code starts with 1. -/
def HTTPResponse.isInterim (m : HTTPResponse) : Bool := ((split m.firstLine 32).getD 1 []).head? = some 49

/-- The final responses among the complete ones. -/
def finals (q : HTTPResponseParser) : List HTTPResponse := q.completeMessages.filter fun m => !HTTPResponse.isInterim m

/-- A response as the answer to an exchange. -/
def Answers (e : Exchange) (m : HTTPResponse) : Prop := e.final.Becomes e.request m

/-- The stream is parsed without an exception, and the final responses are those of the exchanges in order, each with its
request. -/
def Paired (exchanges : List Exchange) (events : List ProxyEvent) (closed : Bool) : Prop :=
  ∃ q, events.foldlM ProxyEvent.step (.start []) >>= finish closed = .ok q ∧ List.Forall₂ Answers exchanges (finals q)

namespace Exchange

/-! ## The last exchange -/

section

variable {P : Exchange → Bool → Prop} {closed : Bool}

theorem All.cases : ∀ {exchanges : List Exchange}, All P closed exchanges →
    (∀ e ∈ exchanges, P e false) ∨
    closed = true ∧ ∃ front last, exchanges = front ++ [last] ∧ (∀ e ∈ front, P e false) ∧ P last true
  | [], _ => Or.inl (by simp)
  | [e], h => by
    cases closed with
    | false => exact Or.inl (by simpa using h.1)
    | true => exact Or.inr ⟨rfl, [], e, rfl, by simp, h.1⟩
  | e :: e' :: rest, ⟨he, hrest⟩ => by
    rw [List.isEmpty_cons, Bool.and_false] at he
    rcases All.cases hrest with hall | ⟨hclosed, front, last, heq, hfront, hlast⟩
    · exact Or.inl (List.forall_mem_cons.2 ⟨he, hall⟩)
    · exact Or.inr ⟨hclosed, e :: front, last, by rw [heq]; rfl, List.forall_mem_cons.2 ⟨he, hfront⟩, hlast⟩

theorem All.mem : ∀ {exchanges : List Exchange}, All P closed exchanges → ∀ e ∈ exchanges, ∃ eof, P e eof
  | [], _ => by simp
  | e :: rest, h => List.forall_mem_cons.2 ⟨⟨_, h.1⟩, All.mem h.2⟩

theorem All.take (hmono : ∀ e eof, P e false → P e eof) : ∀ {exchanges : List Exchange}, All P closed exchanges →
    ∀ k, All P closed (exchanges.take k)
  | [], _, k => by rw [List.take_nil]; trivial
  | e :: rest, _, 0 => trivial
  | e :: [], h, k + 1 => by rw [List.take_succ_cons, List.take_nil]; exact h
  | e :: e' :: rest, h, k + 1 => by
    rw [List.take_succ_cons]
    have he : P e false := by simpa using h.1
    exact ⟨hmono _ _ he, All.take hmono h.2 k⟩

end

theorem Complete.written {e : Exchange} {eof : Bool} (h : e.Complete eof) : e.final.Written := by
  rcases h.answers with hto | ⟨-, hto⟩
  · exact hto.toWritten
  · exact hto.toWritten

theorem Handled.mono (e : Exchange) (eof : Bool) (h : e.Handled false) : e.Handled eof :=
  ⟨h.single, h.found.mono eof⟩

theorem Complete.mono (e : Exchange) (eof : Bool) (h : e.Complete false) : e.Complete eof := by
  refine ⟨h.request, h.interim, h.final, ?_⟩
  rcases h.answers with hto | ⟨hfalse, -⟩
  · exact Or.inl hto
  · cases hfalse

theorem Handled.bytes {e : Exchange} {eof : Bool} (h : e.Handled eof) : e.bytes = e.final.bytes := by
  unfold Exchange.bytes
  rw [h.single]
  rfl

end Exchange

/-! ## Byte by byte -/

open Answer (inside)

theorem isInterim_iff {a : Answer} {request : HTTPRequest} {m : HTTPResponse} (h : a.Written) (hm : Answer.Becomes a request m) :
    HTTPResponse.isInterim m = true ↔ a.Interim := by
  obtain ⟨version, reason, more, hsplit⟩ := h.status
  unfold HTTPResponse.isInterim Answer.Interim
  rw [hm.firstLine, hsplit, decide_eq_true_iff]
  rfl

/-- Exchanges of one response each, read byte by byte. -/
theorem bytewise_answers : ∀ {exchanges : List Exchange} (done : List HTTPResponse) (more : List HTTPRequest),
    (∀ e ∈ exchanges, (∃ eof, e.Complete eof) ∧ e.Handled false) →
    ∃ ms, Pieces.bytewise HTTPMessageSequence.parse (inside done .fresh (exchanges.map (·.request) ++ more))
        (exchanges.flatMap Exchange.bytes) = .ok (inside (done ++ ms) .fresh more) ∧ List.Forall₂ Answers exchanges ms
  | [], done, more, _ => ⟨[], by rw [List.append_nil]; rfl, .nil⟩
  | e :: exchanges, done, more, h => by
    obtain ⟨⟨eof, hcomplete⟩, hhandled⟩ := h e (List.mem_cons_self ..)
    obtain ⟨m, hm, hbytes | ⟨hfalse, -⟩⟩ :=
      hcomplete.written.found hcomplete.request hhandled.found done (exchanges.map (·.request) ++ more)
    · obtain ⟨ms, hrest, hms⟩ := bytewise_answers (done ++ [m]) more fun e' h' => h e' (List.mem_cons_of_mem _ h')
      refine ⟨m :: ms, ?_, .cons hm hms⟩
      rw [List.flatMap_cons, Pieces.bytewise_append, hhandled.bytes, List.map_cons, List.cons_append, hbytes, Run.ok_bind, hrest,
        List.append_assoc, List.singleton_append]
    · cases hfalse

theorem finish_between (closed : Bool) (done : List HTTPResponse) (more : List HTTPRequest) :
    finish closed (inside done .fresh more) = .ok (inside done .fresh more) := by
  cases closed with
  | false => rfl
  | true => exact HTTPMessageSequence.drain_waits (q := inside done .fresh more) (Or.inl rfl) rfl

/-- The end of the stream completes a response whose size is not known. -/
theorem finish_pending {m : HTTPResponse} {parser : BodyParser} (h : Answer.Unknown m parser) (done : List HTTPResponse)
    (more : List HTTPRequest) :
    finish true (inside done m more) = .ok (inside (done ++ [{ m with state := .complete }]) .fresh more) := by
  have heof : m.eof = .ok { m with state := .complete } := by
    obtain ⟨hstate, -, hparser⟩ := h
    obtain ⟨expected, firstLine, headers, body, state, request, bodyParser⟩ := m
    dsimp only at hstate hparser
    subst hstate hparser
    cases parser <;> rfl
  show ((inside done m more).notice [] >>= _) = _
  rw [show (inside done m more).notice [] = .ok { m with state := .complete } from heof, Run.ok_bind]
  refine (HTTPMessageSequence.drain_go (HTTPMessageSequence.parsingStep_complete rfl)).trans ?_
  exact HTTPMessageSequence.drain_waits (Or.inl rfl) rfl

/-- The same up to the end of the stream, which may end the last response. -/
theorem finish_answers {closed : Bool} {exchanges : List Exchange} (hcomplete : Exchange.AllComplete closed exchanges)
    (h : Exchange.AllHandled closed exchanges) :
    ∃ q q' : HTTPResponseParser, Pieces.bytewise HTTPMessageSequence.parse (.start (exchanges.map (·.request)))
        (exchanges.flatMap Exchange.bytes) = .ok q ∧ finish closed q = .ok q' ∧ List.Forall₂ Answers exchanges q'.completeMessages := by
  rcases h.cases with hall | ⟨rfl, front, last, rfl, hfront, hlast⟩
  · obtain ⟨ms, hbytes, hms⟩ := bytewise_answers [] [] fun e he => ⟨hcomplete.mem e he, hall e he⟩
    rw [List.append_nil] at hbytes
    exact ⟨_, _, hbytes, finish_between _ _ _, hms⟩
  · obtain ⟨ms, hbytes, hms⟩ := bytewise_answers [] [last.request] fun e he =>
      ⟨hcomplete.mem e (List.mem_append_left _ he), hfront e he⟩
    obtain ⟨eof, hlastComplete⟩ := hcomplete.mem last (List.mem_append_right _ (List.mem_singleton.2 rfl))
    have hboth : ∀ {m}, Answer.Becomes last.final last.request m → List.Forall₂ Answers (front ++ [last]) (ms ++ [m]) :=
      fun hm => List.rel_append hms (.cons hm .nil)
    rw [List.flatMap_append, List.flatMap_singleton, hlast.bytes, List.map_append, List.map_singleton, Pieces.bytewise_append]
    rw [show Pieces.bytewise HTTPMessageSequence.parse
      (.start (front.map (·.request) ++ [last.request]) : HTTPResponseParser) (front.flatMap Exchange.bytes) = _ from hbytes,
      Run.ok_bind]
    obtain ⟨m, hm, hbytes' | ⟨-, ⟨parser, hparser⟩, hbytes'⟩⟩ :=
      hlastComplete.written.found hlastComplete.request hlast.found ms []
    · exact ⟨_, _, hbytes', finish_between _ _ _, hboth hm⟩
    · exact ⟨_, _, hbytes', finish_pending hparser _ _, hboth ⟨hm.firstLine, hm.headers, hm.body, hm.request⟩⟩

/-! ## Schedules -/

namespace ProxyEvent

/-- A schedule that goes through does the same when all requests arrive first. -/
theorem feed_of_run : ∀ {events : List ProxyEvent} {q q' : HTTPResponseParser}, events.foldlM step q = .ok q' →
    Pieces.feed HTTPMessageSequence.parse (q.announce (requests events)) (pieces events) = .ok q'
  | [], q, q', h => by
    cases h
    show Except.ok (q.announce []) = _
    unfold HTTPMessageSequence.announce
    rw [List.append_nil]
  | .request r :: events, q, q', h => by
    have ih := @feed_of_run events (q.newRequestArrived r) q' h
    have hassoc : (q.newRequestArrived r).announce (requests events) = q.announce (r :: requests events) := by
      unfold HTTPMessageSequence.announce HTTPMessageSequence.newRequestArrived
      rw [List.append_assoc]
      rfl
    rw [hassoc] at ih
    exact ih
  | .bytes x :: events, q, q', h => by
    rw [List.foldlM_cons] at h
    obtain ⟨q₁, hx, h⟩ := Run.bind_ok h
    have ih := feed_of_run h
    show Pieces.feed _ (q.announce (requests events)) (x :: pieces events) = _
    rw [Pieces.feed_cons, (HTTPMessageSequence.parse_follows hx).2]
    exact ih

theorem requests_append (before after : List ProxyEvent) : requests (before ++ after) = requests before ++ requests after :=
  List.filterMap_append

theorem pieces_append (before after : List ProxyEvent) : pieces (before ++ after) = pieces before ++ pieces after :=
  List.filterMap_append

end ProxyEvent

/-! ## The pairing -/

/-- What nothing reads any more makes no difference. -/
theorem answers_alike {exchanges : List Exchange} {q q' : HTTPResponseParser} (h : q.Alike q')
    (hanswers : List.Forall₂ Answers exchanges q.completeMessages) : List.Forall₂ Answers exchanges q'.completeMessages := by
  have hforget : ∀ {ms : List HTTPResponse}, List.Forall₂ Answers exchanges (ms.map (·.forgetting HTTPResponse.forget)) ↔
      List.Forall₂ Answers exchanges ms := by
    intro ms
    rw [List.forall₂_map_right_iff]
    exact Iff.of_eq (congrArg (fun R => List.Forall₂ R exchanges ms)
      (funext fun _ => funext fun _ => propext ⟨fun h => ⟨h.1, h.2, h.3, h.4⟩, fun h => ⟨h.1, h.2, h.3, h.4⟩⟩))
  rw [← hforget]
  exact Eq.subst (motive := List.Forall₂ Answers exchanges) h.complete (hforget.2 hanswers)

theorem finish_alike {q q' : HTTPResponseParser} (h : q.Alike q') (closed : Bool) :
    Pieces.Agree HTTPMessageSequence.Alike (finish closed q) (finish closed q') := by
  cases closed with
  | false => exact .ok h
  | true => exact HTTPMessageSequence.parse_incremental.congr h

/-- Pieces of a stream that is taken byte by byte. -/
theorem feed_of_bytewise {requests : List HTTPRequest} {pieces : List Bytes} {q : HTTPResponseParser}
    (hne : ∀ x ∈ pieces, x ≠ [])
    (h : Pieces.bytewise HTTPMessageSequence.parse (.start requests) pieces.flatten = .ok q) :
    ∃ q', Pieces.feed HTTPMessageSequence.parse (.start requests) pieces = .ok q' ∧ q'.Alike q := by
  obtain ⟨rest, hrne, hrest, hagree⟩ := HTTPMessageSequence.parse_incremental.feed_after responses_failAtOnce hne
    (List.append_nil _).symm (HTTPMessageSequence.quiet_start requests) (HTTPMessageSequence.alike_equiv.refl _) h
  have hnil : rest = [] := by
    cases rest with
    | nil => rfl
    | cons x xs => exact absurd (List.flatten_eq_nil_iff.1 hrest x (List.mem_cons_self ..)) (hrne x (List.mem_cons_self ..))
  subst hnil
  cases hfeed : Pieces.feed HTTPMessageSequence.parse (.start requests : HTTPResponseParser) pieces with
  | error e => rw [hfeed] at hagree; cases hagree
  | ok q' =>
    rw [hfeed] at hagree
    cases hagree with
    | ok halike => exact ⟨q', rfl, halike⟩

section

variable {closed : Bool} {exchanges : List Exchange} {events : List ProxyEvent}

end

end AbcMahimahi.Http
