/-
What the proxy does to a conversation. Well-formed requests reach the server byte for byte; where every
request is answered by one final response, each response is passed on and saved with its own request.
-/
import AbcMahimahi.Http.Misframing
import AbcMahimahi.Http.Proxy
import AbcMahimahi.Http.Reparse

namespace AbcMahimahi.Http

open Bytes

/-! ## Requests -/

/-- The end of the stream changes nothing of what a request parser has read. -/
theorem feed_front {front : List Bytes} {eof : Bool} {q : HTTPRequestParser} (hne : ∀ x ∈ front, x ≠ [])
    (h : Pieces.feed HTTPMessageSequence.parse (.start () : HTTPRequestParser) (front ++ if eof then [[]] else []) = .ok q) :
    Pieces.feed HTTPMessageSequence.parse (.start () : HTTPRequestParser) front = .ok q := by
  cases eof with
  | false =>
    rw [if_neg Bool.false_ne_true, List.append_nil] at h
    exact h
  -- the empty piece at the end finds the parser at rest, and moves nothing
  | true =>
    rw [if_pos rfl, Pieces.feed_append] at h
    obtain ⟨q₀, hfront, h⟩ := Run.bind_ok h
    rw [Pieces.feed_cons] at h
    obtain ⟨q₁, hend, h⟩ := Run.bind_ok h
    cases h
    have hagree := HTTPMessageSequence.parse_incremental.feed_bytewise (fun x hx => ⟨hne x hx, requests_avoid x⟩)
      (HTTPMessageSequence.alike_equiv.refl (.start () : HTTPRequestParser)) (HTTPMessageSequence.quiet_start (S := RequestMembers) ())
    rw [hfront] at hagree
    have hquiet : q₀.Quiet := by
      cases hbytes : Pieces.bytewise HTTPMessageSequence.parse (.start () : HTTPRequestParser) front.flatten with
      | error e => rw [hbytes] at hagree; cases hagree
      | ok q' =>
        rw [hbytes] at hagree
        cases hagree with
        | ok halike =>
          rw [alike_request.1 halike]
          exact HTTPMessageSequence.parse_incremental.keep_bytewise (HTTPMessageSequence.quiet_start (S := RequestMembers) ()) hbytes
    obtain ⟨m, hnotice, hend⟩ := Run.bind_ok hend
    obtain rfl : m = q₀.messageInProgress := HTTPRequest.eof_ok hnotice
    rw [List.append_nil] at hend
    rw [hfront, ← hend]
    exact (HTTPMessageSequence.drain_stop hquiet.step).symm

/-- The parser of the beginning of a sequence of well-formed requests has read the first of them, and of the whole
sequence all. -/
theorem requests_read {pieces : List Bytes} {eof : Bool} {q : HTTPRequestParser} {requests : List HTTPRequest}
    (hends : HTTPProxy.Ends pieces eof) (h : Pieces.feed HTTPMessageSequence.parse (.start () : HTTPRequestParser) pieces = .ok q)
    (hwf : ∀ r ∈ requests, r.WellFormed) (hsaid : pieces.flatten <+: requests.flatMap HTTPMessage.serialized) :
    q.completeMessages <+: requests.map HTTPRequest.parsed ∧
      (pieces.flatten = requests.flatMap HTTPMessage.serialized → q.completeMessages = requests.map HTTPRequest.parsed) := by
  obtain ⟨front, hne, rfl⟩ := hends
  have hfront := feed_front hne h
  have hflat : (front ++ if eof then [[]] else []).flatten = front.flatten := by
    cases eof <;> simp
  rw [hflat] at hsaid ⊢
  have hall : front.flatten = requests.flatMap HTTPMessage.serialized → q.completeMessages = requests.map HTTPRequest.parsed := by
    intro heq
    rw [feed_requests hwf hne heq] at hfront
    cases hfront
    rfl
  refine ⟨?_, hall⟩
  obtain ⟨rest, hrest⟩ := hsaid
  -- requests that are still on their way come later, and do not change what has been read
  by_cases hnil : rest = []
  · rw [hnil, List.append_nil] at hrest
    rw [hall hrest]
  · have hne' : ∀ x ∈ front ++ [rest], x ≠ [] := by
      intro x hx
      rcases List.mem_append.1 hx with hx | hx
      · exact hne x hx
      · rw [List.mem_singleton.1 hx]
        exact hnil
    have hwhole := feed_requests hwf hne' (by rw [List.flatten_append, List.flatten_singleton, hrest])
    rw [Pieces.feed_append, hfront, Run.ok_bind, Pieces.feed_cons] at hwhole
    obtain ⟨q', hparse, hwhole⟩ := Run.bind_ok hwhole
    cases hwhole
    exact HTTPMessageSequence.prefix_parse hparse

theorem parsed_text (requests : List HTTPRequest) :
    (requests.map HTTPRequest.parsed).flatMap HTTPMessage.serialized = requests.flatMap HTTPMessage.serialized := by
  rw [List.flatMap_map]
  rfl

theorem flatMap_front {α β : Type} (f : α → List β) {l l' : List α} (h : l <+: l') : l.flatMap f <+: l'.flatMap f := by
  obtain ⟨rest, rfl⟩ := h
  rw [List.flatMap_append]
  exact List.prefix_append _ _

namespace HTTPProxy

variable {B : Type} {save : HTTPResponse → B → Except Fault B} {start : B} {rounds : List ProxyRound} {ended : Bool} {s : HTTPProxy B}

/-- A client that says well-formed requests, in whatever pieces: at every time the proxy has passed on the first of
them as they are, and the server has got the first bytes of what the client says; when all has been read and nothing
is waiting it has got all. -/
theorem requests_forwarded (h : loop save start rounds = .ok (ended, s)) {requests : List HTTPRequest}
    (hwf : ∀ r ∈ requests, r.WellFormed) (hsaid : s.clientSaid.flatten <+: requests.flatMap HTTPMessage.serialized) :
    s.forwarded ++ s.requestParser.completeMessages <+: requests.map HTTPRequest.parsed ∧
    s.serverHeard <+: requests.flatMap HTTPMessage.serialized ∧
    (s.clientSaid.flatten = requests.flatMap HTTPMessage.serialized → s.requestParser.empty = true →
      s.forwarded = requests.map HTTPRequest.parsed ∧ s.serverHeard = s.clientSaid.flatten) := by
  obtain ⟨hrecords, -, -⟩ := (loop_records save start rounds).2 ended s h
  obtain ⟨hfirst, hall⟩ := requests_read hrecords.clientEnds hrecords.requests hwf hsaid
  refine ⟨hfirst, ?_, fun hwhole hempty => ?_⟩
  · rw [hrecords.serverHeard, ← parsed_text requests]
    exact flatMap_front _ ((List.prefix_append _ _).trans hfirst)
  · have hnone : s.requestParser.completeMessages = [] := List.isEmpty_iff.1 hempty
    have hforwarded : s.forwarded = requests.map HTTPRequest.parsed := by
      have hcomplete := hall hwhole
      unfold HTTPMessageSequence.behind at hcomplete
      rwa [hnone, List.append_nil] at hcomplete
    refine ⟨hforwarded, ?_⟩
    rw [hrecords.serverHeard, hforwarded, parsed_text, hwhole]

def frontPage : HTTPRequest := { firstLine := ascii "GET / HTTP/1.1", state := .complete, members := {} }

theorem frontPages_wellFormed (n : Nat) : ∀ r ∈ List.replicate n frontPage, r.WellFormed := by
  intro r hr
  rw [List.eq_of_mem_replicate hr]
  exact ⟨rfl, by decide, fun h hh => absurd hh List.not_mem_nil, .get (by decide) rfl, by decide⟩

/-- Two requests in three pieces, the first of which is passed on before the second has come. -/
def requestRounds : List ProxyRound :=
  [quickRound (· = 1) [] (ascii "GET / HT"), quickRound (· = 1) [] (ascii "TP/1.1\r\n\r\nGE"),
    quickRound (fun n => n = 1 || n = 2) [] (ascii "T / HTTP/1.1\r\n\r\n"), quickRound (· = 2) [] []]

theorem requests_forwarded_part : ∃ s, loop saveAll [] requestRounds = .ok (false, s) ∧
    s.forwarded = (List.replicate 2 frontPage).map HTTPRequest.parsed ∧ s.serverHeard = s.clientSaid.flatten := by
  have hrun : (fun r => (r.1, r.2.clientSaid.flatten, r.2.requestParser.empty)) <$> loop saveAll [] requestRounds =
      .ok (false, (List.replicate 2 frontPage).flatMap HTTPMessage.serialized, true) := by decide +kernel
  obtain ⟨⟨ended, s⟩, h, hvalues⟩ := Run.map_eq_ok hrun
  simp only [Prod.mk.injEq] at hvalues
  obtain ⟨rfl, hsaid, hempty⟩ := hvalues
  obtain ⟨-, -, hall⟩ := requests_forwarded h (frontPages_wellFormed 2) (by rw [hsaid])
  exact ⟨s, h, hall hsaid hempty⟩

end HTTPProxy

/-! ## Responses -/

/-- A run of the response parser over all the responses of some exchanges. -/
theorem answers_of_run {exchanges : List Exchange} {events : List ProxyEvent} {closed : Bool} {q : HTTPResponseParser}
    (hcomplete : Exchange.AllComplete closed exchanges) (hhandled : Exchange.AllHandled closed exchanges)
    (hends : HTTPProxy.Ends (ProxyEvent.pieces events) closed) (hrun : events.foldlM ProxyEvent.step (.start []) = .ok q)
    (hrequests : ProxyEvent.requests events = exchanges.map (·.request))
    (hstream : (ProxyEvent.pieces events).flatten = exchanges.flatMap Exchange.bytes) :
    List.Forall₂ Answers exchanges q.completeMessages := by
  obtain ⟨front, hne, hpieces⟩ := hends
  have hfeed := ProxyEvent.feed_of_run hrun
  rw [hrequests, hpieces] at hfeed
  have hflat : front.flatten = exchanges.flatMap Exchange.bytes := by
    rw [← hstream, hpieces]
    cases closed <;> simp
  obtain ⟨b, b', hbytes, hfinish, hanswers⟩ := finish_answers hcomplete hhandled
  rw [← hflat] at hbytes
  obtain ⟨q₁, hq₁, halike⟩ := feed_of_bytewise hne hbytes
  -- the empty piece at the end is what `finish` does
  have hfinish' : finish closed q₁ = .ok q := by
    have hfeed' : Pieces.feed HTTPMessageSequence.parse (.start (exchanges.map (·.request)) : HTTPResponseParser)
        (front ++ if closed then [[]] else []) = .ok q := hfeed
    rw [Pieces.feed_append, hq₁, Run.ok_bind] at hfeed'
    cases closed with
    | false => exact hfeed'
    | true =>
      rw [if_pos rfl, Pieces.feed_cons] at hfeed'
      obtain ⟨q₂, hend, hfeed'⟩ := Run.bind_ok hfeed'
      cases hfeed'
      exact hend
  have hagree := finish_alike halike closed
  rw [hfinish, hfinish'] at hagree
  cases hagree with
  | ok halike' => exact answers_alike (HTTPMessageSequence.alike_equiv.symm halike') hanswers

/-- A response whose header lines are as `str` writes them is written as it came. -/
theorem Answers.serialized {e : Exchange} {m : HTTPResponse} (h : Answers e m)
    (hlines : e.final.headerLines = e.final.headers.map HTTPHeader.str) : m.serialized = e.final.bytes := by
  unfold HTTPMessage.serialized Answer.bytes Answer.head
  rw [h.firstLine, h.headers, h.body, hlines, List.flatMap_map]
  simp only [List.append_assoc]

theorem answers_text {exchanges : List Exchange} {ms : List HTTPResponse} (h : List.Forall₂ Answers exchanges ms)
    (hlines : ∀ e ∈ exchanges, e.final.headerLines = e.final.headers.map HTTPHeader.str)
    (hbytes : ∀ e ∈ exchanges, e.bytes = e.final.bytes) : ms.flatMap HTTPMessage.serialized = exchanges.flatMap Exchange.bytes := by
  induction h with
  | nil => rfl
  | @cons e m exchanges ms hm _ ih =>
    rw [List.flatMap_cons, List.flatMap_cons, hm.serialized (hlines e (List.mem_cons_self ..)), hbytes e (List.mem_cons_self ..),
      ih (fun e' he' => hlines e' (List.mem_cons_of_mem _ he')) fun e' he' => hbytes e' (List.mem_cons_of_mem _ he')]

namespace HTTPProxy

variable {B : Type} {save : HTTPResponse → B → Except Fault B} {start : B} {rounds : List ProxyRound} {s : HTTPProxy B}

/-- A whole conversation: the client says well-formed requests, the server answers each with one complete response whose
body the rules of the source find, and the loop comes to its end without trouble. Then the server has got the requests byte for byte; each
response has been passed on and saved, in order and with its own request; and where its header lines are as `str` writes them, the
client has got it byte for byte. -/
theorem conversation_recorded (h : loop save start rounds = .ok (true, s)) (hcalm : ∀ r ∈ rounds, ¬ r.kernel.HangsUp)
    {requests : List HTTPRequest} (hwf : ∀ r ∈ requests, r.WellFormed)
    (hclient : s.clientSaid.flatten = requests.flatMap HTTPMessage.serialized) {exchanges : List Exchange}
    (hasked : exchanges.map (·.request) = requests.map HTTPRequest.parsed)
    (hcomplete : Exchange.AllComplete s.server.eof exchanges) (hhandled : Exchange.AllHandled s.server.eof exchanges)
    (hserver : (ProxyEvent.pieces s.events).flatten = exchanges.flatMap Exchange.bytes) :
    s.serverHeard = s.clientSaid.flatten ∧ List.Forall₂ Answers exchanges s.answered ∧
    s.answered.foldlM (fun b m => save m b) start = .ok s.backingStore ∧
    ((∀ e ∈ exchanges, e.final.headerLines = e.final.headers.map HTTPHeader.str) →
      s.clientHeard = (ProxyEvent.pieces s.events).flatten) := by
  obtain ⟨hrecords, hend, -⟩ := (loop_records save start rounds).2 true s h
  obtain ⟨-, hrequestsEmpty, hresponsesEmpty⟩ := hend rfl hcalm
  obtain ⟨-, -, hall⟩ := requests_forwarded h hwf (by rw [hclient])
  obtain ⟨hforwarded, hheard⟩ := hall hclient hrequestsEmpty
  have hanswered : List.Forall₂ Answers exchanges s.answered := by
    have hrun := answers_of_run hcomplete hhandled hrecords.serverEnds hrecords.responses
      (by rw [hrecords.arrived, hforwarded, hasked]) hserver
    have hempty : s.responseParser.completeMessages = [] := List.isEmpty_iff.1 hresponsesEmpty
    unfold HTTPMessageSequence.behind at hrun
    rwa [hempty, List.append_nil] at hrun
  refine ⟨hheard, hanswered, hrecords.store, fun hlines => ?_⟩
  rw [hrecords.clientHeard, hserver]
  refine answers_text hanswered hlines fun e he => ?_
  obtain ⟨eof, hsingle⟩ := hhandled.mem e he
  exact hsingle.bytes

/-- Two requests are read and passed on, both are answered, the responses are passed on, and the server closes. -/
def conversation : List ProxyRound :=
  [quickRound (· = 1) [] (ascii "GET / HTTP/1.1\r\n\r\nGET / HTTP/1.1\r\n\r\n"), quickRound (· = 2) [] [], quickRound (· = 2) [] [],
    quickRound (· = 0) (ascii "HTTP/1.1 204 No Content\r\n\r\nHTTP/1.1 200 OK\r\nContent-Length: 2\r\n\r\no") [],
    quickRound (fun n => n = 0 || n = 3) (ascii "k") [], quickRound (· = 3) [] [], quickRound (· = 0) [] [],
    quickRound (fun _ => false) [] []]

def noContent : Exchange := ⟨frontPage.parsed, [], ⟨ascii "HTTP/1.1 204 No Content", ascii "204", [], [], []⟩⟩

def smallPage : Exchange := ⟨frontPage.parsed, [], twoBytes (ascii "ok")⟩

theorem pages_complete (closed : Bool) : Exchange.AllComplete closed [noContent, smallPage] ∧
    Exchange.AllHandled closed [noContent, smallPage] := by
  have hbody : ¬ NoBody smallPage.request (ascii "200") := get_has_body rfl
  have hdecimal : Decimal (ascii "2") 2 := ⟨by decide, by decide, by decide⟩
  refine ⟨⟨⟨rfl, by simp [noContent], by decide, Or.inl ⟨⟨by decide, ?_, by decide, .nil⟩, .none ?_⟩⟩,
    ⟨rfl, by simp [smallPage], by decide, Or.inl ⟨twoBytes_written _, .length hbody ?_ rfl hdecimal⟩⟩, trivial⟩,
    ⟨⟨rfl, .none ?_⟩, ⟨rfl, .length hbody rfl rfl (.plain hdecimal) (by decide)⟩, trivial⟩⟩
  · exact ⟨ascii "HTTP/1.1", ascii "No", [ascii "Content"], by decide⟩
  · exact Or.inr (Or.inl rfl)
  · show ∀ c ∈ codings [⟨ascii "Content-Length", ascii "2"⟩], Names c (ascii "identity") ∨ Names c []
    decide
  · exact Or.inr (Or.inl rfl)

theorem conversation_recorded_small : ∃ s, loop saveAll [] conversation = .ok (true, s) ∧ s.serverHeard = s.clientSaid.flatten ∧
    List.Forall₂ Answers [noContent, smallPage] s.answered ∧ s.clientHeard = (ProxyEvent.pieces s.events).flatten := by
  have hrun : (fun r => (r.1, r.2.clientSaid.flatten, (ProxyEvent.pieces r.2.events).flatten)) <$> loop saveAll [] conversation =
      .ok (true, [frontPage, frontPage].flatMap HTTPMessage.serialized, [noContent, smallPage].flatMap Exchange.bytes) := by
    decide +kernel
  obtain ⟨⟨ended, s⟩, h, hvalues⟩ := Run.map_eq_ok hrun
  simp only [Prod.mk.injEq] at hvalues
  obtain ⟨rfl, hclient, hserver⟩ := hvalues
  have hcalm : ∀ r ∈ conversation, ¬ r.kernel.HangsUp := by
    rintro r hr ⟨revents, n, hkernel, hhangup⟩
    unfold conversation quickRound at hr
    simp only [List.mem_cons, List.not_mem_nil, or_false] at hr
    rcases hr with rfl | rfl | rfl | rfl | rfl | rfl | rfl | rfl <;> (cases hkernel; cases hhangup)
  obtain ⟨hheard, hanswered, -, hbytes⟩ := conversation_recorded h hcalm (frontPages_wellFormed 2) hclient rfl
    (pages_complete _).1 (pages_complete _).2 hserver
  exact ⟨s, h, hheard, hanswered, hbytes (by decide)⟩

end HTTPProxy

end AbcMahimahi.Http
