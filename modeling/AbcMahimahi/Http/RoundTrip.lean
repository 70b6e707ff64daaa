/-
Pipelined requests survive `str` and a parser that gets the text in pieces. A request's text is read
back line by line; its body ends where the method or the Content-Length header says, whatever the
bytes of the body look like.
-/
import AbcMahimahi.Http.Segmentation

namespace AbcMahimahi.Http

open Bytes

/-! ## Well-formed requests -/

structure HTTPHeader.WellFormed (h : HTTPHeader) : Prop where
  keyNoColon : 58 ∉ h.key
  keyNoCrlf : find crlf h.key = none
  valueNonempty : h.value ≠ []
  valueNoSpace : h.value.head? ≠ some 32
  valueNoCrlf : find crlf h.value = none

namespace HTTPRequest

/-- The method and what it says about the body. -/
inductive Framed (r : HTTPRequest) : Prop
  | get (hline : ascii "GET " <+: r.firstLine) (hbody : r.body = [])
  | head (hline : ascii "HEAD " <+: r.firstLine) (hbody : r.body = [])
  | post {header : HTTPHeader} (hline : ascii "POST " <+: r.firstLine)
      (hheader : (r.headers.find? fun h => equivalentStrings h.key (ascii "Content-Length")) = some header)
      (hlength : Decimal header.value r.body.length)

/-- A complete request whose text can be read back. -/
structure WellFormed (r : HTTPRequest) : Prop where
  complete : r.state = .complete
  lineNoCrlf : find crlf r.firstLine = none
  headers : ∀ h ∈ r.headers, h.WellFormed
  framed : r.Framed
  /-- A `std::string` is shorter than this. -/
  bodyFits : r.body.length < 2 ^ 63

/-- What a parser makes of the text of a request. -/
def parsed (r : HTTPRequest) : HTTPRequest := { r with expected := (true, r.body.length), state := .complete }

end HTTPRequest

/-! ## Header lines -/

namespace HTTPHeader.WellFormed

variable {h : HTTPHeader}

theorem parse_str (hwf : h.WellFormed) : HTTPHeader.parse h.str = .ok h := by
  obtain ⟨b, bs, hvalue⟩ := List.exists_cons_of_ne_nil hwf.valueNonempty
  have hb : b ≠ 32 := by
    have := hwf.valueNoSpace
    rw [hvalue] at this
    simpa using this
  have hstr : h.str = h.key ++ 58 :: (32 :: h.value) := by
    unfold HTTPHeader.str
    rw [List.append_assoc]
    rfl
  have hskip : findFirstNotOf 32 (32 :: h.value) = some 1 := by
    rw [hvalue]
    unfold findFirstNotOf
    rw [if_pos rfl, findFirstNotOf_head hb]
    rfl
  have hdrop : (h.key ++ 58 :: (32 :: h.value)).drop (h.key.length + 1) = 32 :: h.value := by
    rw [← List.drop_drop, List.drop_left]
    rfl
  unfold HTTPHeader.parse
  rw [hstr, show ascii ":" = [58] from rfl, find_byte hwf.keyNoColon]
  dsimp only
  rw [hdrop, hskip, List.take_left]
  rfl

theorem str_noCrlf (hwf : h.WellFormed) : find crlf h.str = none := by
  have hspace : find crlf (32 :: h.value) = none :=
    find_crlf_join (a := []) (by decide) (by decide) hwf.valueNoCrlf rfl
  have hstr : h.str = h.key ++ 58 :: (32 :: h.value) := by
    unfold HTTPHeader.str
    rw [List.append_assoc]
    rfl
  rw [hstr]
  exact find_crlf_join (by decide) (by decide) hspace hwf.keyNoCrlf

end HTTPHeader.WellFormed

theorem HTTPHeader.str_nonempty (h : HTTPHeader) : h.str.isEmpty = false := by
  unfold HTTPHeader.str
  rw [List.isEmpty_eq_false_iff]
  simp [ascii]

/-- The line of `h` reads back as `h'`. -/
structure HTTPHeader.ReadsBack (h h' : HTTPHeader) : Prop where
  noCrlf : find crlf h.str = none
  parse : HTTPHeader.parse h.str = .ok h'

theorem HTTPHeader.WellFormed.readsBack {h : HTTPHeader} (hwf : h.WellFormed) : h.ReadsBack h :=
  ⟨hwf.str_noCrlf, hwf.parse_str⟩

/-! ## The steps of a request -/

namespace HTTPMessageSequence

/-- All the header lines, one after another. -/
theorem drain_headers {headers headers' : List HTTPHeader} (hback : List.Forall₂ HTTPHeader.ReadsBack headers headers') :
    ∀ {q : HTTPRequestParser} {rest : Bytes}, q.messageInProgress.state = .headersPending →
      q.buffer = headers.flatMap (fun h => h.str ++ crlf) ++ rest →
      q.drain = drain { q with
        buffer := rest
        messageInProgress := { q.messageInProgress with headers := q.messageInProgress.headers ++ headers' } } := by
  induction hback with
  | nil =>
    intro q rest _ hbuffer
    rw [List.append_nil]
    rw [List.flatMap_nil, List.nil_append] at hbuffer
    rw [← hbuffer]
  | @cons h h' headers headers' hh _ ih =>
    intro q rest hstate hbuffer
    rw [List.flatMap_cons, List.append_assoc] at hbuffer
    have hline : headerLine q.messageInProgress h.str =
        .ok { q.messageInProgress with headers := q.messageInProgress.headers ++ [h'] } := by
      unfold headerLine HTTPMessage.addHeader
      rw [HTTPHeader.str_nonempty, check_of (by simpa using hstate), hh.parse]
      rfl
    rw [drain_headerLine hstate hbuffer hh.noCrlf hline, ih (by exact hstate) rfl]
    simp only [List.append_assoc, List.cons_append, List.nil_append]

end HTTPMessageSequence

namespace HTTPRequest

/-- The size of the body is known when the headers are done. -/
theorem WellFormed.calculate {r : HTTPRequest} (hwf : r.WellFormed) {m : HTTPRequest} (hstate : m.state = .bodyPending)
    (hline : m.firstLine = r.firstLine) (hheaders : m.headers = r.headers) :
    m.calculateExpectedBodySize = .ok { m with expected := (true, r.body.length) } := by
  have hset : ∀ value, m.setExpectedBodySize true value = .ok { m with expected := (true, value) } := by
    intro value
    unfold HTTPMessage.setExpectedBodySize
    rw [check_of (by simpa using hstate)]
    rfl
  unfold calculateExpectedBodySize
  rw [check_of (by simpa using hstate), Run.ok_bind, hline]
  cases hwf.framed with
  | get hstarts hbody =>
    have hget : r.firstLine.take 4 = ascii "GET " := (List.prefix_iff_eq_take.1 hstarts).symm
    rw [if_pos (Or.inl hget), hset, hbody, hline]
    rfl
  | head hstarts hbody =>
    have hhead : r.firstLine.take 5 = ascii "HEAD " := (List.prefix_iff_eq_take.1 hstarts).symm
    rw [if_pos (Or.inr hhead), hset, hbody, hline]
    rfl
  | @post header hstarts hheader hlength =>
    have hpost : r.firstLine.take 5 = ascii "POST " := (List.prefix_iff_eq_take.1 hstarts).symm
    have hget : r.firstLine.take 4 ≠ ascii "GET " := by
      intro h
      have htake : (r.firstLine.take 5).take 4 = ascii "GET " := by rw [List.take_take]; exact h
      rw [hpost] at htake
      exact absurd htake (by decide)
    have hhead : r.firstLine.take 5 ≠ ascii "HEAD " := by
      rw [hpost]
      decide
    have hhas : m.hasHeader (ascii "Content-Length") = true := by
      unfold HTTPMessage.hasHeader
      rw [hheaders]
      exact List.any_eq_true.2 ⟨header, List.mem_of_find?_eq_some hheader, by simpa using List.find?_some hheader⟩
    have hvalue : m.getHeaderValue (ascii "Content-Length") = .ok header.value := by
      unfold HTTPMessage.getHeaderValue
      rw [hheaders, hheader]
      rfl
    have hfit : numeral 10 header.value < 2 ^ 63 := hlength.number ▸ hwf.bodyFits
    have hsize : ((numeral 10 header.value : Int) % 2 ^ 64).toNat = r.body.length := by
      rw [hlength.number]
      have := hwf.bodyFits
      omega
    rw [if_neg (not_or_intro hget hhead), if_pos hpost, hhas, hvalue, Run.ok_bind,
      myatoi_digits hlength.nonempty hlength.digits hfit, Run.ok_bind, hsize, hset, hline]
    rfl

/-- The body is what the size says, whatever comes after it. -/
theorem readInBody_exact {m : HTTPRequest} (body rest : Bytes) (hstate : m.state = .bodyPending) (hbody : m.body = [])
    (hexpected : m.expected = (true, body.length)) :
    m.readInBody (body ++ rest) = .ok (body.length, { m with body := body, state := .complete }) := by
  have hmin : min body.length (body ++ rest).length = body.length := by
    rw [List.length_append]
    omega
  rw [HTTPMessage.readInBody_known hstate (by rw [hexpected]) (by rw [hbody]; exact Nat.zero_le _)]
  simp only [hexpected, hbody, List.length_nil, Nat.sub_zero, hmin, List.nil_append, List.take_left, if_true]

/-- The text of `r` reads back as `r` with the given headers. -/
structure ReadsBack (r : HTTPRequest) (headers : List HTTPHeader) : Prop where
  lineNoCrlf : find crlf r.firstLine = none
  lines : List.Forall₂ HTTPHeader.ReadsBack r.headers headers
  calculate : calculateExpectedBodySize ⟨(false, 2 ^ 64 - 1), r.firstLine, headers, [], .bodyPending, {}⟩ =
    .ok ⟨(true, r.body.length), r.firstLine, headers, [], .bodyPending, {}⟩

theorem WellFormed.readsBack {r : HTTPRequest} (hwf : r.WellFormed) : r.ReadsBack r.headers where
  lineNoCrlf := hwf.lineNoCrlf
  lines := List.forall₂_same.2 fun h hh => (hwf.headers h hh).readsBack
  calculate := hwf.calculate rfl rfl rfl

/-- What a parser makes of a text that reads back. -/
def reread (r : HTTPRequest) (headers : List HTTPHeader) : HTTPRequest :=
  { r with expected := (true, r.body.length), headers := headers, state := .complete }

/-- A parser between two messages takes the text of a request from the front of its buffer. -/
theorem ReadsBack.drain_serialized {r : HTTPRequest} {headers : List HTTPHeader} (hback : r.ReadsBack headers)
    (rest : Bytes) (done : List HTTPRequest) :
    HTTPMessageSequence.drain (⟨r.serialized ++ rest, done, .fresh, ()⟩ : HTTPRequestParser) =
      HTTPMessageSequence.drain ⟨rest, done ++ [r.reread headers], .fresh, ()⟩ := by
  obtain ⟨headersText, hheaders⟩ : ∃ t, t = r.headers.flatMap fun h => h.str ++ crlf := ⟨_, rfl⟩
  have htext : r.serialized ++ rest = r.firstLine ++ crlf ++ (headersText ++ ([] ++ crlf ++ (r.body ++ rest))) := by
    unfold HTTPMessage.serialized
    rw [← hheaders]
    simp only [List.append_assoc, List.nil_append]
  have hline := HTTPMessageSequence.drain_firstLine
    (q := (⟨r.serialized ++ rest, done, .fresh, ()⟩ : HTTPRequestParser)) rfl htext hback.lineNoCrlf rfl rfl
  -- the empty line
  have hempty : HTTPMessageSequence.headerLine
      (⟨(false, 2 ^ 64 - 1), r.firstLine, headers, [], .headersPending, {}⟩ : HTTPRequest) [] =
      .ok ⟨(true, r.body.length), r.firstLine, headers, [], .bodyPending, {}⟩ := hback.calculate
  -- the body
  have hread := readInBody_exact (m := ⟨(true, r.body.length), r.firstLine, headers, [], .bodyPending, {}⟩)
    r.body rest rfl rfl rfl
  rw [hline, HTTPMessageSequence.drain_headers hback.lines rfl (by rw [hheaders])]
  refine (HTTPMessageSequence.drain_headerLine rfl rfl rfl hempty).trans ?_
  refine (HTTPMessageSequence.drain_body_complete rfl hread (by simp) rfl).trans ?_
  dsimp only
  rw [List.drop_left]
  rfl

end HTTPRequest

/-! ## Any number of requests, in any pieces -/

theorem drain_requests : ∀ {requests : List HTTPRequest} (done : List HTTPRequest), (∀ r ∈ requests, r.WellFormed) →
    HTTPMessageSequence.drain (⟨requests.flatMap HTTPMessage.serialized, done, .fresh, ()⟩ : HTTPRequestParser) =
      .ok ⟨[], done ++ requests.map HTTPRequest.parsed, .fresh, ()⟩
  | [], done, _ => by
    rw [List.map_nil, List.append_nil]
    exact HTTPMessageSequence.drain_stop (q := ⟨[], done, .fresh, ()⟩) rfl
  | r :: requests, done, hwf => by
    rw [List.flatMap_cons, (hwf r (List.mem_cons_self ..)).readsBack.drain_serialized,
      drain_requests _ fun r' h => hwf r' (List.mem_cons_of_mem _ h)]
    simp only [List.append_assoc, List.cons_append, List.nil_append, List.map_cons]
    rfl

/-- What a request says. -/
def HTTPRequest.content (r : HTTPRequest) : Bytes × List HTTPHeader × Bytes := (r.firstLine, r.headers, r.body)

theorem str_of_complete {r : HTTPRequest} (h : r.state = .complete) : r.str = .ok r.serialized := by
  unfold HTTPMessage.str
  rw [check_of (by simpa using h)]
  rfl

theorem mapM_str : ∀ {requests : List HTTPRequest}, (∀ r ∈ requests, r.WellFormed) →
    requests.mapM HTTPMessage.str = .ok (requests.map HTTPMessage.serialized)
  | [], _ => rfl
  | r :: requests, hwf => by
    rw [List.mapM_cons, str_of_complete (hwf r (List.mem_cons_self ..)).complete, Run.ok_bind,
      mapM_str fun r' h => hwf r' (List.mem_cons_of_mem _ h)]
    rfl

/-- A text that a fresh parser reads whole, in any pieces. -/
theorem feed_text {q : HTTPRequestParser} {pieces : List Bytes} (hne : ∀ x ∈ pieces, x ≠ [])
    (hdrain : HTTPMessageSequence.drain (⟨pieces.flatten, [], .fresh, ()⟩ : HTTPRequestParser) = .ok q) :
    Pieces.feed HTTPMessageSequence.parse (.start () : HTTPRequestParser) pieces = .ok q := by
  by_cases hstream : pieces.flatten = []
  · -- no piece at all
    have hpieces : pieces = [] := by
      cases pieces with
      | nil => rfl
      | cons x xs => exact absurd (List.flatten_eq_nil_iff.1 hstream x (List.mem_cons_self ..)) (hne x (List.mem_cons_self ..))
    subst hpieces
    rw [List.flatten_nil, HTTPMessageSequence.drain_stop (q := (⟨[], [], .fresh, ()⟩ : HTTPRequestParser)) rfl] at hdrain
    exact hdrain
  · have hwhole : Pieces.feed HTTPMessageSequence.parse (.start () : HTTPRequestParser) [pieces.flatten] = .ok q := by
      rw [Pieces.feed_cons, HTTPMessageSequence.parse_eq hstream]
      show HTTPMessageSequence.drain ⟨[] ++ pieces.flatten, [], .fresh, ()⟩ >>= _ = _
      rw [List.nil_append, hdrain]
      rfl
    have hagree := requests_in_pieces hne (show ∀ x ∈ [pieces.flatten], x ≠ [] by simpa using hstream) (by simp)
    rw [hwhole] at hagree
    cases hfeed : Pieces.feed HTTPMessageSequence.parse (.start () : HTTPRequestParser) pieces with
    | error e => rw [hfeed] at hagree; cases hagree
    | ok q =>
      rw [hfeed] at hagree
      cases hagree with
      | ok h => rw [h]

/-- The texts of the requests in any pieces. -/
theorem feed_requests {requests : List HTTPRequest} (hwf : ∀ r ∈ requests, r.WellFormed) {pieces : List Bytes}
    (hne : ∀ x ∈ pieces, x ≠ []) (hflat : pieces.flatten = requests.flatMap HTTPMessage.serialized) :
    Pieces.feed HTTPMessageSequence.parse (.start () : HTTPRequestParser) pieces =
      .ok ⟨[], requests.map HTTPRequest.parsed, .fresh, ()⟩ := by
  have hdrain := drain_requests [] hwf
  rw [← hflat] at hdrain
  exact feed_text hne hdrain

/-- Pipelined requests come out of a fresh parser as they went into their texts, however the
concatenation of the texts is cut, and the parser then waits for a first line with an empty buffer. -/
theorem requests_round_trip {requests : List HTTPRequest} (hwf : ∀ r ∈ requests, r.WellFormed) :
    ∃ texts, requests.mapM HTTPMessage.str = .ok texts ∧
      ∀ pieces : List Bytes, (∀ x ∈ pieces, x ≠ []) → pieces.flatten = texts.flatten →
        ∃ q : HTTPRequestParser, Pieces.feed HTTPMessageSequence.parse (.start ()) pieces = .ok q ∧
          q.completeMessages.map HTTPRequest.content = requests.map HTTPRequest.content ∧
          q.messageInProgress.state = .firstLinePending ∧ q.buffer = [] := by
  refine ⟨_, mapM_str hwf, fun pieces hne hflat => ?_⟩
  rw [← List.flatMap_def] at hflat
  refine ⟨_, feed_requests hwf hne hflat, ?_, rfl, rfl⟩
  rw [List.map_map]
  rfl

theorem requests_round_trip_small :
    ∃ texts, [(⟨(false, 0), ascii "GET / HTTP/1.1", [⟨ascii "Host", ascii "a"⟩], [], .complete, {}⟩ : HTTPRequest),
        ⟨(false, 0), ascii "POST / HTTP/1.1", [⟨ascii "content-length", ascii "7"⟩], ascii "GET /\r\n", .complete, {}⟩].mapM
          HTTPMessage.str = .ok texts ∧
      ∀ pieces : List Bytes, (∀ x ∈ pieces, x ≠ []) → pieces.flatten = texts.flatten →
        ∃ q : HTTPRequestParser, Pieces.feed HTTPMessageSequence.parse (.start ()) pieces = .ok q ∧
          q.completeMessages.map HTTPRequest.content =
            [(ascii "GET / HTTP/1.1", [⟨ascii "Host", ascii "a"⟩], []),
              (ascii "POST / HTTP/1.1", [⟨ascii "content-length", ascii "7"⟩], ascii "GET /\r\n")] ∧
          q.messageInProgress.state = .firstLinePending ∧ q.buffer = [] := by
  refine requests_round_trip fun r hr => ?_
  have hheader : ∀ {key value : Bytes}, 58 ∉ key → find crlf key = none → value ≠ [] → value.head? ≠ some 32 →
      find crlf value = none → ∀ h ∈ [(⟨key, value⟩ : HTTPHeader)], h.WellFormed := by
    intro key value h₁ h₂ h₃ h₄ h₅ h hmem
    rw [List.mem_singleton] at hmem
    subst hmem
    exact ⟨h₁, h₂, h₃, h₄, h₅⟩
  rcases List.mem_cons.1 hr with rfl | hr
  · exact ⟨rfl, by decide, hheader (by decide) (by decide) (by decide) (by decide) (by decide), .get (by decide) rfl, by decide⟩
  · obtain rfl := List.mem_singleton.1 hr
    exact ⟨rfl, by decide, hheader (by decide) (by decide) (by decide) (by decide) (by decide),
      .post (by decide) rfl ⟨by decide, by decide, by decide⟩, by decide⟩

end AbcMahimahi.Http
