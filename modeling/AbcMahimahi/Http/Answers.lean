/-
Responses as they are written, and how the response parser takes them byte by byte. Where the rules of the source find
the body, a parser that waits for the response to a request takes the whole text of an answer to it as one message, or
waits for the end of the stream after it. Elsewhere it throws in the head, finds an end before the end, or goes on
behind it.
-/
import AbcMahimahi.Http.MessageLength
import AbcMahimahi.Http.Segmentation

namespace AbcMahimahi.Http

open Bytes

/-! ## Answers -/

/-- A response as it is written, and what its lines mean. -/
structure Answer where
  statusLine : Bytes
  code : Bytes
  headerLines : List Bytes
  headers : List HTTPHeader
  body : Bytes

namespace Answer

/-- The lines, up to the empty one. -/
def head (a : Answer) : Bytes := a.statusLine ++ crlf ++ (a.headerLines.flatMap (· ++ crlf) ++ crlf)

def bytes (a : Answer) : Bytes := a.head ++ a.body

/-- The line of a header. -/
structure HeaderLine (line : Bytes) (header : HTTPHeader) : Prop where
  nonempty : line ≠ []
  noCrlf : find crlf line = none
  parses : HTTPHeader.parse line = .ok header

/-- The lines say what they mean. -/
structure Written (a : Answer) : Prop where
  lineNoCrlf : find crlf a.statusLine = none
  status : ∃ version reason more, split a.statusLine 32 = version :: a.code :: reason :: more
  code : a.code ≠ []
  headers : List.Forall₂ HeaderLine a.headerLines a.headers

/-- A complete response to a request, where the end of the stream may have to end it. -/
structure To (a : Answer) (request : HTTPRequest) (eof : Bool) : Prop extends Written a where
  body : Body request a.code a.headers eof a.body

/-- An interim response has a code that starts with 1. -/
def Interim (a : Answer) : Prop := a.code.head? = some 49

instance (a : Answer) : Decidable a.Interim := inferInstanceAs (Decidable (_ = _))

/-- The response when its headers are done. -/
def pending (a : Answer) (request : HTTPRequest) : HTTPResponse :=
  ⟨(false, 2 ^ 64 - 1), a.statusLine, a.headers, [], .bodyPending, { request := request }⟩

variable {a : Answer} {request : HTTPRequest}

theorem Written.headersDone (h : a.Written) (hrequest : request.state = .complete) : HeadersDone (a.pending request) a.code := by
  obtain ⟨version, reason, more, hsplit⟩ := h.status
  refine ⟨rfl, ?_, h.code, hrequest⟩
  unfold HTTPResponse.statusCode
  rw [check_of (by rfl), Run.ok_bind, show split (a.pending request).firstLine 32 = _ from hsplit]
  rfl

/-- What the rules make of an answer. -/
theorem Written.calculated (h : a.Written) (hrequest : request.state = .complete) :
    Calculated (a.pending request) a.code (a.pending request).calculateExpectedBodySize :=
  HTTPResponse.calculated (h.headersDone hrequest)

end Answer

/-! ## Byte by byte -/

namespace HTTPMessageSequence

variable {q : HTTPResponseParser}

theorem drain_waits (hwait : q.messageInProgress.state = .firstLinePending ∨ q.messageInProgress.state = .headersPending)
    (hline : find crlf q.buffer = none) : q.drain = .ok q := by
  rcases hwait with hstate | hstate
  · exact drain_stop ((parsingStep_firstLine hstate).trans (stepFirstLine_none hline))
  · exact drain_stop ((parsingStep_headers hstate).trans (stepHeaders_none hline))

/-- The bytes of a line are kept until its CRLF is there. -/
theorem bytewise_kept : ∀ {line : Bytes} {q : HTTPResponseParser},
    q.messageInProgress.state = .firstLinePending ∨ q.messageInProgress.state = .headersPending →
    find crlf (q.buffer ++ line) = none → Pieces.bytewise parse q line = .ok (q.append line)
  | [], q, _, _ => by
    show Except.ok q = _
    unfold append
    rw [List.append_nil]
  | b :: line, q, hwait, hline => by
    have hfirst : find crlf (q.append [b]).buffer = none := by
      cases hfind : find crlf (q.buffer ++ [b]) with
      | none => exact hfind
      | some it =>
        have := find_append line hfind
        rw [List.append_assoc] at this
        exact absurd (hline.symm.trans this) (by simp)
    rw [Pieces.bytewise_cons, parse_eq (List.cons_ne_nil b []), drain_waits (q := q.append [b]) hwait hfirst, Run.ok_bind,
      bytewise_kept (q := q.append [b]) hwait (by unfold append; rw [List.append_assoc]; exact hline), append_append]
    rfl

/-- A line with its CRLF does the same byte by byte and at once. -/
theorem bytewise_line {line : Bytes}
    (hwait : q.messageInProgress.state = .firstLinePending ∨ q.messageInProgress.state = .headersPending)
    (hbuffer : q.buffer = []) (hline : find crlf line = none) :
    Pieces.bytewise parse q (line ++ crlf) = drain { q with buffer := line ++ crlf } := by
  have hkept : find crlf (q.buffer ++ (line ++ [13])) = none := by
    rw [hbuffer, List.nil_append]
    exact find_crlf_cr hline
  rw [show line ++ crlf = line ++ [13] ++ [10] by rw [List.append_assoc]; rfl, Pieces.bytewise_append,
    bytewise_kept hwait hkept, Run.ok_bind, Pieces.bytewise_cons, parse_eq (List.cons_ne_nil 10 []), append_append]
  unfold append
  rw [hbuffer, List.nil_append]
  exact bind_pure _

end HTTPMessageSequence

/-! ## The head of an answer -/

namespace Answer

/-- The parser in a message, with nothing in its buffer. -/
def inside (done : List HTTPResponse) (m : HTTPResponse) (requests : List HTTPRequest) : HTTPResponseParser :=
  ⟨[], done, m, requests⟩

variable {done : List HTTPResponse} {requests : List HTTPRequest} {m m' : HTTPResponse}

theorem bytewise_headerLine {line : Bytes} (hstate : m.state = .headersPending) (hline : find crlf line = none)
    (hm : HTTPMessageSequence.headerLine m line = .ok m') :
    Pieces.bytewise HTTPMessageSequence.parse (inside done m requests) (line ++ crlf) =
      (inside done m' requests).drain :=
  (HTTPMessageSequence.bytewise_line (q := inside done m requests) (Or.inr hstate) rfl hline).trans
    (HTTPMessageSequence.drain_headerLine (q := { inside done m requests with buffer := line ++ crlf }) hstate
      (List.append_nil _).symm hline hm)

theorem bytewise_firstLine {line : Bytes} {request : HTTPRequest} (hline : find crlf line = none) :
    Pieces.bytewise HTTPMessageSequence.parse (inside done .fresh (request :: requests)) (line ++ crlf) =
      .ok (inside done ⟨(false, 2 ^ 64 - 1), line, [], [], .headersPending, { request := request }⟩ requests) := by
  have hwaits : (inside done ⟨(false, 2 ^ 64 - 1), line, [], [], .headersPending, { request := request }⟩ requests).drain =
      .ok (inside done ⟨(false, 2 ^ 64 - 1), line, [], [], .headersPending, { request := request }⟩ requests) :=
    HTTPMessageSequence.drain_waits (Or.inr rfl) rfl
  rw [← hwaits]
  exact (HTTPMessageSequence.bytewise_line (q := inside done .fresh (request :: requests)) (Or.inl rfl) rfl hline).trans
    (HTTPMessageSequence.drain_firstLine (q := { inside done .fresh (request :: requests) with buffer := line ++ crlf })
      rfl (List.append_nil _).symm hline rfl rfl)

theorem bytewise_headers {lines : List Bytes} {headers : List HTTPHeader} (h : List.Forall₂ HeaderLine lines headers) :
    ∀ {m : HTTPResponse}, m.state = .headersPending →
      Pieces.bytewise HTTPMessageSequence.parse (inside done m requests) (lines.flatMap (· ++ crlf)) =
        .ok (inside done { m with headers := m.headers ++ headers } requests) := by
  induction h with
  | nil =>
    intro m _
    rw [List.append_nil]
    rfl
  | @cons line header lines headers hline _ ih =>
    intro m hstate
    have hm : HTTPMessageSequence.headerLine m line = .ok { m with headers := m.headers ++ [header] } := by
      unfold HTTPMessageSequence.headerLine HTTPMessage.addHeader
      rw [if_neg (by simpa using hline.nonempty), check_of (by simpa using hstate), Run.ok_bind, hline.parses]
      rfl
    have hwaits : (inside done { m with headers := m.headers ++ [header] } requests).drain =
        .ok (inside done { m with headers := m.headers ++ [header] } requests) :=
      HTTPMessageSequence.drain_waits (Or.inr hstate) rfl
    have hrest := ih (m := { m with headers := m.headers ++ [header] }) hstate
    rw [List.flatMap_cons, Pieces.bytewise_append, bytewise_headerLine hstate hline.noCrlf hm, hwaits, Run.ok_bind, hrest]
    dsimp only
    rw [List.append_assoc, List.singleton_append]

/-- The lines of an answer before the empty one. -/
theorem Written.bytewise_lines {a : Answer} (h : a.Written) (request : HTTPRequest) :
    Pieces.bytewise HTTPMessageSequence.parse (inside done .fresh (request :: requests))
        (a.statusLine ++ crlf ++ a.headerLines.flatMap (· ++ crlf)) =
      .ok (inside done { a.pending request with state := .headersPending } requests) := by
  rw [Pieces.bytewise_append, bytewise_firstLine h.lineNoCrlf, Run.ok_bind, bytewise_headers h.headers rfl]
  rfl

theorem head_eq (a : Answer) : a.head = a.statusLine ++ crlf ++ a.headerLines.flatMap (· ++ crlf) ++ ([] ++ crlf) :=
  (List.append_assoc _ _ _).symm

theorem Written.bytewise_head {a : Answer} {request : HTTPRequest} (h : a.Written)
    (hm : (a.pending request).calculateExpectedBodySize = .ok m) :
    Pieces.bytewise HTTPMessageSequence.parse (inside done .fresh (request :: requests)) a.head =
      (inside done m requests).drain := by
  have hline : HTTPMessageSequence.headerLine { a.pending request with state := .headersPending } [] = .ok m := hm
  rw [head_eq, Pieces.bytewise_append, h.bytewise_lines, Run.ok_bind, bytewise_headerLine rfl rfl hline]

theorem drain_complete (hstate : m.state = .bodyPending) (hread : m.readInBody [] = .ok (0, m')) (hdone : m'.state = .complete) :
    (inside done m requests).drain = .ok (inside (done ++ [m']) .fresh requests) := by
  have hwaits : (inside (done ++ [m']) .fresh requests).drain = .ok (inside (done ++ [m']) .fresh requests) :=
    HTTPMessageSequence.drain_waits (Or.inl rfl) rfl
  rw [← hwaits]
  exact HTTPMessageSequence.drain_body_complete (q := inside done m requests) hstate hread le_rfl hdone

theorem drain_pending (hstate : m.state = .bodyPending) (hread : m.readInBody [] = .ok (0, m)) :
    (inside done m requests).drain = .ok (inside done m requests) :=
  HTTPMessageSequence.drain_stop (HTTPMessageSequence.step_body_pending (q := inside done m requests) hstate hread hstate)

theorem parse_byte_complete {b : UInt8} (hstate : m.state = .bodyPending) (hread : m.readInBody [b] = .ok (1, m'))
    (hdone : m'.state = .complete) :
    (inside done m requests).parse [b] = .ok (inside (done ++ [m']) .fresh requests) := by
  have hwaits : (inside (done ++ [m']) .fresh requests).drain = .ok (inside (done ++ [m']) .fresh requests) :=
    HTTPMessageSequence.drain_waits (Or.inl rfl) rfl
  rw [← hwaits, HTTPMessageSequence.parse_eq (List.cons_ne_nil b [])]
  exact HTTPMessageSequence.drain_body_complete (q := (inside done m requests).append [b]) hstate hread le_rfl hdone

theorem parse_byte_pending {b : UInt8} (hstate : m.state = .bodyPending) (hread : m.readInBody [b] = .ok (1, m'))
    (hpending : m'.state = .bodyPending) :
    (inside done m requests).parse [b] = .ok (inside done m' requests) := by
  rw [HTTPMessageSequence.parse_eq (List.cons_ne_nil b [])]
  exact HTTPMessageSequence.drain_stop
    (HTTPMessageSequence.step_body_pending (q := (inside done m requests).append [b]) hstate hread hpending)

/-- A body of known size, from any point in it. -/
theorem bytewise_known : ∀ {rest : Bytes} {m : HTTPResponse}, m.state = .bodyPending →
    m.expected = (true, m.body.length + rest.length) →
    (inside done m requests).drain >>= (fun q => Pieces.bytewise HTTPMessageSequence.parse q rest) =
      .ok (inside (done ++ [{ m with body := m.body ++ rest, state := .complete }]) .fresh requests)
  | [], m, hstate, hexpected => by
    -- the body is whole at the end of the head already
    have hread : m.readInBody [] = .ok (0, { m with body := m.body ++ [], state := .complete }) := by
      rw [HTTPMessage.readInBody_known hstate (by rw [hexpected]) (by rw [hexpected]; exact Nat.le_add_right _ _)]
      simp [hexpected]
    rw [drain_complete hstate hread rfl]
    rfl
  | b :: rest, m, hstate, hexpected => by
    rw [List.length_cons] at hexpected
    have hknown : m.expected.1 = true := by rw [hexpected]
    have hlt : m.body.length < m.expected.2 := by rw [hexpected]; dsimp only; omega
    have hread := HTTPMessage.readInBody_known hstate hknown (le_of_lt hlt) [b]
    rw [show min (m.expected.2 - m.body.length) [b].length = 1 by simp only [List.length_singleton]; omega,
      List.take_of_length_le (by simp)] at hread
    have hlen : (m.body ++ [b]).length = m.body.length + 1 := by rw [List.length_append, List.length_singleton]
    rw [drain_pending hstate (HTTPMessage.Between.read_nil ⟨hstate, Or.inl ⟨hknown, hlt⟩⟩), Run.ok_bind, Pieces.bytewise_cons]
    -- the last byte ends the body, every other one leaves it open
    cases rest with
    | nil =>
      rw [if_pos (by rw [hlen, hexpected]; rfl)] at hread
      rw [parse_byte_complete hstate hread rfl]
      rfl
    | cons c rest =>
      rw [if_neg (by rw [hlen, hexpected, List.length_cons]; dsimp only; omega)] at hread
      have hlt' : (m.body ++ [b]).length < m.expected.2 := by rw [hlen, hexpected, List.length_cons]; dsimp only; omega
      have ih := @bytewise_known (c :: rest) { m with body := m.body ++ [b] } hstate
        (by rw [hexpected, hlen]; simp only [List.length_cons, Prod.mk.injEq, true_and]; omega)
      rw [drain_pending (m := { m with body := m.body ++ [b] }) hstate
        (HTTPMessage.Between.read_nil ⟨hstate, Or.inl ⟨hknown, hlt'⟩⟩), Run.ok_bind] at ih
      rw [parse_byte_pending hstate hread hstate, Run.ok_bind, ih]
      simp only [List.append_assoc, List.singleton_append]

/-- A message in a body of unknown size, with its parser. -/
structure Unknown (m : HTTPResponse) (parser : BodyParser) : Prop where
  state : m.state = .bodyPending
  unknown : m.expected.1 = false
  parser : m.members.bodyParser = some parser

theorem Unknown.read {parser : BodyParser} (h : Unknown m parser) (str : Bytes) : m.readInBody str = (do
      let (amountParsed, p) ← parser.read str
      let members := { m.members with bodyParser := some p }
      match amountParsed with
      | none => pure (str.length, { m with body := m.body ++ str, members := members })
      | some n => pure (n, { m with body := m.body ++ str.take n, state := .complete, members := members })) :=
  (HTTPMessage.readInBody_complex h.state h.unknown str).trans (HTTPResponse.readInComplexBody_eq h.state h.parser str)

theorem Unknown.read_nil {parser : BodyParser} (h : Unknown m parser) (hbetween : parser.Between) :
    m.readInBody [] = .ok (0, m) :=
  (HTTPMessage.readInBody_complex h.state h.unknown []).trans (HTTPResponse.readInComplexBody_nil h.state h.parser hbetween)

/-- Bytes of a chunked body in which the end is not found. -/
theorem bytewise_waits : ∀ {x : Bytes} {p p' : ChunkedBodyParser} {m : HTTPResponse},
    Run.steps ChunkedBodyParser.read p (x.map fun b => [b]) = .ok (List.replicate x.length none, p') →
    Unknown m (.chunked p) →
    Pieces.bytewise HTTPMessageSequence.parse (inside done m requests) x =
      .ok (inside done { m with body := m.body ++ x, members := ⟨m.members.request, some (.chunked p')⟩ } requests)
  | [], p, p', m, hsteps, hm => by
    cases hsteps
    rw [List.append_nil]
    have hparser := hm.parser
    obtain ⟨expected, firstLine, headers, body, state, request, bodyParser⟩ := m
    dsimp only at hparser
    subst hparser
    rfl
  | b :: x, p, p', m, hsteps, hm => by
    obtain ⟨out, p₁, outs, hread, hrest, hout⟩ := Run.steps_cons_ok hsteps
    obtain ⟨rfl, rfl⟩ := List.cons.inj hout
    have hbody := hm.read [b]
    unfold BodyParser.read at hbody
    dsimp only at hbody
    rw [hread] at hbody
    have ih := @bytewise_waits x p₁ p'
      { m with body := m.body ++ [b], members := { m.members with bodyParser := some (.chunked p₁) } } hrest
      ⟨hm.state, hm.unknown, rfl⟩
    rw [Pieces.bytewise_cons, parse_byte_pending hm.state hbody hm.state, Run.ok_bind]
    refine ih.trans ?_
    simp only [List.append_assoc, List.singleton_append]

/-- A chunked body up to the place where the end is found. -/
theorem bytewise_ends {trailers : Bool} {x : Bytes} {last : Nat} (h : ChunkedBodyParser.EndsAt trailers last (x.map fun b => [b]))
    (hm : Unknown m (.chunked { trailersEnabled := trailers })) :
    ∃ p', Pieces.bytewise HTTPMessageSequence.parse (inside done m requests) (x.take last) =
      .ok (inside (done ++ [{ m with
        body := m.body ++ x.take last
        state := .complete
        members := ⟨m.members.request, some p'⟩ }]) .fresh requests) := by
  -- fed byte by byte, the pieces are bytes, so the end is that of the byte it is found at
  obtain ⟨before, piece, after, p₁, p₂, hpieces, hlt, hle, hsteps, hread⟩ := h
  obtain ⟨u, v, rfl, rfl, hv⟩ := List.map_eq_append_iff.1 hpieces
  obtain ⟨b, v, rfl, rfl, -⟩ := List.map_eq_cons_iff.1 hv
  rw [List.length_map] at hsteps
  have hflat : (u.map fun b => [b]).flatten.length = u.length := by
    rw [ChunkedText.flatten_bytes]
  rw [hflat] at hlt hle hread
  rw [List.length_singleton] at hle
  obtain rfl : last = u.length + 1 := by omega
  rw [Nat.add_sub_cancel_left] at hread
  have htake : (u ++ b :: v).take (u.length + 1) = u ++ [b] := by
    rw [List.take_length_add_append]
    rfl
  have hwaits := @bytewise_waits done requests _ _ _ _ hsteps hm
  generalize hm₁ : ({ m with body := m.body ++ u, members := ⟨m.members.request, some (.chunked p₁)⟩ } : HTTPResponse) = m₁ at hwaits
  have hm₁' : Unknown m₁ (.chunked p₁) := by
    rw [← hm₁]
    exact ⟨hm.state, hm.unknown, rfl⟩
  have hbody := hm₁'.read [b]
  unfold BodyParser.read at hbody
  dsimp only at hbody
  rw [hread] at hbody
  rw [htake, Pieces.bytewise_append, hwaits, Run.ok_bind, Pieces.bytewise_cons, parse_byte_complete hm₁'.state hbody rfl, ← hm₁]
  refine ⟨.chunked p₂, ?_⟩
  simp only [List.append_assoc]
  rfl

/-- A body that only the end of the stream ends. -/
theorem bytewise_untilEof : ∀ {rest : Bytes} {m : HTTPResponse}, Unknown m .rule5 →
    Pieces.bytewise HTTPMessageSequence.parse (inside done m requests) rest =
      .ok (inside done { m with body := m.body ++ rest } requests)
  | [], m, _ => by
    rw [List.append_nil]
    rfl
  | b :: rest, m, h => by
    have hread : m.readInBody [b] = .ok (1, { m with body := m.body ++ [b] }) := by
      rw [h.read]
      have hparser := h.parser
      obtain ⟨expected, firstLine, headers, body, state, request, bodyParser⟩ := m
      dsimp only at hparser
      subst hparser
      rfl
    rw [Pieces.bytewise_cons, parse_byte_pending h.state hread h.state, Run.ok_bind,
      bytewise_untilEof (m := { m with body := m.body ++ [b] }) ⟨h.state, h.unknown, h.parser⟩]
    simp only [List.append_assoc, List.singleton_append]

/-! ## Whole answers -/

/-- The message that an answer becomes: its lines, its body and the request it answers. -/
structure Becomes (a : Answer) (request : HTTPRequest) (m : HTTPResponse) : Prop where
  firstLine : m.firstLine = a.statusLine
  headers : m.headers = a.headers
  body : m.body = a.body
  request : m.members.request = request

/-- The rules that the answer is found by are those that decide, and they say where it ends. -/
inductive Goes (a : Answer) (request : HTTPRequest) (eof : Bool) : Except Fault HTTPResponse → Prop
  | known : Goes a request eof (.ok { a.pending request with expected := (true, a.body.length) })
  | chunked {announced : Bool} (hends : ChunkedBodyParser.EndsAt announced a.body.length (a.body.map fun b => [b])) :
      Goes a request eof (.ok { a.pending request with members := ⟨request, some (.chunked { trailersEnabled := announced })⟩ })
  | lastChunked {sizes : List Nat} (hbody : ChunkedText [] sizes a.body) (hfits : ∀ n ∈ sizes, n < 2 ^ 32 - 2) (heof : eof = true) :
      Goes a request eof (.ok { a.pending request with members := ⟨request, some (.chunked { trailersEnabled := true })⟩ })
  | untilEof (heof : eof = true) : Goes a request eof (.ok { a.pending request with members := ⟨request, some .rule5⟩ })

theorem Written.goes {a : Answer} {request : HTTPRequest} {eof : Bool} (h : a.Written) (hrequest : request.state = .complete)
    (hfound : Found request a.code a.headers eof a.body) : Goes a request eof (a.pending request).calculateExpectedBodySize := by
  have hcalculated := h.calculated hrequest
  generalize (a.pending request).calculateExpectedBodySize = result at hcalculated
  generalize hb : a.body = body at hfound
  -- where rule 2 sees chunks there is a Transfer-Encoding header
  have hcoded : SeesChunked a.headers → valueOf a.headers (ascii "Transfer-Encoding") = none → False := by
    rintro ⟨value, hvalue, -⟩ hnone
    rw [hnone] at hvalue
    cases hvalue
  cases hcalculated with
  | none hno =>
    cases hfound with
    | none _ =>
      have hknown : Goes a request eof (.ok { a.pending request with expected := (true, a.body.length) }) := .known
      rwa [hb] at hknown
    | chunked h => exact absurd hno h
    | lastChunked h => exact absurd hno h
    | length h => exact absurd hno h
    | untilEof h => exact absurd hno h
  | chunked hno hsees =>
    cases hfound with
    | none h => exact absurd h hno
    | chunked _ _ htrailers hbody hfits hannounced =>
      exact .chunked (hb ▸ hbody.endsAt hfits htrailers hannounced)
    | lastChunked _ _ hbody hfits hannounced heof =>
      rw [show (valueOf (a.pending request).headers (ascii "Trailer")).isSome = true from hannounced]
      exact .lastChunked (hb ▸ hbody) hfits heof
    | length _ hcoding => exact (hcoded hsees hcoding).elim
    | untilEof _ h => exact absurd hsees h
  | @length value k hno hcoding hvalue hlength hlong =>
    cases hfound with
    | none h => exact absurd h hno
    | chunked _ hsees => exact (hcoded hsees hcoding).elim
    | lastChunked _ hsees => exact (hcoded hsees hcoding).elim
    | length _ _ hvalue' hlength' _ =>
      obtain rfl := Option.some.inj (hvalue.symm.trans hvalue')
      obtain rfl := hlength.unique hlength'
      -- the value is a `long`, and a `size_t` of a length is the same number
      have hsize : ((body.length : Int) % 2 ^ 64).toNat = a.body.length := by
        rw [hb]
        omega
      rw [hsize]
      exact .known
    | untilEof _ _ h => exact absurd (hvalue.symm.trans (h hcoding)) (Option.some_ne_none _)
  | badLength hno hcoding hvalue hbad =>
    cases hfound with
    | none h => exact absurd h hno
    | chunked _ hsees => exact (hcoded hsees hcoding).elim
    | lastChunked _ hsees => exact (hcoded hsees hcoding).elim
    | length _ _ hvalue' hlength hfits =>
      obtain rfl := Option.some.inj (hvalue.symm.trans hvalue')
      exact absurd ⟨by omega, by omega⟩ (hbad _ hlength)
    | untilEof _ _ h => exact absurd (hvalue.symm.trans (h hcoding)) (Option.some_ne_none _)
  | untilEof hno hsees hlength _ =>
    cases hfound with
    | none h => exact absurd h hno
    | chunked _ h => exact absurd h hsees
    | lastChunked _ h => exact absurd h hsees
    | length _ hcoding hvalue => exact absurd (hvalue.symm.trans (hlength hcoding)) (Option.some_ne_none _)
    | untilEof _ _ _ _ heof => exact .untilEof heof
  | badType hno hsees hlength htype =>
    cases hfound with
    | none h => exact absurd h hno
    | chunked _ h => exact absurd h hsees
    | lastChunked _ h => exact absurd h hsees
    | length _ hcoding hvalue => exact absurd (hvalue.symm.trans (hlength hcoding)) (Option.some_ne_none _)
    | untilEof _ _ _ h => exact absurd h htype

/-- A parser that waits for the response to a request takes an answer to it as one message, which is complete with its
last byte or, at the end of the stream, pending. -/
theorem Written.found {a : Answer} {request : HTTPRequest} {eof : Bool} (h : a.Written) (hrequest : request.state = .complete)
    (hfound : Found request a.code a.headers eof a.body) (done : List HTTPResponse) (requests : List HTTPRequest) :
    ∃ m, Becomes a request m ∧
      (Pieces.bytewise HTTPMessageSequence.parse (inside done .fresh (request :: requests)) a.bytes =
          .ok (inside (done ++ [m]) .fresh requests) ∨
        eof = true ∧ (∃ parser, Unknown m parser) ∧
          Pieces.bytewise HTTPMessageSequence.parse (inside done .fresh (request :: requests)) a.bytes =
            .ok (inside done m requests)) := by
  have hgoes := h.goes hrequest hfound
  generalize hr : (a.pending request).calculateExpectedBodySize = r at hgoes
  unfold bytes
  rw [Pieces.bytewise_append]
  cases hgoes with
  -- the body is as long as announced, and the response complete with its last byte
  | known =>
    rw [h.bytewise_head hr]
    refine ⟨_, ?_, Or.inl (bytewise_known rfl (by simp [pending]))⟩
    exact ⟨rfl, rfl, rfl, rfl⟩
  | @chunked announced hends =>
    have hparser : Unknown { a.pending request with members := ⟨request, some (.chunked { trailersEnabled := announced })⟩ }
      (.chunked { trailersEnabled := announced }) := ⟨rfl, rfl, rfl⟩
    have hstop := @drain_pending done requests _ hparser.state (hparser.read_nil (ChunkedBodyParser.quiet_start _))
    obtain ⟨p', hbody⟩ := bytewise_ends hends hparser
    rw [List.take_length] at hbody
    rw [h.bytewise_head hr, hstop, Run.ok_bind, hbody]
    exact ⟨_, ⟨rfl, rfl, rfl, rfl⟩, Or.inl rfl⟩
  -- the trailers may still come, so the response stays open until the stream ends
  | lastChunked htext hfits heof =>
    have hparser : Unknown { a.pending request with members := ⟨request, some (.chunked { trailersEnabled := true })⟩ }
      (.chunked { trailersEnabled := true }) := ⟨rfl, rfl, rfl⟩
    have hstop := @drain_pending done requests _ hparser.state (hparser.read_nil (ChunkedBodyParser.quiet_start _))
    obtain ⟨p', hsteps⟩ := htext.waits hfits (show [].length < 2 by decide)
    rw [List.append_nil] at hsteps
    rw [h.bytewise_head hr, hstop, Run.ok_bind, bytewise_waits hsteps hparser]
    exact ⟨_, ⟨rfl, rfl, rfl, rfl⟩, Or.inr ⟨heof, ⟨_, rfl, rfl, rfl⟩, rfl⟩⟩
  | untilEof heof =>
    have hparser : Unknown { a.pending request with members := ⟨request, some .rule5⟩ } .rule5 := ⟨rfl, rfl, rfl⟩
    have hstop := @drain_pending done requests _ hparser.state (hparser.read_nil trivial)
    rw [h.bytewise_head hr, hstop, Run.ok_bind, bytewise_untilEof hparser]
    exact ⟨_, ⟨rfl, rfl, rfl, rfl⟩, Or.inr ⟨heof, ⟨_, rfl, rfl, rfl⟩, rfl⟩⟩

end Answer

end AbcMahimahi.Http
