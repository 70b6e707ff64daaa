/-
HTTP parsing does not depend on how the byte stream is cut, as long as a piece is shorter than 4 GiB; what the
proxy reads at once is at most 1 MiB. A chunk whose size does not fit in a 32-bit word together with its CRLF fails
at its first byte of data in all of these; only a piece that holds the whole chunk could get past it.
-/
import AbcMahimahi.Http.ChunkedPieces
import AbcMahimahi.Http.Pieces
import AbcMahimahi.Http.Response

namespace AbcMahimahi.Http

open Bytes

/-! ## Requests -/

instance : ReadsInPieces RequestMembers where
  forget := id
  Reading _ := False
  Bad _ _ := False
  not_bad_byte _ _ h := h
  start h := by cases h; rfl
  calculate h := by
    obtain ⟨-, value, rfl⟩ := HTTPRequest.calculateExpectedBodySize_ok h
    exact ⟨rfl, rfl, Or.inl rfl⟩
  read_nil _ h := absurd h id
  read_byte _ h _ := absurd h id

/-- Requests have nothing to forget. -/
theorem alike_request {q q' : HTTPRequestParser} : q.Alike q' ↔ q = q' := by
  constructor
  · rintro ⟨hbuffer, hprogress, hmembers, hcomplete⟩
    obtain ⟨buffer, complete, m, members⟩ := q
    obtain ⟨buffer', complete', m', members'⟩ := q'
    have hid : ∀ l : List HTTPRequest, l.map (·.forgetting ReadsInPieces.forget) = l := fun l => List.map_id l
    rw [hid, hid] at hcomplete
    dsimp only at hbuffer hprogress hmembers hcomplete
    rw [hbuffer, hprogress, hmembers, hcomplete]
  · rintro rfl
    exact HTTPMessageSequence.alike_equiv.refl q

/-! ## Responses -/

/-- The body parser is between two pieces. -/
def BodyParser.Between : BodyParser → Prop
  | .rule5 => True
  | .chunked p => p.Quiet

namespace HTTPResponse

theorem readInComplexBody_eq {m : HTTPResponse} {p : BodyParser} (hstate : m.state = .bodyPending)
    (hp : m.members.bodyParser = some p) (str : Bytes) :
    m.readInComplexBody str = (do
      let (amountParsed, p) ← p.read str
      let members := { m.members with bodyParser := some p }
      match amountParsed with
      | none => pure (str.length, { m with body := m.body ++ str, members := members })
      | some n => pure (n, { m with body := m.body ++ str.take n, state := .complete, members := members })) := by
  unfold readInComplexBody
  rewrite [check_of (by simpa using hstate), Run.ok_bind, hp]
  rfl

theorem readInComplexBody_nil {m : HTTPResponse} {p : BodyParser} (hstate : m.state = .bodyPending)
    (hp : m.members.bodyParser = some p) (h : p.Between) : m.readInComplexBody [] = .ok (0, m) := by
  have hread : p.read [] = .ok (none, p) := by
    cases p with
    | rule5 => rfl
    | chunked p =>
      unfold BodyParser.read
      dsimp only
      rw [ChunkedBodyParser.read_nil h]
      rfl
  rw [readInComplexBody_eq hstate hp, hread]
  simp only [Run.ok_bind, List.append_nil, List.length_nil, Run.pure_ok]
  obtain ⟨expected, firstLine, headers, body, state, request, bodyParser⟩ := m
  dsimp only at hp
  rw [hp]

/-- What the response does not read any more once it is complete. -/
def forget (s : ResponseMembers) : ResponseMembers := { s with bodyParser := none }

/-- A body of unknown size is being read. -/
def Reading (s : ResponseMembers) : Prop := ∃ p, s.bodyParser = some p ∧ p.Between

/-- The response is at the start of a chunk whose end wraps around, and the stream holds the chunk. -/
def AtWrappingChunk (s : ResponseMembers) (stream : Bytes) : Prop :=
  ∃ p, s.bodyParser = some (.chunked p) ∧ p.AtWrappingChunk stream

/-- Few streams are so long. -/
theorem AtWrappingChunk.length_le {s : ResponseMembers} {stream : Bytes} (h : AtWrappingChunk s stream) :
    2 ^ 32 ≤ stream.length := by
  obtain ⟨p, -, -, -, hwide, hcr⟩ := h
  have hlen := hcr.length_le
  rw [List.length_drop, length_crlf] at hlen
  omega

/-- One byte of a body that only the end of the stream ends. -/
theorem byteSpec_rule5 {m : HTTPResponse} (hstate : m.state = .bodyPending) (hp : m.members.bodyParser = some .rule5)
    (b : UInt8) (rest : Bytes) :
    m.ByteSpec forget (fun m₁ => m₁.state = .bodyPending ∧ m₁.expected = m.expected ∧ Reading m₁.members)
      readInComplexBody b rest := by
  have hread : ∀ {m : HTTPResponse}, m.state = .bodyPending → m.members.bodyParser = some .rule5 → ∀ str : Bytes,
      m.readInComplexBody str = .ok (str.length, { m with body := m.body ++ str }) := by
    intro m hstate hp str
    rw [readInComplexBody_eq hstate hp]
    obtain ⟨expected, firstLine, headers, body, state, request, bodyParser⟩ := m
    dsimp only at hp
    subst hp
    rfl
  refine .goes (hread hstate hp [b]) ⟨hstate, rfl, .rule5, hp, trivial⟩ ?_
  rw [hread hstate hp, hread (m := { m with body := m.body ++ [b] }) hstate hp]
  simp only [List.length_cons, List.append_assoc, List.cons_append, List.nil_append]
  exact .ok (Or.inl rfl)

/-- One byte of a chunked body. -/
theorem byteSpec_chunked {m : HTTPResponse} {p : ChunkedBodyParser} (hstate : m.state = .bodyPending)
    (hp : m.members.bodyParser = some (.chunked p)) (hquiet : p.Quiet) {b : UInt8} {rest : Bytes}
    (hsafe : ¬ p.AtWrappingChunk (b :: rest)) :
    m.ByteSpec forget (fun m₁ => m₁.state = .bodyPending ∧ m₁.expected = m.expected ∧ Reading m₁.members)
      readInComplexBody b rest := by
  have hbyte := readInComplexBody_eq hstate hp [b]
  have hall := readInComplexBody_eq hstate hp (b :: rest)
  unfold BodyParser.read at hbyte hall
  dsimp only at hbyte hall
  cases hquiet.byteSpec hsafe with
  | fails h h' =>
    rw [h] at hbyte
    rw [h'] at hall
    exact .fails hbyte hall
  | ends h h' =>
    rw [h] at hbyte
    rw [h'] at hall
    exact .ends hbyte hall rfl rfl rfl
  -- the parser is open after the byte, and what it says of the rest is one less
  | @goes p₁ h hquiet₁ h' =>
    rw [h] at hbyte
    refine .goes hbyte ⟨hstate, rfl, _, rfl, hquiet₁⟩ ?_
    have hrest := readInComplexBody_eq
      (m := { m with body := m.body ++ [b], members := { m.members with bodyParser := some (.chunked p₁) } })
      hstate rfl rest
    unfold BodyParser.read at hrest
    dsimp only at hrest
    rw [hall]
    refine (congrArg (HTTPMessage.OneMore forget _) hrest).mpr ?_
    generalize p.read (b :: rest) = r at h'
    generalize p₁.read rest = r₁ at h'
    cases h' with
    | error => exact .error
    | none p' =>
      simp only [Run.map_ok, Run.ok_bind, Run.pure_ok, List.length_cons, List.append_assoc, List.cons_append, List.nil_append]
      exact .ok (Or.inl rfl)
    | some n p' p'' =>
      simp only [Run.map_ok, Run.ok_bind, Run.pure_ok, List.take_succ_cons, List.append_assoc, List.cons_append,
        List.nil_append]
      exact .ok (Or.inr ⟨rfl, rfl, rfl⟩)

end HTTPResponse

instance : ReadsInPieces ResponseMembers where
  forget := HTTPResponse.forget
  Reading := HTTPResponse.Reading
  Bad := HTTPResponse.AtWrappingChunk
  not_bad_byte s b h := by
    have hlong := h.length_le
    rw [List.length_singleton] at hlong
    omega
  start {m m' d d'} h := by
    cases d with
    | nil => cases h
    | cons request requests =>
      obtain ⟨m₁, hset, h⟩ := Run.bind_ok h
      obtain ⟨_, -, hset⟩ := Run.bind_ok hset
      cases hset
      cases h
      rfl
  calculate {m m'} h := by
    obtain ⟨hstate, ⟨value, rfl⟩ | ⟨p, hp, rfl⟩⟩ := HTTPResponse.calculateExpectedBodySize_ok h
    · exact ⟨rfl, rfl, Or.inl rfl⟩
    · refine ⟨rfl, rfl, Or.inr ⟨rfl, p, rfl, ?_⟩⟩
      cases hp with
      | rule5 => trivial
      | chunked trailers => exact ChunkedBodyParser.quiet_start trailers
  read_nil hstate h := by
    obtain ⟨p, hp, hbetween⟩ := h
    exact HTTPResponse.readInComplexBody_nil hstate hp hbetween
  read_byte {m b rest} hstate h hsafe := by
    obtain ⟨p, hp, hbetween⟩ := h
    cases p with
    | rule5 => exact HTTPResponse.byteSpec_rule5 hstate hp b rest
    | chunked p => exact HTTPResponse.byteSpec_chunked hstate hp hbetween (fun hw => hsafe ⟨p, hp, hw⟩)

/-! ## Any two ways to cut a stream -/

/-- Nothing is excepted in a piece of less than 4 GiB. -/
theorem avoids_of_short {x : Bytes} (hshort : x.length < 2 ^ 32) (q : HTTPResponseParser) :
    Pieces.Avoids HTTPMessageSequence.parse HTTPMessageSequence.Bad q x := by
  rintro u v q' rfl - ⟨-, -, hwrap⟩
  have hlong := HTTPResponse.AtWrappingChunk.length_le hwrap
  rw [List.length_append] at hshort
  omega

theorem requests_avoid (x : Bytes) (q : HTTPRequestParser) :
    Pieces.Avoids HTTPMessageSequence.parse HTTPMessageSequence.Bad q x :=
  fun _ _ _ _ _ hb => hb.2.2

/-- Requests have no exception. -/
theorem requests_in_pieces {pieces pieces' : List Bytes} (hne : ∀ x ∈ pieces, x ≠ []) (hne' : ∀ x ∈ pieces', x ≠ [])
    (hflat : pieces.flatten = pieces'.flatten) :
    Pieces.Agree (fun q q' : HTTPRequestParser => q = q') (Pieces.feed HTTPMessageSequence.parse (.start ()) pieces)
      (Pieces.feed HTTPMessageSequence.parse (.start ()) pieces') := by
  have hagree := HTTPMessageSequence.parse_incremental.feed_agree (fun x hx => ⟨hne x hx, requests_avoid x⟩)
    (fun x hx => ⟨hne' x hx, requests_avoid x⟩) (HTTPMessageSequence.quiet_start (S := RequestMembers) ()) hflat
  exact hagree.imp fun _ _ => alike_request.1

/-- However a stream is cut, a fresh request parser fails, or ends in the same state with the same
complete requests. A fresh response parser that knows the requests fails, or ends in the same state
with the same complete responses, where no piece is of 4 GiB or more. -/
theorem parse_segmentation {pieces pieces' : List Bytes} (hne : ∀ x ∈ pieces, x ≠ []) (hne' : ∀ x ∈ pieces', x ≠ [])
    (hflat : pieces.flatten = pieces'.flatten) :
    Pieces.Agree (fun q q' : HTTPRequestParser => q = q') (Pieces.feed HTTPMessageSequence.parse (.start ()) pieces)
      (Pieces.feed HTTPMessageSequence.parse (.start ()) pieces') ∧
    ((∀ x ∈ pieces ++ pieces', x.length < 2 ^ 32) → ∀ requests : List HTTPRequest,
      Pieces.Agree (HTTPMessageSequence.Alike (S := ResponseMembers))
        (Pieces.feed HTTPMessageSequence.parse (.start requests) pieces)
        (Pieces.feed HTTPMessageSequence.parse (.start requests) pieces')) := by
  refine ⟨requests_in_pieces hne hne' hflat, fun hshort requests => ?_⟩
  refine HTTPMessageSequence.parse_incremental.feed_agree (fun x hx => ⟨hne x hx, fun q => ?_⟩)
    (fun x hx => ⟨hne' x hx, fun q => ?_⟩) (HTTPMessageSequence.quiet_start requests) hflat
  · exact avoids_of_short (hshort x (List.mem_append_left _ hx)) q
  · exact avoids_of_short (hshort x (List.mem_append_right _ hx)) q

def getRequest : HTTPRequest := { firstLine := ascii "GET / HTTP/1.1", state := .complete, members := {} }

/-- A chunked response with trailers, cut in the size of a chunk, in its data, between the bytes of a CRLF and in a
trailer. -/
def chunkedPieces : List Bytes :=
  [ascii "HTTP/1.1 200 OK\r\nTransfer-Encoding: chunked\r\nTrailer: Age\r\n\r\n1", ascii "0;x\r\n0123456789ab",
    ascii "cdef\r", ascii "\n2\r\n\r\n\r\n0\r\nAg", ascii "e: 0\r\n\r\nHTTP/1.1 304 "]

/-- The same response, cut elsewhere. -/
def chunkedPieces' : List Bytes :=
  [ascii "HTTP/1.1 200 OK\r", ascii "\nTransfer-Encoding: chunked\r\nTrailer: Age\r\n\r\n10;x\r\n0123456789abcdef\r\n2\r",
    ascii "\n\r\n\r\n0\r\nAge: 0\r\n\r", ascii "\nHTTP/1.1 304 "]

theorem parse_segmentation_small :
    Pieces.Agree (HTTPMessageSequence.Alike (S := ResponseMembers))
      (Pieces.feed HTTPMessageSequence.parse (.start [getRequest, getRequest]) chunkedPieces)
      (Pieces.feed HTTPMessageSequence.parse (.start [getRequest, getRequest]) chunkedPieces') :=
  (parse_segmentation (by decide) (by decide) (by decide)).2 (by decide) [getRequest, getRequest]

/-- It is complete, with its body, in both. -/
example : (Pieces.feed HTTPMessageSequence.parse (.start [getRequest, getRequest] : HTTPResponseParser) chunkedPieces).toOption.map
    (fun q => (q.completeMessages.map (·.body), q.buffer)) =
      some ([ascii "10;x\r\n0123456789abcdef\r\n2\r\n\r\n\r\n0\r\nAge: 0\r\n\r\n"], ascii "HTTP/1.1 304 ") := by
  decide +kernel

end AbcMahimahi.Http
