/-
What a proxy forwards and the next proxy reads. A header value of spaces alone, or an empty one, is
kept as it is and written after one more space; every other request reads back as it was, and only
such a value keeps one from doing so.
-/
import AbcMahimahi.Http.RoundTrip

namespace AbcMahimahi.Http

open Bytes

/-! ## Header lines -/

namespace HTTPHeader

/-- The value is empty or all spaces. -/
def Blank (h : HTTPHeader) : Prop := ∀ b ∈ h.value, b = 32

instance (h : HTTPHeader) : Decidable h.Blank := inferInstanceAs (Decidable (∀ b ∈ h.value, b = 32))

/-- What a line of the headers is read as. -/
structure Parsed (h : HTTPHeader) : Prop where
  keyNoColon : 58 ∉ h.key
  keyNoCrlf : find crlf h.key = none
  valueNoCrlf : find crlf h.value = none
  trimmed : h.Blank ∨ h.value ≠ [] ∧ h.value.head? ≠ some 32

/-- What the line of a header is read as. -/
def reread (h : HTTPHeader) : HTTPHeader := if h.Blank then ⟨h.key, 32 :: h.value⟩ else h

theorem parse_parsed {line : Bytes} {h : HTTPHeader} (hline : find crlf line = none) (hparse : parse line = .ok h) :
    h.Parsed := by
  unfold parse at hparse
  split at hparse
  · cases hparse
  · rename_i colon hcolon
    cases hparse
    obtain ⟨post, hpost⟩ := find_split hcolon
    have hvalue : line.drop (colon + 1) = post := by
      conv_lhs => rw [hpost]
      rw [← List.drop_drop, List.drop_left' (List.length_take_of_le (find_le_length hcolon))]
      rfl
    have hkey : find crlf (line.take colon) = none := find_crlf_left (hpost ▸ hline)
    have hpostLine : find crlf post = none := find_crlf_right (a := line.take colon ++ ascii ":") (by
      rw [List.append_assoc, ← hpost]
      exact hline)
    refine ⟨not_mem_take hcolon, hkey, ?_, ?_⟩
    · dsimp only
      rw [hvalue]
      exact find_crlf_right (a := post.take _) (by rw [List.take_append_drop]; exact hpostLine)
    · unfold Blank
      dsimp only
      rw [hvalue]
      cases hfirst : findFirstNotOf 32 post with
      | none => exact Or.inl (findFirstNotOf_none.1 hfirst)
      | some i =>
        obtain ⟨b, bs, hb, hdrop⟩ := findFirstNotOf_some hfirst
        right
        rw [Option.getD_some, hdrop]
        exact ⟨List.cons_ne_nil b bs, by simpa using hb⟩

namespace Parsed

variable {h : HTTPHeader}

theorem wellFormed (hparsed : h.Parsed) (hfull : ¬ h.Blank) : h.WellFormed := by
  rcases hparsed.trimmed with hblank | ⟨hne, hhead⟩
  · exact absurd hblank hfull
  · exact ⟨hparsed.keyNoColon, hparsed.keyNoCrlf, hne, hhead, hparsed.valueNoCrlf⟩

theorem readsBack (hparsed : h.Parsed) : h.ReadsBack h.reread := by
  unfold reread
  split
  case isFalse hfull => exact (hparsed.wellFormed hfull).readsBack
  rename_i hblank
  have hstr : h.str = h.key ++ 58 :: (32 :: h.value) := by
    unfold HTTPHeader.str
    rw [List.append_assoc]
    rfl
  have hspace : find crlf (32 :: h.value) = none :=
    find_crlf_join (a := []) (by decide) (by decide) hparsed.valueNoCrlf rfl
  have hskip : findFirstNotOf 32 (32 :: h.value) = none := findFirstNotOf_none.2 (by
    intro b hb
    rcases List.mem_cons.1 hb with rfl | hb
    · rfl
    · exact hblank b hb)
  have hdrop : (h.key ++ 58 :: (32 :: h.value)).drop (h.key.length + 1) = 32 :: h.value := by
    rw [← List.drop_drop, List.drop_left]
    rfl
  constructor
  · rw [hstr]
    exact find_crlf_join (by decide) (by decide) hspace hparsed.keyNoCrlf
  · unfold HTTPHeader.parse
    rw [hstr, show ascii ":" = [58] from rfl, find_byte hparsed.keyNoColon]
    dsimp only
    rw [hdrop, hskip, List.take_left]
    rfl

end Parsed

theorem key_reread (h : HTTPHeader) : h.reread.key = h.key := by
  unfold reread
  split <;> rfl

theorem reread_eq_self {h : HTTPHeader} : h.reread = h ↔ ¬ h.Blank := by
  unfold reread
  split
  · rename_i hblank
    refine iff_of_false (fun heq => ?_) (not_not.2 hblank)
    have hlength := congrArg (fun h' : HTTPHeader => h'.value.length) heq
    rw [List.length_cons] at hlength
    omega
  · rename_i hfull
    exact iff_of_true rfl hfull

end HTTPHeader

/-! ## What a parser has put together -/

namespace HTTPRequest

/-- The lines read so far. -/
structure Lines (m : HTTPRequest) : Prop where
  lineNoCrlf : find crlf m.firstLine = none
  headers : ∀ h ∈ m.headers, h.Parsed

/-- The request when its headers are done. -/
def bare (m : HTTPRequest) : HTTPRequest := ⟨(false, 2 ^ 64 - 1), m.firstLine, m.headers, [], .bodyPending, {}⟩

/-- The lines say how long the body will be. -/
structure Sized (m : HTTPRequest) : Prop extends Lines m where
  known : m.expected.1 = true
  calculate : m.bare.calculateExpectedBodySize = .ok { m.bare with expected := m.expected }
  short : m.body.length ≤ m.expected.2

structure Whole (m : HTTPRequest) : Prop extends Sized m where
  complete : m.state = .complete
  full : m.body.length = m.expected.2

/-- What a parser knows of the request in progress. -/
def Faithful (m : HTTPRequest) : Prop :=
  match m.state with
  | .firstLinePending => m = .fresh
  | .headersPending => m.Lines ∧ m.expected = (false, 2 ^ 64 - 1) ∧ m.body = []
  | .bodyPending => m.Sized
  | .complete => m.Whole

theorem faithful_fresh {m : HTTPRequest} (hstate : m.state = .firstLinePending) : m.Faithful ↔ m = .fresh := by
  unfold Faithful
  rw [hstate]

theorem faithful_lines {m : HTTPRequest} (hstate : m.state = .headersPending) :
    m.Faithful ↔ m.Lines ∧ m.expected = (false, 2 ^ 64 - 1) ∧ m.body = [] := by
  unfold Faithful
  rw [hstate]

theorem faithful_sized {m : HTTPRequest} (hstate : m.state = .bodyPending) : m.Faithful ↔ m.Sized := by
  unfold Faithful
  rw [hstate]

theorem faithful_whole {m : HTTPRequest} (hstate : m.state = .complete) : m.Faithful ↔ m.Whole := by
  unfold Faithful
  rw [hstate]

/-- The end of the stream finds no request half read. -/
theorem eof_ok {m m' : HTTPRequest} (h : m.eof = .ok m') : m' = m := by
  unfold HTTPMessage.eof at h
  split at h
  · cases h; rfl
  · cases h
  · cases h
  · cases h

theorem Sized.of_calculate {m m' : HTTPRequest} (hlines : m.Lines) (hexpected : m.expected = (false, 2 ^ 64 - 1))
    (hbody : m.body = []) (h : calculateExpectedBodySize { m with state := .bodyPending } = .ok m') :
    m'.Sized ∧ m'.state = .bodyPending := by
  have hbare : { m with state := .bodyPending } = m.bare := by
    unfold bare
    rw [← hexpected, ← hbody]
  rw [hbare] at h
  obtain ⟨-, value, rfl⟩ := calculateExpectedBodySize_ok h
  exact ⟨⟨⟨hlines.lineNoCrlf, hlines.headers⟩, rfl, h, Nat.zero_le _⟩, rfl⟩

end HTTPRequest

namespace HTTPMessageSequence

/-- What a parser of requests knows. -/
structure Faithful (q : HTTPRequestParser) : Prop where
  whole : ∀ m ∈ q.completeMessages, HTTPRequest.Whole m
  inProgress : HTTPRequest.Faithful q.messageInProgress

theorem Faithful.firstLine {q q' : HTTPRequestParser} {go : Bool} (h : q.Faithful) (hstate : q.messageInProgress.state = .firstLinePending)
    (hstep : q.stepFirstLine = .ok (go, q')) : q'.Faithful := by
  have hfresh := (HTTPRequest.faithful_fresh hstate).1 h.inProgress
  cases hfind : find crlf q.buffer with
  | none =>
    rw [stepFirstLine_none hfind] at hstep
    cases hstep
    exact h
  | some it =>
    rw [stepFirstLine_some hfind, hfresh] at hstep
    cases hstep
    obtain ⟨line, rest, hbuffer, hline, rfl⟩ := find_crlf_split hfind
    refine ⟨h.whole, ⟨?_, by rintro _ ⟨⟩⟩, rfl, rfl⟩
    dsimp only
    rw [take_line hbuffer]
    exact hline

theorem Faithful.header {q q' : HTTPRequestParser} {go : Bool} (h : q.Faithful) (hstate : q.messageInProgress.state = .headersPending)
    (hstep : q.stepHeaders = .ok (go, q')) : q'.Faithful := by
  obtain ⟨hlines, hexpected, hbody⟩ := (HTTPRequest.faithful_lines hstate).1 h.inProgress
  cases hfind : find crlf q.buffer with
  | none =>
    rw [stepHeaders_none hfind] at hstep
    cases hstep
    exact h
  | some it =>
    rw [stepHeaders_some hfind] at hstep
    obtain ⟨line, rest, hbuffer, hline, rfl⟩ := find_crlf_split hfind
    rw [take_line hbuffer] at hstep
    obtain ⟨m, hm, hstep⟩ := Run.bind_ok hstep
    cases hstep
    refine ⟨h.whole, ?_⟩
    unfold headerLine at hm
    split at hm
    · -- the empty line
      obtain ⟨_, -, hm⟩ := Run.bind_ok hm
      obtain ⟨hsized, hpending⟩ := HTTPRequest.Sized.of_calculate hlines hexpected hbody hm
      exact (HTTPRequest.faithful_sized hpending).2 hsized
    · obtain ⟨_, -, hm⟩ := Run.bind_ok hm
      obtain ⟨header, hparse, hm⟩ := Run.bind_ok hm
      cases hm
      refine (HTTPRequest.faithful_lines (by exact hstate)).2 ⟨⟨hlines.lineNoCrlf, fun h' hmem => ?_⟩, hexpected, hbody⟩
      rcases List.mem_append.1 hmem with hmem | hmem
      · exact hlines.headers h' hmem
      · obtain rfl := List.mem_singleton.1 hmem
        exact HTTPHeader.parse_parsed hline hparse

theorem Faithful.body {q q' : HTTPRequestParser} {go : Bool} (h : q.Faithful) (hstate : q.messageInProgress.state = .bodyPending)
    (hstep : q.stepBody = .ok (go, q')) : q'.Faithful := by
  have hsized := (HTTPRequest.faithful_sized hstate).1 h.inProgress
  obtain ⟨n, m, hread, -, -, -, rfl⟩ := stepBody_ok hstep
  rw [HTTPMessage.readInBody_known hstate hsized.known hsized.short] at hread
  cases hread
  refine ⟨h.whole, ?_⟩
  dsimp only
  generalize hbody : q.messageInProgress.body ++ _ = body
  by_cases hfull : body.length = q.messageInProgress.expected.2
  · rw [if_pos hfull]
    exact (HTTPRequest.faithful_whole rfl).2
      ⟨⟨⟨hsized.lineNoCrlf, hsized.headers⟩, hsized.known, hsized.calculate, hfull.le⟩, rfl, hfull⟩
  · have hshort : body.length ≤ q.messageInProgress.expected.2 := by
      have := hsized.short
      rw [← hbody, List.length_append, List.length_take]
      omega
    rw [if_neg hfull]
    exact (HTTPRequest.faithful_sized (by exact hstate)).2
      ⟨⟨hsized.lineNoCrlf, hsized.headers⟩, hsized.known, hsized.calculate, hshort⟩

theorem Faithful.step {q q' : HTTPRequestParser} {go : Bool} (h : q.Faithful) (hstep : q.parsingStep = .ok (go, q')) : q'.Faithful := by
  cases hstate : q.messageInProgress.state with
  | firstLinePending => exact h.firstLine hstate (parsingStep_firstLine hstate ▸ hstep)
  | headersPending => exact h.header hstate (parsingStep_headers hstate ▸ hstep)
  | bodyPending => exact h.body hstate (parsingStep_body hstate ▸ hstep)
  | complete =>
    have hwhole := (HTTPRequest.faithful_whole hstate).1 h.inProgress
    rw [parsingStep_complete hstate] at hstep
    cases hstep
    refine ⟨fun m hm => ?_, rfl⟩
    rcases List.mem_append.1 hm with hm | hm
    · exact h.whole m hm
    · obtain rfl := List.mem_singleton.1 hm
      exact hwhole

theorem Faithful.drain {q q' : HTTPRequestParser} (h : q.Faithful) (hdrain : q.drain = .ok q') : q'.Faithful := by
  have hsound : ∀ q' : HTTPRequestParser, q.drain = .ok q' → q'.Faithful := by
    refine Loop.whole_inv (Q := fun r => ∀ q', r = .ok q' → Faithful q') turn_lowers ?_ ?_ ?_ h
    · intro q q' hq hturn
      obtain ⟨⟨go, q₁⟩, hstep, hgo⟩ := Run.map_eq_ok hturn
      have := hq.step hstep
      cases go with
      | true => cases hgo; exact this
      | false => cases hgo
    · intro q r hq hturn q' heq
      cases heq
      obtain ⟨⟨go, q₁⟩, hstep, hgo⟩ := Run.map_eq_ok hturn
      have := hq.step hstep
      cases go with
      | true => cases hgo
      | false => cases hgo; exact this
    · intro q e _ _ q' heq
      cases heq
  exact hsound q' hdrain

theorem Faithful.parse {q q' : HTTPRequestParser} {x : Bytes} (h : q.Faithful) (hparse : q.parse x = .ok q') : q'.Faithful := by
  obtain ⟨m, hm, hdrain⟩ := Run.bind_ok hparse
  have hsame : m = q.messageInProgress := by
    unfold notice at hm
    split at hm
    · exact HTTPRequest.eof_ok hm
    · cases hm; rfl
  subst hsame
  exact Faithful.drain (q := { q with buffer := q.buffer ++ x }) ⟨h.whole, h.inProgress⟩ hdrain

end HTTPMessageSequence

/-! ## Reading the text again -/

namespace HTTPRequest

/-- The size of the body is that of a request whose headers are read again. -/
theorem calculate_reread {m m' : HTTPRequest} (h : m.calculateExpectedBodySize = .ok m') :
    calculateExpectedBodySize { m with headers := m.headers.map HTTPHeader.reread } =
      .ok { m' with headers := m.headers.map HTTPHeader.reread } := by
  obtain ⟨hstate, value, rfl⟩ := calculateExpectedBodySize_ok h
  have hkey : ∀ name, ((fun header : HTTPHeader => equivalentStrings header.key name) ∘ HTTPHeader.reread) =
      fun header => equivalentStrings header.key name := by
    intro name
    funext header
    rw [Function.comp_apply, HTTPHeader.key_reread]
  have hset : ∀ {v : Nat}, m.setExpectedBodySize true v = .ok { m with expected := (true, value) } →
      HTTPMessage.setExpectedBodySize { m with headers := m.headers.map HTTPHeader.reread } true v =
        .ok { m with expected := (true, value), headers := m.headers.map HTTPHeader.reread } := by
    intro v hv
    unfold HTTPMessage.setExpectedBodySize at hv ⊢
    rw [check_of (by simpa using hstate)] at hv ⊢
    cases hv
    rfl
  unfold calculateExpectedBodySize at h ⊢
  rw [check_of (by simpa using hstate), Run.ok_bind] at h ⊢
  dsimp only
  split at h
  · rename_i hnone
    rw [if_pos hnone]
    exact hset h
  rename_i hnone
  rw [if_neg hnone]
  split at h
  case isFalse => cases h
  rename_i hpost
  rw [if_pos hpost]
  have hhas : HTTPMessage.hasHeader { m with headers := m.headers.map HTTPHeader.reread } (ascii "Content-Length") =
      m.hasHeader (ascii "Content-Length") := by
    unfold HTTPMessage.hasHeader
    rw [List.any_map, hkey]
  rw [hhas]
  split at h
  case isTrue => cases h
  rename_i hsome
  rw [if_neg hsome]
  obtain ⟨length, hlength, h⟩ := Run.bind_ok h
  obtain ⟨size, hsize, h⟩ := Run.bind_ok h
  have hvalue : HTTPMessage.getHeaderValue { m with headers := m.headers.map HTTPHeader.reread } (ascii "Content-Length") =
      .ok length := by
    unfold HTTPMessage.getHeaderValue at hlength ⊢
    rw [List.find?_map, hkey]
    split at hlength
    case h_2 => cases hlength
    rename_i header hfound
    cases hlength
    -- a number is not blank
    have hfull : ¬ header.Blank := by
      intro hblank
      obtain ⟨b, hb, hne⟩ := (myatoi_ok_iff.1 hsize).1.not_blank
      exact hne (hblank b hb)
    rw [hfound, Option.map_some, HTTPHeader.reread_eq_self.2 hfull]
    rfl
  rw [hvalue, Run.ok_bind, hsize, Run.ok_bind]
  exact hset h

/-- The text of a request that a parser has completed. -/
theorem Whole.readsBack {m : HTTPRequest} (h : m.Whole) : m.ReadsBack (m.headers.map HTTPHeader.reread) where
  lineNoCrlf := h.lineNoCrlf
  lines := List.forall₂_map_right_iff.2 (List.forall₂_same.2 fun header hh => (h.headers header hh).readsBack)
  calculate := by
    have hexpected : m.expected = (true, m.body.length) := Prod.ext h.known h.full.symm
    have hcalculate := calculate_reread h.calculate
    rw [hexpected] at hcalculate
    exact hcalculate

/-- The text of the request is one message for a fresh parser, in any pieces: with the same lines and
body, and with the same text. -/
def Reparses (m : HTTPRequest) : Prop :=
  ∃ text, m.str = .ok text ∧ ∀ pieces : List Bytes, (∀ x ∈ pieces, x ≠ []) → pieces.flatten = text →
    ∃ q : HTTPRequestParser, Pieces.feed HTTPMessageSequence.parse (.start ()) pieces = .ok q ∧
      ∃ m', q.completeMessages = [m'] ∧ content m' = m.content ∧ HTTPMessage.str m' = .ok text

end HTTPRequest

theorem feed_reread {m : HTTPRequest} (h : m.Whole) {pieces : List Bytes} (hne : ∀ x ∈ pieces, x ≠ [])
    (hflat : pieces.flatten = m.serialized) :
    Pieces.feed HTTPMessageSequence.parse (.start () : HTTPRequestParser) pieces =
      .ok ⟨[], [m.reread (m.headers.map HTTPHeader.reread)], .fresh, ()⟩ := by
  have hdrain := h.readsBack.drain_serialized [] []
  rw [List.append_nil, ← hflat] at hdrain
  refine feed_text hne (hdrain.trans ?_)
  exact HTTPMessageSequence.drain_stop (q := ⟨[], [_], .fresh, ()⟩) rfl

theorem whole_of_feed {pieces : List Bytes} {q : HTTPRequestParser} {m : HTTPRequest}
    (hfeed : Pieces.feed HTTPMessageSequence.parse (.start ()) pieces = .ok q) (hm : m ∈ q.completeMessages) : m.Whole :=
  (Pieces.feed_keep (I := HTTPMessageSequence.Faithful) (fun _ _ _ h hparse => h.parse hparse)
    ⟨fun _ h => absurd h List.not_mem_nil, (HTTPRequest.faithful_fresh rfl).2 rfl⟩ hfeed).whole m hm

namespace HTTPRequest.Whole

variable {m : HTTPRequest}

/-- A message that reads back has the headers that its text is read as. -/
theorem headers_of_reparses (h : m.Whole) (hback : m.Reparses) : m.headers.map HTTPHeader.reread = m.headers := by
  obtain ⟨text, htext, hback⟩ := hback
  rw [str_of_complete h.complete] at htext
  cases htext
  have hne : ∀ x ∈ [m.serialized], x ≠ [] := by
    intro x hx
    rw [List.mem_singleton.1 hx]
    simp [HTTPMessage.serialized, crlf]
  obtain ⟨q, hq, m', hm', hcontent, -⟩ := hback [m.serialized] hne (by simp)
  rw [feed_reread h hne (by simp)] at hq
  cases hq
  cases hm'
  exact congrArg (fun c => c.2.1) hcontent

theorem reparses_of_headers (h : m.Whole) (hheaders : m.headers.map HTTPHeader.reread = m.headers) : m.Reparses := by
  refine ⟨m.serialized, str_of_complete h.complete, fun pieces hne hflat => ?_⟩
  refine ⟨_, feed_reread h hne hflat, _, rfl, ?_, ?_⟩
  · rw [hheaders]
    rfl
  · rw [hheaders]
    exact str_of_complete rfl

end HTTPRequest.Whole

/-- A request that a parser completes is read back as it was, wherever its text is cut, unless it has
a header whose value is empty or all spaces. -/
theorem reparses_iff {pieces : List Bytes} {q : HTTPRequestParser} {m : HTTPRequest}
    (hfeed : Pieces.feed HTTPMessageSequence.parse (.start ()) pieces = .ok q) (hm : m ∈ q.completeMessages) :
    m.Reparses ↔ ∀ h ∈ m.headers, ∃ b ∈ h.value, b ≠ 32 := by
  have hwhole := whole_of_feed hfeed hm
  have hfull : ∀ h : HTTPHeader, (∃ b ∈ h.value, b ≠ 32) ↔ h.reread = h := by
    intro h
    rw [HTTPHeader.reread_eq_self]
    unfold HTTPHeader.Blank
    push Not
    rfl
  simp only [hfull]
  constructor
  · intro hback h hh
    have hheaders := hwhole.headers_of_reparses hback
    rw [← List.map_id m.headers, List.map_map] at hheaders
    exact List.map_inj_left.1 hheaders h hh
  · intro hheaders
    refine hwhole.reparses_of_headers ?_
    rw [List.map_congr_left hheaders]
    exact List.map_id m.headers

theorem reparses_small :
    HTTPRequest.Reparses ⟨(true, 0), ascii "GET / HTTP/1.1", [⟨ascii "Host", ascii "a : b "⟩], [], .complete, {}⟩ := by
  have hfeed : Pieces.feed HTTPMessageSequence.parse (.start () : HTTPRequestParser)
      [ascii "GET / HTTP/1.1\r\nHost:", ascii "   a : b \r\n\r\n"] =
      .ok ⟨[], [⟨(true, 0), ascii "GET / HTTP/1.1", [⟨ascii "Host", ascii "a : b "⟩], [], .complete, {}⟩], .fresh, ()⟩ := by
    decide
  exact (reparses_iff hfeed (List.mem_singleton.2 rfl)).2 (by decide)

/-- A header without a value gets a space for one. -/
theorem empty_value_grows : ¬ ∀ (pieces : List Bytes) (q : HTTPRequestParser) (m : HTTPRequest),
    Pieces.feed HTTPMessageSequence.parse (.start ()) pieces = .ok q → m ∈ q.completeMessages → m.Reparses := by
  intro hall
  have hfeed : Pieces.feed HTTPMessageSequence.parse (.start () : HTTPRequestParser) [ascii "GET / HTTP/1.1\r\nAccept:\r\n\r\n"] =
      .ok ⟨[], [⟨(true, 0), ascii "GET / HTTP/1.1", [⟨ascii "Accept", []⟩], [], .complete, {}⟩], .fresh, ()⟩ := by
    decide
  have hback := hall _ _ _ hfeed (List.mem_singleton.2 rfl)
  have hheaders := (whole_of_feed hfeed (List.mem_singleton.2 rfl)).headers_of_reparses hback
  exact absurd hheaders (by decide +kernel)

end AbcMahimahi.Http
