/-
The complete messages that wait in a parser. Taking one from the front changes nothing of what is parsed
later, so a parser whose messages are taken now and then is one that keeps them all, without those in
front; and the response parser gives its responses the requests in the order in which they arrived.
-/
import AbcMahimahi.Http.Pairing

namespace AbcMahimahi.Http

open Bytes

namespace HTTPMessageSequence

variable {S D : Type}

/-- The parser, had it kept the messages that were taken from its front. -/
def behind (taken : List (HTTPMessage S)) (q : HTTPMessageSequence S D) : HTTPMessageSequence S D :=
  { q with completeMessages := taken ++ q.completeMessages }

/-- The front message is taken. -/
theorem behind_pop {q : HTTPMessageSequence S D} {m : HTTPMessage S} (h : q.front = some m) (taken : List (HTTPMessage S)) :
    behind (taken ++ [m]) q.pop = behind taken q := by
  obtain ⟨rest, hrest⟩ : ∃ rest, q.completeMessages = m :: rest := by
    unfold front at h
    cases hq : q.completeMessages with
    | nil => rw [hq] at h; cases h
    | cons x rest => rw [hq] at h; cases h; exact ⟨rest, rfl⟩
  unfold behind pop
  rw [hrest, List.tail_cons, List.append_assoc, List.singleton_append]

theorem exists_front {q : HTTPMessageSequence S D} (h : q.empty = false) : ∃ m, q.front = some m := by
  unfold empty at h
  cases hq : q.completeMessages with
  | nil => rw [hq] at h; cases h
  | cons m rest => exact ⟨m, by unfold front; rw [hq]; rfl⟩

theorem front_mem {q : HTTPMessageSequence S D} {m : HTTPMessage S} (h : q.front = some m) : m ∈ q.completeMessages :=
  List.mem_of_head? h

variable [MessageClass S] [ParserClass S D]

/-- A step does not look at the complete messages. -/
theorem parsingStep_behind (taken : List (HTTPMessage S)) {q q' : HTTPMessageSequence S D} {go : Bool}
    (h : q.parsingStep = .ok (go, q')) : (behind taken q).parsingStep = .ok (go, behind taken q') := by
  cases hstate : q.messageInProgress.state with
  | firstLinePending =>
    -- no step looks at the complete messages; only the last one adds to them
    rw [parsingStep_firstLine hstate] at h
    rw [parsingStep_firstLine (q := behind taken q) hstate]
    cases hfind : find crlf q.buffer with
    | none =>
      rw [stepFirstLine_none hfind] at h
      cases h
      exact stepFirstLine_none (q := behind taken q) hfind
    | some it =>
      rw [stepFirstLine_some hfind] at h
      rw [stepFirstLine_some (q := behind taken q) hfind]
      obtain ⟨⟨m, members⟩, hnew, h⟩ := Run.bind_ok h
      obtain ⟨m', hm, h⟩ := Run.bind_ok h
      cases h
      show (ParserClass.initializeNewMessage q.messageInProgress q.members >>= _) = _
      rw [hnew, Run.ok_bind]
      dsimp only
      rw [show (behind taken q).buffer = q.buffer from rfl, hm]
      rfl
  | headersPending =>
    rw [parsingStep_headers hstate] at h
    rw [parsingStep_headers (q := behind taken q) hstate]
    cases hfind : find crlf q.buffer with
    | none =>
      rw [stepHeaders_none hfind] at h
      cases h
      exact stepHeaders_none (q := behind taken q) hfind
    | some it =>
      rw [stepHeaders_some hfind] at h
      rw [stepHeaders_some (q := behind taken q) hfind]
      obtain ⟨m, hm, h⟩ := Run.bind_ok h
      cases h
      show (headerLine q.messageInProgress (q.buffer.take it) >>= _) = _
      rw [hm]
      rfl
  | bodyPending =>
    rw [parsingStep_body hstate] at h
    rw [parsingStep_body (q := behind taken q) hstate]
    obtain ⟨n, m, hread, hle, hall, rfl, rfl⟩ := stepBody_ok h
    unfold stepBody
    rw [show (behind taken q).messageInProgress.readInBody (behind taken q).buffer = .ok (n, m) from hread, Run.ok_bind]
    dsimp only
    rw [show (behind taken q).buffer = q.buffer from rfl, check_of (by simpa using hall), Run.ok_bind,
      InternalBuffer.popBytes_of_le hle]
    rfl
  | complete =>
    rw [parsingStep_complete hstate] at h
    cases h
    rw [parsingStep_complete (q := behind taken q) hstate]
    unfold stepComplete behind
    rw [List.append_assoc]

theorem drain_behind (taken : List (HTTPMessage S)) {q q' : HTTPMessageSequence S D} (h : q.drain = .ok q') :
    (behind taken q).drain = .ok (behind taken q') := by
  have hwhole : ∀ q', q.drain = .ok q' → (behind taken q).drain = .ok (behind taken q') := by
    refine Loop.whole_inv turn_lowers (I := fun s => (behind taken q).drain = (behind taken s).drain)
      (Q := fun r => ∀ q', r = .ok q' → (behind taken q).drain = .ok (behind taken q')) ?_ ?_ ?_ rfl
    · rintro s s' hs hturn
      obtain ⟨⟨go, s₁⟩, hstep, hgo⟩ := Run.map_eq_ok hturn
      cases go with
      | false => cases hgo
      | true => cases hgo; exact hs.trans (drain_go (parsingStep_behind taken hstep))
    · rintro s s' hs hturn q' hq'
      cases hq'
      obtain ⟨⟨go, s₁⟩, hstep, hgo⟩ := Run.map_eq_ok hturn
      cases go with
      | true => cases hgo
      | false => cases hgo; exact hs.trans (drain_stop (parsingStep_behind taken hstep))
    · rintro s e - - q' hq'
      cases hq'
  exact hwhole q' h

theorem parse_behind (taken : List (HTTPMessage S)) {q q' : HTTPMessageSequence S D} {buf : Bytes} (h : q.parse buf = .ok q') :
    (behind taken q).parse buf = .ok (behind taken q') := by
  obtain ⟨m, hnotice, h⟩ := Run.bind_ok h
  unfold parse
  rw [show (behind taken q).notice buf = .ok m from hnotice]
  exact drain_behind taken h

/-! ## Complete messages are complete -/

def Whole (q : HTTPMessageSequence S D) : Prop := ∀ m ∈ q.completeMessages, m.state = .complete

/-- The complete messages of a step are those before it, and the one in progress if that was complete. -/
theorem parsingStep_messages {q q' : HTTPMessageSequence S D} {go : Bool} (h : q.parsingStep = .ok (go, q')) :
    q'.completeMessages = q.completeMessages ∨
      q.messageInProgress.state = .complete ∧ q' = q.stepComplete := by
  cases hstate : q.messageInProgress.state with
  | firstLinePending =>
    rw [parsingStep_firstLine hstate] at h
    cases hfind : find crlf q.buffer with
    | none => rw [stepFirstLine_none hfind] at h; cases h; exact Or.inl rfl
    | some it =>
      rw [stepFirstLine_some hfind] at h
      obtain ⟨⟨m, members⟩, -, h⟩ := Run.bind_ok h
      obtain ⟨m', -, h⟩ := Run.bind_ok h
      cases h
      exact Or.inl rfl
  | headersPending =>
    rw [parsingStep_headers hstate] at h
    cases hfind : find crlf q.buffer with
    | none => rw [stepHeaders_none hfind] at h; cases h; exact Or.inl rfl
    | some it =>
      rw [stepHeaders_some hfind] at h
      obtain ⟨m, -, h⟩ := Run.bind_ok h
      cases h
      exact Or.inl rfl
  | bodyPending =>
    rw [parsingStep_body hstate] at h
    obtain ⟨n, m, -, -, -, -, rfl⟩ := stepBody_ok h
    exact Or.inl rfl
  | complete =>
    rw [parsingStep_complete hstate] at h
    cases h
    exact Or.inr ⟨rfl, rfl⟩

theorem whole_parse {q q' : HTTPMessageSequence S D} {buf : Bytes} (hq : q.Whole) (h : q.parse buf = .ok q') : q'.Whole := by
  obtain ⟨m, -, h⟩ := Run.bind_ok h
  have hfed : Whole { q with buffer := q.buffer ++ buf, messageInProgress := m } := hq
  refine drain_keeps (R := Whole) (fun q go q' hq hstep m hm => ?_) hfed h
  rcases parsingStep_messages hstep with heq | ⟨hstate, rfl⟩
  · exact hq m (heq ▸ hm)
  · rcases List.mem_append.1 hm with hm | hm
    · exact hq m hm
    · rw [List.mem_singleton.1 hm]
      exact hstate

/-- Messages are only added at the end. -/
theorem prefix_parse {q q' : HTTPMessageSequence S D} {buf : Bytes} (h : q.parse buf = .ok q') :
    q.completeMessages <+: q'.completeMessages := by
  obtain ⟨m, -, h⟩ := Run.bind_ok h
  have hfed : q.completeMessages <+: ({ q with buffer := q.buffer ++ buf, messageInProgress := m } : HTTPMessageSequence S D).completeMessages :=
    List.prefix_rfl
  refine drain_keeps (R := fun s => q.completeMessages <+: s.completeMessages) (fun s go s' hs hstep => ?_) hfed h
  rcases parsingStep_messages hstep with heq | ⟨-, rfl⟩
  · exact heq ▸ hs
  · exact hs.trans (List.prefix_append _ _)

theorem nonempty_parse {q q' : HTTPMessageSequence S D} {buf : Bytes} (h : q.parse buf = .ok q') (hq : q.empty = false) :
    q'.empty = false := by
  obtain ⟨rest, hrest⟩ := prefix_parse h
  unfold empty at hq ⊢
  rw [← hrest]
  cases hmessages : q.completeMessages with
  | nil => rw [hmessages] at hq; cases hq
  | cons m ms => rfl

/-! ## Which request a response gets -/

/-- The requests of the complete responses and of the one in progress, and then those that wait. -/
def asked (q : HTTPResponseParser) : List HTTPRequest :=
  q.completeMessages.map (·.members.request) ++
    (if q.messageInProgress.state = .firstLinePending then [] else [q.messageInProgress.members.request]) ++ q.members

theorem headerLine_request {m m' : HTTPResponse} {line : Bytes} (h : headerLine m line = .ok m') :
    m'.members.request = m.members.request := by
  unfold headerLine at h
  split at h
  · obtain ⟨_, -, h⟩ := Run.bind_ok h
    obtain ⟨-, ⟨value, rfl⟩ | ⟨p, -, rfl⟩⟩ := HTTPResponse.calculateExpectedBodySize_ok h
    · rfl
    · rfl
  · obtain ⟨_, -, h⟩ := Run.bind_ok h
    obtain ⟨header, -, h⟩ := Run.bind_ok h
    cases h
    rfl

theorem readInBody_request {m m' : HTTPResponse} {str : Bytes} {n : Nat} (h : m.readInBody str = .ok (n, m')) :
    m'.members.request = m.members.request := by
  obtain ⟨_, -, h⟩ := Run.bind_ok h
  obtain ⟨known, -, h⟩ := Run.bind_ok h
  split at h
  · obtain ⟨expected, -, h⟩ := Run.bind_ok h
    obtain ⟨_, -, h⟩ := Run.bind_ok h
    cases h
    rfl
  · obtain ⟨_, -, h⟩ := Run.bind_ok h
    split at h
    · cases h
    · obtain ⟨⟨amount, p⟩, -, h⟩ := Run.bind_ok h
      cases amount with
      | none => cases h; rfl
      | some k => cases h; rfl

theorem eof_request {m m' : HTTPResponse} (h : m.eof = .ok m') : m'.members.request = m.members.request := by
  unfold HTTPMessage.eof at h
  split at h
  · cases h; rfl
  · cases h
  · obtain ⟨ends, -, h⟩ := Run.bind_ok h
    cases h
    split <;> rfl
  · cases h

theorem asked_started {q : HTTPResponseParser} (h : q.messageInProgress.state ≠ .firstLinePending) :
    q.asked = q.completeMessages.map (·.members.request) ++ [q.messageInProgress.members.request] ++ q.members := by
  unfold asked
  rw [if_neg h]

theorem asked_pending {q : HTTPResponseParser} (h : q.messageInProgress.state = .firstLinePending) :
    q.asked = q.completeMessages.map (·.members.request) ++ q.members := by
  unfold asked
  rw [if_pos h, List.append_nil]

theorem parsingStep_asked {q q' : HTTPResponseParser} {go : Bool} (h : q.parsingStep = .ok (go, q')) : q'.asked = q.asked := by
  cases hstate : q.messageInProgress.state with
  | firstLinePending =>
    rw [parsingStep_firstLine hstate] at h
    cases hfind : find crlf q.buffer with
    | none => rw [stepFirstLine_none hfind] at h; cases h; rfl
    | some it =>
      rw [stepFirstLine_some hfind] at h
      obtain ⟨⟨m, members⟩, hnew, h⟩ := Run.bind_ok h
      obtain ⟨m', hm, h⟩ := Run.bind_ok h
      cases h
      -- the request goes from the queue to the message, and stands at the same place among all
      cases hmembers : q.members with
      | nil => rw [hmembers] at hnew; cases hnew
      | cons request rest =>
        rw [hmembers] at hnew
        obtain ⟨m₁, hset, hnew⟩ := Run.bind_ok hnew
        cases hnew
        obtain ⟨_, -, hset⟩ := Run.bind_ok hset
        cases hset
        obtain ⟨_, -, hm⟩ := Run.bind_ok hm
        cases hm
        rw [asked_pending hstate, asked_started HTTPMessageState.noConfusion, hmembers, List.append_assoc, List.singleton_append]
  | headersPending =>
    have hstarted : q.messageInProgress.state ≠ .firstLinePending := by rw [hstate]; decide
    rw [parsingStep_headers hstate] at h
    cases hfind : find crlf q.buffer with
    | none => rw [stepHeaders_none hfind] at h; cases h; rfl
    | some it =>
      rw [stepHeaders_some hfind] at h
      obtain ⟨m, hm, h⟩ := Run.bind_ok h
      cases h
      rw [asked_started hstarted, asked_started (headerLine_started hm)]
      dsimp only
      rw [headerLine_request hm]
  | bodyPending =>
    have hstarted : q.messageInProgress.state ≠ .firstLinePending := by rw [hstate]; decide
    rw [parsingStep_body hstate] at h
    obtain ⟨n, m, hread, -, -, -, rfl⟩ := stepBody_ok h
    rw [asked_started hstarted, asked_started (readInBody_started hread)]
    dsimp only
    rw [readInBody_request hread]
  | complete =>
    have hstarted : q.messageInProgress.state ≠ .firstLinePending := by rw [hstate]; decide
    rw [parsingStep_complete hstate] at h
    cases h
    rw [asked_started hstarted, asked_pending (q := q.stepComplete) rfl]
    unfold stepComplete
    rw [List.map_append, List.map_singleton]

theorem parse_asked {q q' : HTTPResponseParser} {buf : Bytes} (h : q.parse buf = .ok q') : q'.asked = q.asked := by
  obtain ⟨m, hnotice, h⟩ := Run.bind_ok h
  have hfed : asked { q with buffer := q.buffer ++ buf, messageInProgress := m } = q.asked := by
    unfold notice at hnotice
    split at hnotice
    · have hstate := eof_taken hnotice
      have hrequest := eof_request hnotice
      unfold asked
      simp only [hstate, hrequest]
    · cases hnotice
      rfl
  exact drain_keeps (R := fun s => s.asked = q.asked) (fun s go s' hs hstep => (parsingStep_asked hstep).trans hs) hfed h

end HTTPMessageSequence

namespace ProxyEvent

/-- However requests and bytes follow each other, the requests are given out in the order of their arrival. -/
theorem asked_run : ∀ {events : List ProxyEvent} {q q' : HTTPResponseParser}, events.foldlM step q = .ok q' →
    q'.asked = q.asked ++ requests events
  | [], q, q', h => by
    cases h
    exact (List.append_nil _).symm
  | .request r :: events, q, q', h => by
    have hrest : events.foldlM step (q.newRequestArrived r) = .ok q' := h
    have hasked : (q.newRequestArrived r).asked = q.asked ++ [r] := (List.append_assoc _ _ _).symm
    rw [asked_run hrest, hasked, List.append_assoc]
    rfl
  | .bytes x :: events, q, q', h => by
    obtain ⟨q₁, hx, hrest⟩ := Run.bind_ok (show (q.parse x >>= fun q₁ => events.foldlM step q₁) = .ok q' from h)
    rw [asked_run hrest, HTTPMessageSequence.parse_asked hx]
    rfl

end ProxyEvent

end AbcMahimahi.Http
