/-
The request parser as a type-state: whatever bytes and ends of stream it gets, until the first
exception no assertion fails, every loop of `parse` ends, the message in progress is never complete
between two calls, and every message it offers is.
-/
import AbcMahimahi.Http.Pieces
import AbcMahimahi.Http.Request

namespace AbcMahimahi.Http

open Bytes

/-! ## What a request may be in each state -/

namespace HTTPRequest

/-- No body before its time, and then a body of a known size that is not exceeded. -/
def Sound (m : HTTPRequest) : Prop :=
  match m.state with
  | .firstLinePending => m.body = []
  | .headersPending => m.body = []
  | .bodyPending => m.expected.1 = true ∧ m.body.length ≤ m.expected.2
  | .complete => True

theorem sound_headers {m : HTTPRequest} (hstate : m.state = .headersPending) (hbody : m.body = []) : m.Sound := by
  unfold Sound
  rw [hstate]
  exact hbody

theorem returns_setFirstLine {m : HTTPRequest} (hstate : m.state = .firstLinePending) (hbody : m.body = []) (line : Bytes) :
    Returns Sound (m.setFirstLine line) := by
  unfold HTTPMessage.setFirstLine
  rw [check_of (by simpa using hstate)]
  exact .ok (sound_headers rfl hbody)

theorem returns_addHeader {m : HTTPRequest} (hstate : m.state = .headersPending) (hbody : m.body = []) (line : Bytes) :
    Returns Sound (m.addHeader line) := by
  unfold HTTPMessage.addHeader HTTPHeader.parse
  rw [check_of (by simpa using hstate), Run.ok_bind]
  split
  · exact .error (.runtimeError _)
  · exact .ok (sound_headers hstate hbody)

theorem returns_getHeaderValue (m : HTTPRequest) (name : Bytes) : Returns (fun _ => True) (m.getHeaderValue name) := by
  unfold HTTPMessage.getHeaderValue
  split
  · exact .ok trivial
  · exact .error (.runtimeError _)

theorem returns_calculate {m : HTTPRequest} (hstate : m.state = .bodyPending) (hbody : m.body = []) :
    Returns Sound m.calculateExpectedBodySize := by
  have hset : ∀ value, Returns (fun _ => True) (m.setExpectedBodySize true value) := by
    intro value
    unfold HTTPMessage.setExpectedBodySize
    rw [check_of (by simpa using hstate)]
    exact .ok trivial
  have hreturns : Returns (fun _ => True) m.calculateExpectedBodySize := by
    unfold calculateExpectedBodySize
    rw [check_of (by simpa using hstate), Run.ok_bind]
    split
    · exact hset 0
    · split
      · split
        · exact .error (.runtimeError _)
        · apply (returns_getHeaderValue m _).bind
          intro value _
          apply (returns_myatoi value 10).bind
          intro size _
          exact hset _
      · exact .error (.runtimeError _)
  refine (hreturns.and_ok fun m' h => calculateExpectedBodySize_ok h).imp ?_
  rintro m' ⟨-, -, value, rfl⟩
  unfold Sound
  rw [hstate]
  exact ⟨rfl, by rw [hbody]; exact Nat.zero_le _⟩

end HTTPRequest

/-! ## The steps -/

namespace HTTPRequestParser

/-- The message in progress fits its state, and the complete messages are complete. -/
structure Sound (q : HTTPRequestParser) : Prop where
  inProgress : HTTPRequest.Sound q.messageInProgress
  complete : ∀ m ∈ q.completeMessages, m.state = .complete

/-- Between two calls the message in progress is not complete. -/
structure Idle (q : HTTPRequestParser) : Prop extends Sound q where
  pending : q.messageInProgress.state ≠ .complete

theorem idle_start : Idle (.start ()) := ⟨⟨rfl, fun _ h => absurd h List.not_mem_nil⟩, by decide⟩

variable {q : HTTPRequestParser}

/-- A parsing step goes on in a sound state, or stops in an idle one. -/
def StepSound (r : Bool × HTTPRequestParser) : Prop := if r.1 then Sound r.2 else Idle r.2

theorem returns_stepFirstLine (h : q.Sound) (hstate : q.messageInProgress.state = .firstLinePending) :
    Returns StepSound q.stepFirstLine := by
  have hbody : q.messageInProgress.body = [] := by
    have := h.inProgress
    unfold HTTPRequest.Sound at this
    rw [hstate] at this
    exact this
  cases hfind : find crlf q.buffer with
  | none =>
    rw [HTTPMessageSequence.stepFirstLine_none hfind]
    exact .ok ⟨h, by rw [hstate]; decide⟩
  | some it =>
    rw [HTTPMessageSequence.stepFirstLine_some hfind]
    apply (HTTPRequest.returns_setFirstLine hstate hbody _).bind
    intro m hm
    exact .ok ⟨hm, h.complete⟩

theorem returns_stepHeaders (h : q.Sound) (hstate : q.messageInProgress.state = .headersPending) :
    Returns StepSound q.stepHeaders := by
  have hbody : q.messageInProgress.body = [] := by
    have := h.inProgress
    unfold HTTPRequest.Sound at this
    rw [hstate] at this
    exact this
  have hline : ∀ line, Returns HTTPRequest.Sound (HTTPMessageSequence.headerLine q.messageInProgress line) := by
    intro line
    unfold HTTPMessageSequence.headerLine
    split
    · unfold HTTPMessage.doneWithHeaders
      rw [check_of (by simpa using hstate), Run.ok_bind]
      exact HTTPRequest.returns_calculate rfl hbody
    · exact HTTPRequest.returns_addHeader hstate hbody line
  cases hfind : find crlf q.buffer with
  | none =>
    rw [HTTPMessageSequence.stepHeaders_none hfind]
    exact .ok ⟨h, by rw [hstate]; decide⟩
  | some it =>
    rw [HTTPMessageSequence.stepHeaders_some hfind]
    apply (hline _).bind
    intro m hm
    exact .ok ⟨hm, h.complete⟩

theorem returns_stepBody (h : q.Sound) (hstate : q.messageInProgress.state = .bodyPending) :
    Returns StepSound q.stepBody := by
  -- a request knows the size of its body, so it reads no more than is missing
  obtain ⟨hknown, hle⟩ : q.messageInProgress.expected.1 = true ∧
      q.messageInProgress.body.length ≤ q.messageInProgress.expected.2 := by
    have := h.inProgress
    unfold HTTPRequest.Sound at this
    rw [hstate] at this
    exact this
  have hread := HTTPMessage.readInBody_known hstate hknown hle q.buffer
  generalize hn : min (q.messageInProgress.expected.2 - q.messageInProgress.body.length) q.buffer.length = n at hread
  have hlen : (q.messageInProgress.body ++ q.buffer.take n).length = q.messageInProgress.body.length + n := by
    rw [List.length_append, List.length_take]
    omega
  by_cases hdone : (q.messageInProgress.body ++ q.buffer.take n).length = q.messageInProgress.expected.2
  · rw [if_pos hdone] at hread
    unfold HTTPMessageSequence.stepBody
    rw [hread, Run.ok_bind]
    dsimp only
    rw [check_of (by simp), Run.ok_bind, InternalBuffer.popBytes_of_le (by omega)]
    exact .ok ⟨trivial, h.complete⟩
  · -- the body takes the whole buffer
    rw [if_neg hdone] at hread
    have hall : n = q.buffer.length := by omega
    subst hall
    have hstep := HTTPMessageSequence.step_body_pending hstate hread hstate
    rw [HTTPMessageSequence.parsingStep_body hstate] at hstep
    rw [hstep]
    refine .ok ⟨⟨?_, h.complete⟩, ?_⟩
    · unfold HTTPRequest.Sound
      dsimp only
      rw [hstate]
      exact ⟨hknown, by rw [hlen]; omega⟩
    · dsimp only
      rw [hstate]
      decide

theorem returns_parsingStep (h : q.Sound) : Returns StepSound q.parsingStep := by
  cases hstate : q.messageInProgress.state with
  | firstLinePending =>
    rw [HTTPMessageSequence.parsingStep_firstLine hstate]
    exact returns_stepFirstLine h hstate
  | headersPending =>
    rw [HTTPMessageSequence.parsingStep_headers hstate]
    exact returns_stepHeaders h hstate
  | bodyPending =>
    rw [HTTPMessageSequence.parsingStep_body hstate]
    exact returns_stepBody h hstate
  | complete =>
    rw [HTTPMessageSequence.parsingStep_complete hstate]
    refine .ok ⟨rfl, fun m hm => ?_⟩
    rcases List.mem_append.1 hm with hm | hm
    · exact h.complete m hm
    · rw [List.mem_singleton] at hm
      rw [hm]
      exact hstate

/-! ## Calls -/

theorem returns_turn (h : q.Sound) :
    Returns (fun r => Sum.elim Sound Idle r) (HTTPMessageSequence.turn q) := by
  apply (returns_parsingStep h).map
  rintro ⟨go, q'⟩ hstep
  unfold StepSound at hstep
  cases go with
  | true => exact hstep
  | false => exact hstep

/-- The loop of `parse` ends in a state between two calls, or throws. -/
theorem returns_drain (h : q.Sound) : Returns Idle q.drain := by
  refine Loop.whole_inv HTTPMessageSequence.turn_lowers (I := Sound) (Q := Returns Idle) ?_ ?_ ?_ h
  · intro q q' hq hturn
    have := returns_turn hq
    rw [hturn] at this
    cases this with
    | ok hq' => exact hq'
  · intro q q' hq hturn
    have := returns_turn hq
    rw [hturn] at this
    cases this with
    | ok hq' => exact .ok hq'
  · intro q e hq hturn
    have := returns_turn hq
    rw [hturn] at this
    cases this with
    | error he => exact .error he

/-- The end of the stream between two messages is no news; inside one it throws. -/
theorem returns_notice (h : q.Idle) (buf : Bytes) : Returns (fun m => m = q.messageInProgress) (q.notice buf) := by
  unfold HTTPMessageSequence.notice
  split
  · unfold HTTPMessage.eof
    split
    · exact .ok rfl
    · exact .error (.runtimeError _)
    · exact .error (.runtimeError _)
    · rename_i hstate
      exact absurd hstate h.pending
  · exact .ok rfl

theorem returns_parse (h : q.Idle) (buf : Bytes) : Returns Idle (q.parse buf) := by
  apply (returns_notice h buf).bind
  rintro m rfl
  exact returns_drain ⟨h.inProgress, h.complete⟩

/-- A call on a request parser. -/
inductive Call where
  /-- `parse( buf )`; an empty string is the end of the stream. -/
  | parse (buf : Bytes)
  /-- `front()`, and then `pop()`. -/
  | take

/-- A call with what `front()` offers in it. -/
def call (q : HTTPRequestParser) : Call → Except Fault (Option HTTPRequest × HTTPRequestParser)
  | .parse buf => (fun q' => (none, q')) <$> q.parse buf
  | .take => pure (q.front, q.pop)

theorem returns_call (h : q.Idle) (c : Call) :
    Returns (fun r => (∀ m ∈ r.1, m.state = .complete) ∧ Idle r.2) (call q c) := by
  cases c with
  | parse buf =>
    apply (returns_parse h buf).map
    intro q' hq'
    exact ⟨by simp, hq'⟩
  | take =>
    refine .ok ⟨fun m hm => h.complete m (List.mem_of_mem_head? hm), ⟨h.inProgress, ?_⟩, h.pending⟩
    intro m hm
    exact h.complete m (List.mem_of_mem_tail hm)

theorem returns_calls : ∀ {calls : List Call} {q : HTTPRequestParser}, q.Idle →
    Returns (fun r => (∀ offered ∈ r.1, ∀ m ∈ offered, m.state = .complete) ∧ Idle r.2) (Run.steps call q calls)
  | [], q, h => .ok ⟨by simp, h⟩
  | c :: calls, q, h => by
    apply (returns_call h c).bind
    rintro ⟨offered, q'⟩ ⟨hoffered, hq'⟩
    apply (returns_calls hq').bind
    rintro ⟨more, q''⟩ ⟨hmore, hq''⟩
    exact .ok ⟨List.forall_mem_cons.2 ⟨hoffered, hmore⟩, hq''⟩

/-- Whatever is parsed and taken in whatever order, a fresh request parser returns or throws: no
assertion fails and every loop ends. Between two calls the message in progress is not complete, and
every message that was offered or is to be offered is. -/
theorem request_parser_asserts (calls : List Call) :
    Returns (fun r => (∀ offered ∈ r.1, ∀ m ∈ offered, m.state = .complete) ∧
      r.2.messageInProgress.state ≠ .complete ∧ ∀ m ∈ r.2.front, m.state = .complete)
      (Run.steps call (.start ()) calls) := by
  apply (returns_calls idle_start).imp
  rintro r ⟨hoffered, hidle⟩
  exact ⟨hoffered, hidle.pending, fun m hm => hidle.complete m (List.mem_of_mem_head? hm)⟩

end HTTPRequestParser

end AbcMahimahi.Http
