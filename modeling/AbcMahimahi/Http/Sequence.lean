/-
A sequence of messages parsed from a stream: bytes are appended to a buffer, and parsing steps are
taken until one says that more bytes are needed. A complete message goes into a queue, and a new
one is started.
-/
import AbcMahimahi.Http.Message
import AbcMahimahi.Lib.Loop

namespace AbcMahimahi.Http

open Bytes

/-! ## The internal buffer -/

namespace InternalBuffer

def haveCompleteLine (buffer : Bytes) : Bool := (find crlf buffer).isSome

/-- `pop_bytes`: what is left. -/
def popBytes (buffer : Bytes) (num : Nat) : Except Fault Bytes := do
  check "buffer_.size() >= num" (num ≤ buffer.length)
  pure (buffer.drop num)

/-- `get_and_pop_line`: the line and what is left. -/
def getAndPopLine (buffer : Bytes) : Except Fault (Bytes × Bytes) :=
  match find crlf buffer with
  | none => throw (.assertion "first_line_ending != std::string::npos")
  | some firstLineEnding => do
    let rest ← popBytes buffer (firstLineEnding + crlf.length)
    pure (buffer.take firstLineEnding, rest)

end InternalBuffer

/-! ## The sequence -/

/-- `HTTPMessageSequence`, with the members that the derived parser adds. -/
structure HTTPMessageSequence (S D : Type) where
  buffer : Bytes := []
  completeMessages : List (HTTPMessage S) := []
  messageInProgress : HTTPMessage S
  members : D
  deriving DecidableEq

/-- The virtual function of a parser derived from `HTTPMessageSequence`. -/
class ParserClass (S : Type) (D : outParam Type) where
  initializeNewMessage : HTTPMessage S → D → Except Fault (HTTPMessage S × D)

namespace HTTPMessageSequence

variable {S D : Type}

/-- A parser before its first byte. -/
def start [MessageClass S] (members : D) : HTTPMessageSequence S D := { messageInProgress := .fresh, members := members }

def empty (q : HTTPMessageSequence S D) : Bool := q.completeMessages.isEmpty

def front (q : HTTPMessageSequence S D) : Option (HTTPMessage S) := q.completeMessages.head?

def pop (q : HTTPMessageSequence S D) : HTTPMessageSequence S D :=
  { q with completeMessages := q.completeMessages.tail }

variable [MessageClass S] [ParserClass S D]

/-- A parsing step in `FIRST_LINE_PENDING`. -/
def stepFirstLine (q : HTTPMessageSequence S D) : Except Fault (Bool × HTTPMessageSequence S D) :=
  if !InternalBuffer.haveCompleteLine q.buffer then pure (false, q)
  else do
    let (m, members) ← ParserClass.initializeNewMessage q.messageInProgress q.members
    let (line, rest) ← InternalBuffer.getAndPopLine q.buffer
    let m ← m.setFirstLine line
    pure (true, { q with buffer := rest, messageInProgress := m, members := members })

/-- A line in `HEADERS_PENDING`: an empty one ends the headers. -/
def headerLine (m : HTTPMessage S) (line : Bytes) : Except Fault (HTTPMessage S) :=
  if line.isEmpty then m.doneWithHeaders else m.addHeader line

/-- A parsing step in `HEADERS_PENDING`. -/
def stepHeaders (q : HTTPMessageSequence S D) : Except Fault (Bool × HTTPMessageSequence S D) :=
  if !InternalBuffer.haveCompleteLine q.buffer then pure (false, q)
  else do
    let (line, rest) ← InternalBuffer.getAndPopLine q.buffer
    let m ← headerLine q.messageInProgress line
    pure (true, { q with buffer := rest, messageInProgress := m })

/-- A parsing step in `BODY_PENDING`. -/
def stepBody (q : HTTPMessageSequence S D) : Except Fault (Bool × HTTPMessageSequence S D) := do
  let (bytesRead, m) ← q.messageInProgress.readInBody q.buffer
  check "bytes_read == buffer_.str().size() or message_in_progress_.state() == COMPLETE"
    (bytesRead = q.buffer.length || m.state = .complete)
  let rest ← InternalBuffer.popBytes q.buffer bytesRead
  pure (m.state = .complete, { q with buffer := rest, messageInProgress := m })

/-- A parsing step in `COMPLETE`. -/
def stepComplete (q : HTTPMessageSequence S D) : HTTPMessageSequence S D :=
  { q with completeMessages := q.completeMessages ++ [q.messageInProgress], messageInProgress := .fresh }

/-- `parsing_step`: whether to continue, and the new state. -/
def parsingStep (q : HTTPMessageSequence S D) : Except Fault (Bool × HTTPMessageSequence S D) :=
  match q.messageInProgress.state with
  | .firstLinePending => q.stepFirstLine
  | .headersPending => q.stepHeaders
  | .bodyPending => q.stepBody
  | .complete => pure (true, q.stepComplete)

def turn (q : HTTPMessageSequence S D) : Except Fault (HTTPMessageSequence S D ⊕ HTTPMessageSequence S D) :=
  (fun (go, q') => if go then .inl q' else .inr q') <$> q.parsingStep

/-- A line takes bytes, a body that ends without one completes its message, and a complete message
makes room for a new one. -/
def size (q : HTTPMessageSequence S D) : Nat :=
  4 * q.buffer.length +
    match q.messageInProgress.state with
    | .firstLinePending => 0
    | .headersPending => 3
    | .bodyPending => 2
    | .complete => 1

/-- `while ( parsing_step() ) {}`. -/
def drain (q : HTTPMessageSequence S D) : Except Fault (HTTPMessageSequence S D) :=
  Loop.whole .endless turn size q

/-- The message in progress hears of the end of the stream, which an empty string stands for. -/
def notice (q : HTTPMessageSequence S D) (buf : Bytes) : Except Fault (HTTPMessage S) :=
  if buf.isEmpty then q.messageInProgress.eof else pure q.messageInProgress

/-- `parse`. -/
def parse (q : HTTPMessageSequence S D) (buf : Bytes) : Except Fault (HTTPMessageSequence S D) := do
  let m ← q.notice buf
  drain { q with buffer := q.buffer ++ buf, messageInProgress := m }

end HTTPMessageSequence

/-! ## Lines -/

theorem InternalBuffer.popBytes_ok {buffer rest : Bytes} {num : Nat} (h : popBytes buffer num = .ok rest) :
    num ≤ buffer.length ∧ rest = buffer.drop num := by
  obtain ⟨_, hcheck, h⟩ := Run.bind_ok h
  cases h
  exact ⟨by simpa using check_ok hcheck, rfl⟩

theorem InternalBuffer.popBytes_of_le {buffer : Bytes} {num : Nat} (h : num ≤ buffer.length) :
    popBytes buffer num = .ok (buffer.drop num) := by
  unfold popBytes
  rw [check_of (decide_eq_true h)]
  rfl

/-- A complete line is popped with its CRLF. -/
theorem InternalBuffer.getAndPopLine_of_find {buffer : Bytes} {it : Nat} (h : find crlf buffer = some it) :
    getAndPopLine buffer = .ok (buffer.take it, buffer.drop (it + 2)) := by
  unfold getAndPopLine
  rw [h]
  dsimp only
  rw [popBytes_of_le (find_bound h)]
  rfl

namespace HTTPMessageSequence

variable {S D : Type}

/-! ## The steps -/

section

variable [ParserClass S D]

theorem stepFirstLine_none {q : HTTPMessageSequence S D} (h : find crlf q.buffer = none) :
    q.stepFirstLine = .ok (false, q) := by
  unfold stepFirstLine InternalBuffer.haveCompleteLine
  rw [h]; rfl

/-- The first line of a message. -/
theorem stepFirstLine_some {q : HTTPMessageSequence S D} {it : Nat} (h : find crlf q.buffer = some it) :
    q.stepFirstLine = (do
      let (m, members) ← ParserClass.initializeNewMessage q.messageInProgress q.members
      let m ← m.setFirstLine (q.buffer.take it)
      pure (true, { q with buffer := q.buffer.drop (it + 2), messageInProgress := m, members := members })) := by
  unfold stepFirstLine InternalBuffer.haveCompleteLine
  rw [InternalBuffer.getAndPopLine_of_find h, h]
  rfl

end

section

variable [MessageClass S]

theorem stepHeaders_none {q : HTTPMessageSequence S D} (h : find crlf q.buffer = none) :
    q.stepHeaders = .ok (false, q) := by
  unfold stepHeaders InternalBuffer.haveCompleteLine
  rw [h]; rfl

/-- A header line, or the empty line after the headers. -/
theorem stepHeaders_some {q : HTTPMessageSequence S D} {it : Nat} (h : find crlf q.buffer = some it) :
    q.stepHeaders = (do
      let m ← headerLine q.messageInProgress (q.buffer.take it)
      pure (true, { q with buffer := q.buffer.drop (it + 2), messageInProgress := m })) := by
  unfold stepHeaders InternalBuffer.haveCompleteLine
  rw [InternalBuffer.getAndPopLine_of_find h, h]
  rfl

theorem stepBody_ok {q q' : HTTPMessageSequence S D} {go : Bool} (h : q.stepBody = .ok (go, q')) :
    ∃ n m, q.messageInProgress.readInBody q.buffer = .ok (n, m) ∧ n ≤ q.buffer.length ∧
      (n = q.buffer.length ∨ m.state = .complete) ∧ go = decide (m.state = .complete) ∧
      q' = { q with buffer := q.buffer.drop n, messageInProgress := m } := by
  obtain ⟨⟨n, m⟩, hread, h⟩ := Run.bind_ok h
  obtain ⟨_, hcheck, h⟩ := Run.bind_ok h
  obtain ⟨rest, hpop, h⟩ := Run.bind_ok h
  obtain ⟨hle, rfl⟩ := InternalBuffer.popBytes_ok hpop
  cases h
  exact ⟨n, m, hread, hle, by simpa using check_ok hcheck, rfl, rfl⟩

end

variable [MessageClass S] [ParserClass S D]

/-- A step that goes on lowers the measure. -/
theorem turn_lowers : Loop.Lowers (turn (S := S) (D := D)) size := by
  intro q q' h
  obtain ⟨⟨go, q₁⟩, hstep, hgo⟩ := Run.map_eq_ok h
  dsimp only at hgo
  split at hgo
  case isFalse => cases hgo
  rename_i htrue
  cases hgo
  subst htrue
  unfold parsingStep at hstep
  split at hstep
  · rename_i hstate
    cases hfind : find crlf q.buffer with
    | none => rw [stepFirstLine_none hfind] at hstep; cases hstep
    | some it =>
      rw [stepFirstLine_some hfind] at hstep
      obtain ⟨⟨m, members⟩, -, hstep⟩ := Run.bind_ok hstep
      obtain ⟨m', -, hstep⟩ := Run.bind_ok hstep
      cases hstep
      have hbound := find_bound hfind
      rw [length_crlf] at hbound
      unfold size
      simp only [List.length_drop]
      split <;> omega
  · rename_i hstate
    cases hfind : find crlf q.buffer with
    | none => rw [stepHeaders_none hfind] at hstep; cases hstep
    | some it =>
      rw [stepHeaders_some hfind] at hstep
      obtain ⟨m', -, hstep⟩ := Run.bind_ok hstep
      cases hstep
      have hbound := find_bound hfind
      rw [length_crlf] at hbound
      unfold size
      simp only [List.length_drop]
      split <;> omega
  · rename_i hstate
    obtain ⟨n, m, -, hle, -, hdone, rfl⟩ := stepBody_ok hstep
    have hdone : m.state = .complete := by simpa using hdone.symm
    unfold size
    simp only [hstate, hdone, List.length_drop]
    omega
  · rename_i hstate
    cases hstep
    unfold size stepComplete
    simp only [hstate, HTTPMessage.fresh]
    omega

/-! ## The loop -/

theorem drain_go {q q' : HTTPMessageSequence S D} (h : q.parsingStep = .ok (true, q')) : q.drain = q'.drain := by
  have hturn : turn q = .ok (.inl q') := by unfold turn; rw [h]; rfl
  exact Loop.whole_inl turn_lowers hturn

theorem drain_stop {q q' : HTTPMessageSequence S D} (h : q.parsingStep = .ok (false, q')) : q.drain = .ok q' := by
  have hturn : turn q = .ok (.inr q') := by unfold turn; rw [h]; rfl
  exact Loop.whole_inr hturn

theorem drain_error {q : HTTPMessageSequence S D} {e : Fault} (h : q.parsingStep = .error e) : q.drain = .error e := by
  have hturn : turn q = .error e := by unfold turn; rw [h]; rfl
  exact Loop.whole_error hturn

/-- What every step keeps, the loop keeps. -/
theorem drain_keeps {R : HTTPMessageSequence S D → Prop}
    (hstep : ∀ q go q', R q → q.parsingStep = .ok (go, q') → R q') {q q' : HTTPMessageSequence S D} (hq : R q)
    (h : q.drain = .ok q') : R q' := by
  have hwhole : ∀ q', q.drain = .ok q' → R q' := by
    refine Loop.whole_inv turn_lowers (I := R) (Q := fun r => ∀ q', r = .ok q' → R q') ?_ ?_ ?_ hq
    · rintro s s' hs hturn
      obtain ⟨⟨go, s₁⟩, hstep', hgo⟩ := Run.map_eq_ok hturn
      cases go with
      | false => cases hgo
      | true => cases hgo; exact hstep s true _ hs hstep'
    · rintro s s' hs hturn q' hq'
      cases hq'
      obtain ⟨⟨go, s₁⟩, hstep', hgo⟩ := Run.map_eq_ok hturn
      cases go with
      | true => cases hgo
      | false => cases hgo; exact hstep s false _ hs hstep'
    · rintro s e - - q' hq'
      cases hq'
  exact hwhole q' h

/-! ## The loop in each state -/

omit [MessageClass S] [ParserClass S D] in
theorem take_line {q : HTTPMessageSequence S D} {line rest : Bytes} (h : q.buffer = line ++ crlf ++ rest) :
    q.buffer.take line.length = line := by
  rw [h, List.append_assoc, List.take_left]

omit [MessageClass S] [ParserClass S D] in
theorem drop_line {q : HTTPMessageSequence S D} {line rest : Bytes} (h : q.buffer = line ++ crlf ++ rest) :
    q.buffer.drop (line.length + 2) = rest := by
  rw [h, ← List.drop_drop, List.append_assoc, List.drop_left]
  rfl

theorem parsingStep_firstLine {q : HTTPMessageSequence S D} (h : q.messageInProgress.state = .firstLinePending) :
    q.parsingStep = q.stepFirstLine := by unfold parsingStep; rw [h]

theorem parsingStep_headers {q : HTTPMessageSequence S D} (h : q.messageInProgress.state = .headersPending) :
    q.parsingStep = q.stepHeaders := by unfold parsingStep; rw [h]

theorem parsingStep_body {q : HTTPMessageSequence S D} (h : q.messageInProgress.state = .bodyPending) :
    q.parsingStep = q.stepBody := by unfold parsingStep; rw [h]

theorem parsingStep_complete {q : HTTPMessageSequence S D} (h : q.messageInProgress.state = .complete) :
    q.parsingStep = .ok (true, q.stepComplete) := by unfold parsingStep; rw [h]; rfl

/-- The buffer begins with the first line of a message. -/
theorem drain_firstLine {q : HTTPMessageSequence S D} {line rest : Bytes} {m m' : HTTPMessage S} {members : D}
    (hstate : q.messageInProgress.state = .firstLinePending) (hbuffer : q.buffer = line ++ crlf ++ rest)
    (hline : find crlf line = none)
    (hnew : ParserClass.initializeNewMessage q.messageInProgress q.members = .ok (m, members))
    (hm : m.setFirstLine line = .ok m') :
    q.drain = drain { q with buffer := rest, messageInProgress := m', members := members } := by
  have hfind : find crlf q.buffer = some line.length := by
    rw [hbuffer]
    exact find_crlf_line hline rest
  refine drain_go ?_
  rw [parsingStep_firstLine hstate, stepFirstLine_some hfind, hnew, Run.ok_bind]
  dsimp only
  rw [take_line hbuffer, drop_line hbuffer, hm]
  rfl

/-- The buffer begins with a line of the headers, or the empty line after them. -/
theorem drain_headerLine {q : HTTPMessageSequence S D} {line rest : Bytes} {m : HTTPMessage S}
    (hstate : q.messageInProgress.state = .headersPending) (hbuffer : q.buffer = line ++ crlf ++ rest)
    (hline : find crlf line = none) (hm : headerLine q.messageInProgress line = .ok m) :
    q.drain = drain { q with buffer := rest, messageInProgress := m } := by
  have hfind : find crlf q.buffer = some line.length := by
    rw [hbuffer]
    exact find_crlf_line hline rest
  refine drain_go ?_
  rw [parsingStep_headers hstate, stepHeaders_some hfind, take_line hbuffer, drop_line hbuffer, hm]
  rfl

/-- A body that ends, and the complete message put away. -/
theorem drain_body_complete {q : HTTPMessageSequence S D} {n : Nat} {m : HTTPMessage S}
    (hstate : q.messageInProgress.state = .bodyPending) (hread : q.messageInProgress.readInBody q.buffer = .ok (n, m))
    (hn : n ≤ q.buffer.length) (hdone : m.state = .complete) :
    q.drain = drain { q with
      buffer := q.buffer.drop n
      completeMessages := q.completeMessages ++ [m]
      messageInProgress := .fresh } := by
  have hstep : q.parsingStep = .ok (true, { q with buffer := q.buffer.drop n, messageInProgress := m }) := by
    rw [parsingStep_body hstate]
    unfold stepBody
    rw [hread, Run.ok_bind]
    dsimp only
    rw [check_of (by simp [hdone]), InternalBuffer.popBytes_of_le hn]
    simp only [Run.ok_bind, hdone, decide_true, Run.pure_ok]
  rw [drain_go hstep, drain_go (parsingStep_complete hdone)]
  rfl

/-- A body that takes the whole buffer and goes on. -/
theorem step_body_pending {q : HTTPMessageSequence S D} {m : HTTPMessage S}
    (hstate : q.messageInProgress.state = .bodyPending)
    (hread : q.messageInProgress.readInBody q.buffer = .ok (q.buffer.length, m)) (hpending : m.state = .bodyPending) :
    q.parsingStep = .ok (false, { q with buffer := [], messageInProgress := m }) := by
  rw [parsingStep_body hstate]
  unfold stepBody
  rw [hread, Run.ok_bind]
  dsimp only
  rw [check_of (by simp), InternalBuffer.popBytes_of_le le_rfl, List.drop_length, hpending]
  rfl

end HTTPMessageSequence

end AbcMahimahi.Http
