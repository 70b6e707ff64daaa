/-
Requests: the body size is always known in advance, from the method and the Content-Length header.
-/
import AbcMahimahi.Http.Sequence

namespace AbcMahimahi.Http

open Bytes

/-- A request adds no members. -/
structure RequestMembers where
  deriving DecidableEq, Repr

abbrev HTTPRequest : Type := HTTPMessage RequestMembers

/-- `HTTPRequestParser`. -/
abbrev HTTPRequestParser : Type := HTTPMessageSequence RequestMembers Unit

namespace HTTPRequest

/-- `HTTPRequest::calculate_expected_body_size`. -/
def calculateExpectedBodySize (m : HTTPRequest) : Except Fault HTTPRequest := do
  check "state_ == BODY_PENDING" (m.state = .bodyPending)
  if m.firstLine.take 4 = ascii "GET " ∨ m.firstLine.take 5 = ascii "HEAD " then
    m.setExpectedBodySize true 0
  else if m.firstLine.take 5 = ascii "POST " then
    if !m.hasHeader (ascii "Content-Length") then
      throw (.runtimeError (ascii "HTTPRequest: does not support chunked requests"))
    else do
      let value ← m.getHeaderValue (ascii "Content-Length")
      let size ← myatoi value 10
      -- a `long` becomes a `size_t`
      m.setExpectedBodySize true (size % 2 ^ 64).toNat
  else throw (.runtimeError (ascii "Cannot handle HTTP method: " ++ m.firstLine))

/-- `HTTPRequest::read_in_complex_body`. -/
def readInComplexBody (_ : HTTPRequest) (_ : Bytes) : Except Fault (Nat × HTTPRequest) :=
  throw (.runtimeError (ascii "HTTPRequest: does not support chunked requests"))

/-- `HTTPRequest::eof_in_body`. -/
def eofInBody (_ : HTTPRequest) : Except Fault Bool :=
  throw (.runtimeError (ascii "HTTPRequest: got EOF in middle of body"))

def isHead (m : HTTPRequest) : Except Fault Bool := do
  check "state_ > FIRST_LINE_PENDING" (HTTPMessageState.index .firstLinePending < m.state.index)
  pure (m.firstLine.take 5 = ascii "HEAD ")

end HTTPRequest

instance : MessageClass RequestMembers where
  fresh := {}
  calculateExpectedBodySize := HTTPRequest.calculateExpectedBodySize
  readInComplexBody := HTTPRequest.readInComplexBody
  eofInBody := HTTPRequest.eofInBody

instance : ParserClass RequestMembers Unit where
  initializeNewMessage m d := pure (m, d)

namespace HTTPRequest

/-- A request's body size is known once its headers are done, and nothing else has changed. -/
theorem calculateExpectedBodySize_ok {m m' : HTTPRequest} (h : m.calculateExpectedBodySize = .ok m') :
    m.state = .bodyPending ∧ ∃ value, m' = { m with expected := (true, value) } := by
  obtain ⟨_, hcheck, h⟩ := Run.bind_ok h
  have hstate : m.state = .bodyPending := by simpa using check_ok hcheck
  refine ⟨hstate, ?_⟩
  have hset : ∀ {value : Nat}, m.setExpectedBodySize true value = .ok m' → m' = { m with expected := (true, value) } := by
    intro value hv
    obtain ⟨_, -, hv⟩ := Run.bind_ok hv
    cases hv; rfl
  split at h
  · exact ⟨0, hset h⟩
  · split at h
    · split at h
      · cases h
      · obtain ⟨value, -, h⟩ := Run.bind_ok h
        obtain ⟨size, -, h⟩ := Run.bind_ok h
        exact ⟨_, hset h⟩
    · cases h

end HTTPRequest

end AbcMahimahi.Http
