/-
Responses: the body size follows the rules of RFC 2616 section 4.4 from the status line, the
headers and the request that the response answers; a body of unknown size has a parser of its own.
The response parser keeps the requests that wait for their responses.
-/
import AbcMahimahi.Http.Chunked
import AbcMahimahi.Http.Request

namespace AbcMahimahi.Http

open Bytes

/-! ## Tokens -/

/-- The indices at which a byte stands. -/
def indices (str : Bytes) (separator : UInt8) : List Nat :=
  (List.range str.length).filter fun i => str[i]? = some separator

/-- The tokens between two neighbouring indices each, and the last one. -/
def innerTokens (str : Bytes) : List Nat → List Bytes
  | [] => []
  | [i] => [str.drop (i + 1)]
  | i :: j :: rest => (str.drop (i + 1)).take (j - i - 1) :: innerTokens str (j :: rest)

/-- `split`, for a separator of one byte. -/
def split (str : Bytes) (separator : UInt8) : List Bytes :=
  match indices str separator with
  | [] => [str]
  | i :: rest => str.take i :: innerTokens str (i :: rest)

/-- The type of `MIMEType( content_type )`. -/
def mimeType (contentType : Bytes) : Except Fault Bytes :=
  match split contentType 59 with
  | [] => throw (.runtimeError (ascii "MIMEType: invalid MIME media-type string"))
  | type :: _ =>
    if type.isEmpty then throw (.runtimeError (ascii "MIMEType: invalid MIME media-type string")) else pure type

/-! ## Responses -/

/-- `BodyParser`: a chunked body, or one that only the end of the stream ends. -/
inductive BodyParser where
  | rule5
  | chunked (p : ChunkedBodyParser)
  deriving DecidableEq

def BodyParser.read : BodyParser → Bytes → Except Fault (Option Nat × BodyParser)
  | .rule5, _ => pure (none, .rule5)
  | .chunked p, str => (fun (n, p') => (n, .chunked p')) <$> p.read str

def BodyParser.eof : BodyParser → Bool
  | .rule5 => true
  | .chunked p => p.eof

/-- What `HTTPResponse` adds: the request that it answers, and the parser of its body. -/
structure ResponseMembers where
  request : HTTPRequest := .fresh
  bodyParser : Option BodyParser := none
  deriving DecidableEq

abbrev HTTPResponse : Type := HTTPMessage ResponseMembers

/-- `HTTPResponseParser`: its member is the queue of requests without a response. -/
abbrev HTTPResponseParser : Type := HTTPMessageSequence ResponseMembers (List HTTPRequest)

namespace HTTPResponse

def statusCode (m : HTTPResponse) : Except Fault Bytes := do
  check "state_ > FIRST_LINE_PENDING" (HTTPMessageState.index .firstLinePending < m.state.index)
  match split m.firstLine 32 with
  | _ :: code :: _ :: _ => pure code
  | _ => throw (.runtimeError (ascii "HTTPResponse: Invalid status line: " ++ m.firstLine))

/-- Rule 1: is the body known to be empty? -/
def ruleOne (m : HTTPResponse) : Except Fault Bool := do
  let code ← m.statusCode
  let first ← orOutOfRange code.head?
  if first = 49 ∨ code = ascii "204" ∨ code = ascii "304" then pure true else m.members.request.isHead

/-- Rule 2: is the last transfer encoding chunked? -/
def ruleTwo (m : HTTPResponse) : Except Fault Bool :=
  if m.hasHeader (ascii "Transfer-Encoding") then do
    let value ← m.getHeaderValue (ascii "Transfer-Encoding")
    pure (equivalentStrings ((split value 44).getLastD []) (ascii "chunked"))
  else pure false

/-- Rule 4: is this a multipart/byteranges body? -/
def ruleFour (m : HTTPResponse) : Except Fault Bool :=
  if m.hasHeader (ascii "Content-Type") then do
    let value ← m.getHeaderValue (ascii "Content-Type")
    let type ← mimeType value
    pure (equivalentStrings type (ascii "multipart/byteranges"))
  else pure false

/-- A body of unknown size, with its parser. -/
def setBodyParser (m : HTTPResponse) (p : BodyParser) : Except Fault HTTPResponse := do
  let m ← m.setExpectedBodySize false (2 ^ 64 - 1)
  pure { m with members := { m.members with bodyParser := some p } }

/-- The rules from the fourth on. -/
def lastRules (m : HTTPResponse) : Except Fault HTTPResponse := do
  let four ← m.ruleFour
  if four then
    let _ ← m.setExpectedBodySize false (2 ^ 64 - 1)
    throw (.runtimeError (ascii "HTTPResponse: unsupported multipart/byteranges without Content-Length"))
  else m.setBodyParser .rule5

/-- The rules from the second on. -/
def laterRules (m : HTTPResponse) : Except Fault HTTPResponse := do
  let two ← m.ruleTwo
  if two then m.setBodyParser (.chunked { trailersEnabled := m.hasHeader (ascii "Trailer") })
  else if !m.hasHeader (ascii "Transfer-Encoding") ∧ m.hasHeader (ascii "Content-Length") then do
    let value ← m.getHeaderValue (ascii "Content-Length")
    let size ← myatoi value 10
    m.setExpectedBodySize true (size % 2 ^ 64).toNat
  else m.lastRules

/-- `HTTPResponse::calculate_expected_body_size`. -/
def calculateExpectedBodySize (m : HTTPResponse) : Except Fault HTTPResponse := do
  check "state_ == BODY_PENDING" (m.state = .bodyPending)
  let one ← m.ruleOne
  if one then m.setExpectedBodySize true 0 else m.laterRules

/-- `HTTPResponse::read_in_complex_body`. -/
def readInComplexBody (m : HTTPResponse) (str : Bytes) : Except Fault (Nat × HTTPResponse) := do
  check "state_ == BODY_PENDING" (m.state = .bodyPending)
  match m.members.bodyParser with
  | none => throw (.assertion "body_parser_")
  | some p => do
    let (amountParsed, p) ← p.read str
    let members := { m.members with bodyParser := some p }
    match amountParsed with
    | none => pure (str.length, { m with body := m.body ++ str, members := members })
    | some n => pure (n, { m with body := m.body ++ str.take n, state := .complete, members := members })

/-- `HTTPResponse::eof_in_body`. -/
def eofInBody (m : HTTPResponse) : Except Fault Bool :=
  match m.members.bodyParser with
  | some p => pure p.eof
  | none => throw (.runtimeError (ascii "HTTPResponse: got EOF in middle of body"))

def setRequest (m : HTTPResponse) (request : HTTPRequest) : Except Fault HTTPResponse := do
  check "state_ == FIRST_LINE_PENDING" (m.state = .firstLinePending)
  pure { m with members := { m.members with request := request } }

end HTTPResponse

instance : MessageClass ResponseMembers where
  fresh := {}
  calculateExpectedBodySize := HTTPResponse.calculateExpectedBodySize
  readInComplexBody := HTTPResponse.readInComplexBody
  eofInBody := HTTPResponse.eofInBody

/-- `HTTPResponseParser::initialize_new_message`. -/
def initializeNewResponse (m : HTTPResponse) : List HTTPRequest → Except Fault (HTTPResponse × List HTTPRequest)
  | [] => throw (.runtimeError (ascii "HTTPResponseParser: response without matching request"))
  | request :: requests => do
    let m ← m.setRequest request
    pure (m, requests)

instance : ParserClass ResponseMembers (List HTTPRequest) where
  initializeNewMessage := initializeNewResponse

/-- `new_request_arrived`. -/
def HTTPMessageSequence.newRequestArrived (q : HTTPResponseParser) (request : HTTPRequest) : HTTPResponseParser :=
  { q with members := q.members ++ [request] }

namespace HTTPResponse

/-! ## What the rules set -/

theorem setExpectedBodySize_ok {m m' : HTTPResponse} {isKnown : Bool} {value : Nat}
    (h : m.setExpectedBodySize isKnown value = .ok m') : m' = { m with expected := (isKnown, value) } := by
  obtain ⟨_, -, h⟩ := Run.bind_ok h
  cases h; rfl

/-- The body parser of a response whose headers are done, before its first byte. -/
inductive FreshParser : BodyParser → Prop
  | rule5 : FreshParser .rule5
  | chunked (trailers : Bool) : FreshParser (.chunked { trailersEnabled := trailers })

theorem setBodyParser_ok {m m' : HTTPResponse} {p : BodyParser} (h : m.setBodyParser p = .ok m') :
    m' = { m with expected := (false, 2 ^ 64 - 1), members := { m.members with bodyParser := some p } } := by
  obtain ⟨m₁, h₁, h⟩ := Run.bind_ok h
  obtain rfl := setExpectedBodySize_ok h₁
  cases h; rfl

/-- A response's body has a known size or a fresh parser once its headers are done, and nothing
else has changed. -/
theorem calculateExpectedBodySize_ok {m m' : HTTPResponse} (h : m.calculateExpectedBodySize = .ok m') :
    m.state = .bodyPending ∧ ((∃ value, m' = { m with expected := (true, value) }) ∨
      ∃ p, FreshParser p ∧
        m' = { m with expected := (false, 2 ^ 64 - 1), members := { m.members with bodyParser := some p } }) := by
  obtain ⟨_, hcheck, h⟩ := Run.bind_ok h
  refine ⟨by simpa using check_ok hcheck, ?_⟩
  obtain ⟨one, -, h⟩ := Run.bind_ok h
  split at h
  · exact Or.inl ⟨0, setExpectedBodySize_ok h⟩
  obtain ⟨two, -, h⟩ := Run.bind_ok h
  split at h
  · exact Or.inr ⟨_, .chunked _, setBodyParser_ok h⟩
  split at h
  · obtain ⟨value, -, h⟩ := Run.bind_ok h
    obtain ⟨size, -, h⟩ := Run.bind_ok h
    exact Or.inl ⟨_, setExpectedBodySize_ok h⟩
  obtain ⟨four, -, h⟩ := Run.bind_ok h
  split at h
  · obtain ⟨_, -, h⟩ := Run.bind_ok h
    cases h
  · exact Or.inr ⟨_, .rule5, setBodyParser_ok h⟩

end HTTPResponse

end AbcMahimahi.Http
