/-
HTTP messages: header lines, the four states a message goes through while it is parsed, and the
part of a message that requests and responses share. What they do not share is virtual in the
source and a class here.
-/
import AbcMahimahi.Lib.Run
import AbcMahimahi.Util.Ezio

namespace AbcMahimahi.Http

open Bytes

/-! ## Headers -/

structure HTTPHeader where
  key : Bytes
  value : Bytes
  deriving DecidableEq, Repr

/-- `HTTPHeader( buf )`: the value starts at the first byte after the colon that is no space, but a
value of spaces alone is kept whole. -/
def HTTPHeader.parse (buf : Bytes) : Except Fault HTTPHeader :=
  match find (ascii ":") buf with
  | none => throw (.runtimeError (ascii "HTTPHeader: buffer does not contain colon"))
  | some colonLocation =>
    let valueTemp := buf.drop (colonLocation + 1)
    pure ⟨buf.take colonLocation, valueTemp.drop ((findFirstNotOf 32 valueTemp).getD 0)⟩

def HTTPHeader.str (h : HTTPHeader) : Bytes := h.key ++ ascii ": " ++ h.value

/-! ## Messages -/

inductive HTTPMessageState where
  | firstLinePending
  | headersPending
  | bodyPending
  | complete
  deriving DecidableEq, Repr

/-- The value of the enumerator. -/
def HTTPMessageState.index : HTTPMessageState → Nat
  | .firstLinePending => 0
  | .headersPending => 1
  | .bodyPending => 2
  | .complete => 3

/-- `HTTPMessage`, with the members that the derived class adds. -/
structure HTTPMessage (S : Type) where
  /-- `expected_body_size_`: is the size known in advance, and the size. -/
  expected : Bool × Nat := (false, 2 ^ 64 - 1)
  firstLine : Bytes := []
  headers : List HTTPHeader := []
  body : Bytes := []
  state : HTTPMessageState := .firstLinePending
  members : S
  deriving DecidableEq

/-- The virtual functions of a class derived from `HTTPMessage`, and its members at first. -/
class MessageClass (S : Type) where
  fresh : S
  calculateExpectedBodySize : HTTPMessage S → Except Fault (HTTPMessage S)
  readInComplexBody : HTTPMessage S → Bytes → Except Fault (Nat × HTTPMessage S)
  eofInBody : HTTPMessage S → Except Fault Bool

/-- `http_to_lower`. -/
def httpToLower (c : UInt8) : UInt8 := if 65 ≤ c ∧ c ≤ 90 then c + 32 else c

/-- `strip_initial_whitespace`. -/
def stripInitialWhitespace (str : Bytes) : Bytes :=
  match findFirstNotOf 32 str with
  | none => []
  | some firstNonspace => str.drop firstNonspace

/-- `equivalent_strings`: equal but for case and initial spaces. -/
def equivalentStrings (a b : Bytes) : Bool :=
  let newA := stripInitialWhitespace a
  let newB := stripInitialWhitespace b
  if newA.length ≠ newB.length then false else (newA.zip newB).all fun (x, y) => httpToLower x = httpToLower y

/-- The value of the first header with the name. -/
def valueOf (headers : List HTTPHeader) (name : Bytes) : Option Bytes :=
  (headers.find? fun h => equivalentStrings h.key name).map (·.value)

namespace HTTPMessage

variable {S : Type}

/-- `MessageType()`. -/
def fresh [MessageClass S] : HTTPMessage S := { members := MessageClass.fresh }

def setFirstLine (m : HTTPMessage S) (str : Bytes) : Except Fault (HTTPMessage S) := do
  check "state_ == FIRST_LINE_PENDING" (m.state = .firstLinePending)
  pure { m with firstLine := str, state := .headersPending }

def addHeader (m : HTTPMessage S) (str : Bytes) : Except Fault (HTTPMessage S) := do
  check "state_ == HEADERS_PENDING" (m.state = .headersPending)
  let header ← HTTPHeader.parse str
  pure { m with headers := m.headers ++ [header] }

def doneWithHeaders [MessageClass S] (m : HTTPMessage S) : Except Fault (HTTPMessage S) := do
  check "state_ == HEADERS_PENDING" (m.state = .headersPending)
  MessageClass.calculateExpectedBodySize { m with state := .bodyPending }

/-- `set_expected_body_size`; the default of `value` is `-1`. -/
def setExpectedBodySize (m : HTTPMessage S) (isKnown : Bool) (value : Nat) :
    Except Fault (HTTPMessage S) := do
  check "state_ == BODY_PENDING" (m.state = .bodyPending)
  pure { m with expected := (isKnown, value) }

def bodySizeIsKnown (m : HTTPMessage S) : Except Fault Bool := do
  check "state_ > HEADERS_PENDING" (HTTPMessageState.index .headersPending < m.state.index)
  pure m.expected.1

def expectedBodySize (m : HTTPMessage S) : Except Fault Nat := do
  let known ← m.bodySizeIsKnown
  check "body_size_is_known()" known
  pure m.expected.2

/-- The branch of `read_in_body` for a size known in advance. -/
def readInKnownBody (m : HTTPMessage S) (str : Bytes) : Except Fault (Nat × HTTPMessage S) := do
  let expected ← m.expectedBodySize
  check "body_.size() <= expected_body_size()" (m.body.length ≤ expected)
  let amountToAppend := min (expected - m.body.length) str.length
  let body := m.body ++ str.take amountToAppend
  pure (amountToAppend, { m with body := body, state := if body.length = expected then .complete else m.state })

/-- `read_in_body`: how many bytes of the string belong to the body. -/
def readInBody [MessageClass S] (m : HTTPMessage S) (str : Bytes) : Except Fault (Nat × HTTPMessage S) := do
  check "state_ == BODY_PENDING" (m.state = .bodyPending)
  let known ← m.bodySizeIsKnown
  if known then m.readInKnownBody str else MessageClass.readInComplexBody m str

/-- `HTTPMessage::eof`. -/
def eof [MessageClass S] (m : HTTPMessage S) : Except Fault (HTTPMessage S) :=
  match m.state with
  | .firstLinePending => pure m
  | .headersPending => throw (.runtimeError (ascii "HTTPMessage: EOF received in middle of headers"))
  | .bodyPending => do
    let ends ← MessageClass.eofInBody m
    pure (if ends then { m with state := .complete } else m)
  | .complete => throw (.assertion "false")

def hasHeader (m : HTTPMessage S) (headerName : Bytes) : Bool :=
  m.headers.any fun header => equivalentStrings header.key headerName

/-- `get_header_value`: the value of the first header with the name. -/
def getHeaderValue (m : HTTPMessage S) (headerName : Bytes) : Except Fault Bytes :=
  match m.headers.find? fun header => equivalentStrings header.key headerName with
  | some header => pure header.value
  | none => throw (.runtimeError (ascii "HTTPMessage header not found: " ++ headerName))

theorem hasHeader_eq (m : HTTPMessage S) (name : Bytes) : m.hasHeader name = (valueOf m.headers name).isSome := by
  unfold hasHeader valueOf
  rw [Option.isSome_map, Bool.eq_iff_iff, List.any_eq_true, List.find?_isSome]

theorem getHeaderValue_some {m : HTTPMessage S} {name value : Bytes} (h : valueOf m.headers name = some value) :
    m.getHeaderValue name = .ok value := by
  obtain ⟨header, hheader, rfl⟩ := Option.map_eq_some_iff.1 h
  unfold getHeaderValue
  rw [hheader]
  rfl

/-- The first line, the headers, the empty line and the body. -/
def serialized (m : HTTPMessage S) : Bytes :=
  m.firstLine ++ crlf ++ m.headers.flatMap (fun header => header.str ++ crlf) ++ crlf ++ m.body

/-- `HTTPMessage::str`. -/
def str (m : HTTPMessage S) : Except Fault Bytes := do
  check "state_ == COMPLETE" (m.state = .complete)
  pure m.serialized

end HTTPMessage

end AbcMahimahi.Http
