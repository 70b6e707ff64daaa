/-
The parser of chunked bodies: it keeps its own copy of the bytes it has not parsed yet, and tells
its caller how many bytes of the input belong to the body by the difference of two counters, the
bytes parsed and the bytes acknowledged. The size of a chunk is a 32-bit word, and so is the size
with the CRLF after it.
-/
import AbcMahimahi.Lib.Loop
import AbcMahimahi.Lib.Run
import AbcMahimahi.Util.Ezio

namespace AbcMahimahi.Http

open Bytes

inductive ChunkState where
  | chunkHdr
  | chunk
  | trailer
  deriving DecidableEq, Repr

/-- `ChunkedBodyParser`. The counters are positions in the stream of one connection. -/
structure ChunkedBodyParser where
  trailersEnabled : Bool
  parserBuffer : Bytes := []
  currentChunkSize : UInt32 := 0
  ackedSoFar : Nat := 0
  parsedSoFar : Nat := 0
  state : ChunkState := .chunkHdr
  deriving DecidableEq

namespace ChunkedBodyParser

/-- `get_chunk_size`: the hexadecimal digits before extensions and spaces, as a `uint32_t`. -/
def getChunkSize (chunkHdr : Bytes) : Except Fault UInt32 := do
  -- on a shorter string the position wraps around to one outside it
  let ending ← orOutOfRange (if chunkHdr.length < 2 then none else substr chunkHdr (chunkHdr.length - 2) 2)
  check "chunk_hdr.substr( chunk_hdr.length() - 2, 2 ) == \"\\r\\n\"" (ending = crlf)
  -- a semicolon starts the chunk extensions
  match (find (ascii ";") chunkHdr).orElse fun _ => find crlf chunkHdr with
  | none => throw (.assertion "pos != string::npos")
  | some pos =>
    let hexString := chunkHdr.take pos
    let size ← myatoi (hexString.take ((find (ascii " ") hexString).getD hexString.length)) 16
    pure (UInt32.ofInt size)

/-- All of the input is acknowledged, and no end of the body found: `npos`. -/
def acknowledge (p : ChunkedBodyParser) (inputSize : Nat) : Option Nat × ChunkedBodyParser :=
  (none, { p with ackedSoFar := p.ackedSoFar + inputSize })

/-- `compute_ack_size`. -/
def computeAckSize (p : ChunkedBodyParser) (haystack needle : Bytes) (inputSize : Nat) :
    Except Fault (Option Nat × ChunkedBodyParser) :=
  match find needle haystack with
  | none => pure (p.acknowledge inputSize)
  | some loc => do
    let p := { p with parsedSoFar := p.parsedSoFar + (loc + needle.length) }
    check "parsed_so_far_ > acked_so_far_" (p.ackedSoFar < p.parsedSoFar)
    pure (some (p.parsedSoFar - p.ackedSoFar), p)

/-- What ends the body after the last chunk: an empty line, and one more line end with trailers. -/
def terminator (p : ChunkedBodyParser) : Bytes := if p.trailersEnabled then crlf ++ crlf else crlf

/-- The chunk header ends at `it`. -/
def enterChunk (p : ChunkedBodyParser) (it : Nat) : Except Fault ChunkedBodyParser := do
  let size ← getChunkSize (p.parserBuffer.take (it + 2))
  pure { p with
    currentChunkSize := size
    state := if size = 0 then .trailer else .chunk
    parsedSoFar := p.parsedSoFar + (it + 2)
    parserBuffer := p.parserBuffer.drop (it + 2) }

/-- `current_chunk_size_ + 2`, on `uint32_t`. -/
def chunkEnd (p : ChunkedBodyParser) : Nat := (p.currentChunkSize + 2).toNat

/-- The chunk and its CRLF are in the buffer, as far as `chunkEnd` tells. -/
def leaveChunk (p : ChunkedBodyParser) : Except Fault ChunkedBodyParser := do
  let ending ← orOutOfRange (substr p.parserBuffer p.currentChunkSize.toNat 2)
  check "parser_buffer_.substr( current_chunk_size_, 2 ) == \"\\r\\n\"" (ending = crlf)
  pure { p with
    state := .chunkHdr
    parsedSoFar := p.parsedSoFar + p.chunkEnd
    parserBuffer := p.parserBuffer.drop p.chunkEnd }

/-- One turn of the loop in `read`: on with a new state, or the value to return. -/
def turn (inputSize : Nat) (p : ChunkedBodyParser) :
    Except Fault (ChunkedBodyParser ⊕ (Option Nat × ChunkedBodyParser)) :=
  if p.parserBuffer = [] then pure (.inr (p.acknowledge inputSize))
  else
    match p.state with
    | .chunkHdr =>
      match find crlf p.parserBuffer with
      | some it => .inl <$> p.enterChunk it
      | none => pure (.inr (p.acknowledge inputSize))
    | .chunk =>
      if p.chunkEnd ≤ p.parserBuffer.length then .inl <$> p.leaveChunk
      else pure (.inr (p.acknowledge inputSize))
    | .trailer => .inr <$> p.computeAckSize p.parserBuffer p.terminator inputSize

/-- A chunk whose end wraps around to zero is left without a byte, and then a header is read. -/
def size (p : ChunkedBodyParser) : Nat := 2 * p.parserBuffer.length + if p.state = .chunk then 1 else 0

/-- The loop of `read`. -/
def readLoop (inputSize : Nat) (p : ChunkedBodyParser) : Except Fault (Option Nat × ChunkedBodyParser) :=
  Loop.whole .endless (turn inputSize) size p

/-- `read`: how many bytes of the input belong to the body if it ends in them, `none` for `npos`. -/
def read (p : ChunkedBodyParser) (inputBuffer : Bytes) : Except Fault (Option Nat × ChunkedBodyParser) :=
  readLoop inputBuffer.length { p with parserBuffer := p.parserBuffer ++ inputBuffer }

/-- `eof`. -/
def eof (_ : ChunkedBodyParser) : Bool := true

/-! ## The turns -/

section

variable {p : ChunkedBodyParser}

theorem turn_nil (n : Nat) (h : p.parserBuffer = []) : turn n p = .ok (.inr (p.acknowledge n)) := if_pos h

theorem turn_chunkHdr (n : Nat) (h : p.parserBuffer ≠ []) (hstate : p.state = .chunkHdr) :
    turn n p = match find crlf p.parserBuffer with
      | some it => .inl <$> p.enterChunk it
      | none => pure (.inr (p.acknowledge n)) := by
  unfold turn
  rw [if_neg h, hstate]

theorem turn_chunkHdr_none (n : Nat) (h : p.parserBuffer ≠ []) (hstate : p.state = .chunkHdr)
    (hfind : find crlf p.parserBuffer = none) : turn n p = .ok (.inr (p.acknowledge n)) := by
  rw [turn_chunkHdr n h hstate, hfind]
  rfl

theorem turn_chunkHdr_some (n : Nat) (h : p.parserBuffer ≠ []) (hstate : p.state = .chunkHdr) {it : Nat}
    (hfind : find crlf p.parserBuffer = some it) : turn n p = .inl <$> p.enterChunk it := by
  rw [turn_chunkHdr n h hstate, hfind]

theorem turn_chunk (n : Nat) (h : p.parserBuffer ≠ []) (hstate : p.state = .chunk) :
    turn n p = if p.chunkEnd ≤ p.parserBuffer.length then .inl <$> p.leaveChunk
      else pure (.inr (p.acknowledge n)) := by
  unfold turn
  rw [if_neg h, hstate]

theorem turn_trailer (n : Nat) (h : p.parserBuffer ≠ []) (hstate : p.state = .trailer) :
    turn n p = .inr <$> p.computeAckSize p.parserBuffer p.terminator n := by
  unfold turn
  rw [if_neg h, hstate]

end

theorem enterChunk_ok {p p' : ChunkedBodyParser} {it : Nat} (h : p.enterChunk it = .ok p') :
    ∃ size, getChunkSize (p.parserBuffer.take (it + 2)) = .ok size ∧
      p' = { p with
        currentChunkSize := size
        state := if size = 0 then .trailer else .chunk
        parsedSoFar := p.parsedSoFar + (it + 2)
        parserBuffer := p.parserBuffer.drop (it + 2) } := by
  obtain ⟨size, hsize, h⟩ := Run.bind_ok h
  cases h
  exact ⟨size, hsize, rfl⟩

theorem leaveChunk_ok {p p' : ChunkedBodyParser} (h : p.leaveChunk = .ok p') :
    substr p.parserBuffer p.currentChunkSize.toNat 2 = some crlf ∧
      p' = { p with
        state := .chunkHdr
        parsedSoFar := p.parsedSoFar + p.chunkEnd
        parserBuffer := p.parserBuffer.drop p.chunkEnd } := by
  obtain ⟨ending, hsub, h⟩ := Run.bind_ok h
  obtain ⟨_, hcheck, h⟩ := Run.bind_ok h
  cases h
  have hending : ending = crlf := by simpa using check_ok hcheck
  subst hending
  unfold orOutOfRange at hsub
  split at hsub
  · rename_i a ha; cases hsub; exact ⟨ha, rfl⟩
  · cases hsub

theorem computeAckSize_some {p : ChunkedBodyParser} {haystack needle : Bytes} {loc : Nat} (n : Nat)
    (h : find needle haystack = some loc) (hahead : p.ackedSoFar < p.parsedSoFar + (loc + needle.length)) :
    p.computeAckSize haystack needle n = .ok (some (p.parsedSoFar + (loc + needle.length) - p.ackedSoFar),
      { p with parsedSoFar := p.parsedSoFar + (loc + needle.length) }) := by
  unfold computeAckSize
  rw [h]
  dsimp only
  rw [check_of (decide_eq_true hahead)]
  rfl

theorem computeAckSize_none {p : ChunkedBodyParser} {haystack needle : Bytes} (n : Nat)
    (h : find needle haystack = none) : p.computeAckSize haystack needle n = .ok (p.acknowledge n) := by
  unfold computeAckSize
  rw [h]; rfl

/-- Every turn that goes on consumes bytes, or leaves a chunk. -/
theorem turn_lowers (inputSize : Nat) : Loop.Lowers (turn inputSize) size := by
  intro p p' h
  unfold turn at h
  split at h
  · cases h
  rename_i hne
  split at h
  · rename_i hstate
    split at h
    · rename_i it hit
      obtain ⟨x, hx, hp⟩ := Run.map_eq_ok h
      cases hp
      obtain ⟨size', -, rfl⟩ := enterChunk_ok hx
      have hbound := find_bound hit
      rw [length_crlf] at hbound
      unfold size
      simp only [hstate, List.length_drop]
      split <;> split <;> omega
    · cases h
  · rename_i hstate
    split at h
    · obtain ⟨x, hx, hp⟩ := Run.map_eq_ok h
      cases hp
      obtain ⟨-, rfl⟩ := leaveChunk_ok hx
      unfold size
      simp only [hstate, List.length_drop, if_true, if_neg (show ChunkState.chunkHdr ≠ .chunk by decide)]
      omega
    · cases h
  · obtain ⟨x, -, hp⟩ := Run.map_eq_ok h
    cases hp

end ChunkedBodyParser

end AbcMahimahi.Http
