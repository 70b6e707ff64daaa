/-
A stream of chunks without the pieces it comes in: the places that a parser of it goes through, each with the bytes that
are left, and the moves between them over whole lines and whole chunks. There is at most one move from a place. The
parser that is fed the stream in pieces follows the moves: a call of `read` goes along them as far as the bytes that
have come allow, unless a chunk is not followed by a CRLF or its end wraps around in 32 bits.
-/
import AbcMahimahi.Http.ChunkedPieces

namespace AbcMahimahi.Http.ChunkedBodyParser

open Bytes Relation

/-- Where in a stream a parser is. -/
structure Place where
  state : ChunkState
  size : UInt32
  rest : Bytes

/-- Over a header line to its chunk or to the trailers, and over a chunk and its CRLF to the next header line. -/
inductive Moves : Place → Place → Prop
  | header {line rest : Bytes} {size c : UInt32} (hline : find crlf line = none)
      (hsize : getChunkSize (line ++ crlf) = .ok c) :
      Moves ⟨.chunkHdr, size, line ++ crlf ++ rest⟩ ⟨if c = 0 then .trailer else .chunk, c, rest⟩
  | data {data rest : Bytes} {c : UInt32} (hlen : data.length = c.toNat) (hfit : c.toNat + 2 < 2 ^ 32) :
      Moves ⟨.chunk, c, data ++ (crlf ++ rest)⟩ ⟨.chunkHdr, c, rest⟩

/-- Moves one after the other. -/
def Leads : Place → Place → Prop := ReflTransGen Moves

/-- Before the first header line. -/
def start (stream : Bytes) : Place := ⟨.chunkHdr, 0, stream⟩

/-! ## Moves -/

section

variable {a b c d : Place}

/-- One stream has one first line. -/
theorem line_unique {l l' rest rest' : Bytes} (hl : find crlf l = none) (hl' : find crlf l' = none)
    (h : l ++ crlf ++ rest = l' ++ crlf ++ rest') : l = l' ∧ rest = rest' := by
  have hfirst := find_crlf_line hl rest
  have hlen : l'.length = l.length := by
    rw [h, find_crlf_line hl' rest'] at hfirst
    exact Option.some.inj hfirst
  rw [List.append_assoc, List.append_assoc] at h
  obtain ⟨hlines, hrests⟩ := List.append_inj h hlen.symm
  exact ⟨hlines, List.append_cancel_left hrests⟩

theorem Moves.unique (h : Moves a b) (h' : Moves a c) : b = c := by
  cases h with
  | header hline hsize =>
    generalize hrest : _ ++ crlf ++ _ = stream at h'
    cases h' with
    | header hline' hsize' =>
      obtain ⟨rfl, rfl⟩ := line_unique hline hline' hrest
      rw [hsize] at hsize'
      cases hsize'
      rfl
  | data hlen hfit =>
    generalize hrest : _ ++ (crlf ++ _) = stream at h'
    cases h' with
    | data hlen' _ =>
      obtain ⟨rfl, hrests⟩ := List.append_inj hrest (hlen.trans hlen'.symm)
      rw [List.append_cancel_left hrests]

/-- Of two places that a place leads to, one leads to the other. -/
theorem Leads.total (h : Leads a b) (h' : Leads a c) : Leads b c ∨ Leads c b :=
  ReflTransGen.total_of_right_unique (fun _ _ _ => Moves.unique) h h'

theorem Moves.rest_lt (h : Moves a b) : b.rest.length < a.rest.length := by
  cases h with
  | header hline hsize => simp [crlf]; omega
  | data hlen hfit => simp [crlf]; omega

theorem Leads.rest_le (h : Leads a b) : b.rest.length ≤ a.rest.length := by
  induction h with
  | refl => exact le_rfl
  | tail _ hmove ih => exact hmove.rest_lt.le.trans ih

/-- After the last header line there are no more moves. -/
theorem Leads.to_trailer (h : Leads a b) (h' : Leads a c) (hstate : c.state = .trailer) : Leads b c := by
  rcases h.total h' with hbc | hcb
  · exact hbc
  · rcases ReflTransGen.cases_head hcb with rfl | ⟨d, hmove, -⟩
    · exact .refl
    · cases hmove with
      | header => cases hstate
      | data => cases hstate

/-- What has been passed is a front of the stream, and what comes after it does not matter for that. -/
theorem Moves.front (h : Moves a b) : ∃ done, a.rest = done ++ b.rest ∧
    ∀ x, Moves ⟨a.state, a.size, done ++ x⟩ ⟨b.state, b.size, x⟩ := by
  cases h with
  | header hline hsize => exact ⟨_, rfl, fun x => .header hline hsize⟩
  | @data data rest c hlen hfit =>
    refine ⟨data ++ crlf, by simp, fun x => ?_⟩
    rw [List.append_assoc]
    exact .data hlen hfit

theorem Leads.front (h : Leads a b) : ∃ done, a.rest = done ++ b.rest ∧
    ∀ x, Leads ⟨a.state, a.size, done ++ x⟩ ⟨b.state, b.size, x⟩ := by
  induction h with
  | refl => exact ⟨[], rfl, fun x => .refl⟩
  | tail _ hmove ih =>
    obtain ⟨done, hdone, hall⟩ := ih
    obtain ⟨done', hdone', hmoves⟩ := hmove.front
    refine ⟨done ++ done', by rw [hdone, hdone', List.append_assoc], fun x => ?_⟩
    rw [List.append_assoc]
    exact (hall (done' ++ x)).tail (hmoves x)

end

/-! ## Reading -/

/-- Where the parser is when the bytes `next` are still to come. -/
def place (p : ChunkedBodyParser) (next : Bytes) : Place := ⟨p.state, p.currentChunkSize, p.parserBuffer ++ next⟩

/-- In a call of `read` on an input of `n` bytes, with the bytes `next` to come after it. -/
structure Reading (trailers : Bool) (stream next : Bytes) (n : Nat) (p : ChunkedBodyParser) : Prop where
  enabled : p.trailersEnabled = trailers
  reached : Leads (start stream) (p.place next)
  counted : p.parsedSoFar + (p.parserBuffer ++ next).length = stream.length
  input : p.parsedSoFar + p.parserBuffer.length = p.ackedSoFar + n
  ahead : p.Ahead p.ackedSoFar

/-- Between two calls. -/
structure Between (trailers : Bool) (stream next : Bytes) (p : ChunkedBodyParser) : Prop where
  enabled : p.trailersEnabled = trailers
  reached : Leads (start stream) (p.place next)
  counted : p.parsedSoFar + (p.parserBuffer ++ next).length = stream.length
  quiet : p.Quiet

theorem between_start (trailers : Bool) (stream : Bytes) :
    Between trailers stream stream { trailersEnabled := trailers } :=
  ⟨rfl, .refl, Nat.zero_add _, quiet_start trailers⟩

section

variable {trailers : Bool} {stream piece next : Bytes} {n : Nat} {p : ChunkedBodyParser}

theorem Between.reading (h : Between trailers stream (piece ++ next) p) :
    Reading trailers stream next piece.length { p with parserBuffer := p.parserBuffer ++ piece } := by
  have hcount := h.quiet.counters
  refine ⟨h.enabled, ?_, ?_, ?_, p.parserBuffer, piece, rfl, h.quiet.waiting, hcount.ge⟩
  · have hreached := h.reached
    unfold place at hreached ⊢
    rw [List.append_assoc]
    exact hreached
  · rw [List.append_assoc]
    exact h.counted
  · rw [List.length_append]
    dsimp only
    omega

/-- What the bytes kept are waiting for ends in the bytes to come. -/
theorem Waiting.next_le {kept : Bytes} {b : Place} (h : p.Waiting kept)
    (hmove : Moves ⟨p.state, p.currentChunkSize, kept ++ next⟩ b) : b.rest.length ≤ next.length := by
  unfold Waiting at h
  cases hstate : p.state with
  | chunkHdr =>
    rw [hstate] at h hmove
    dsimp only at h
    generalize hrest : kept ++ next = rest at hmove
    cases hmove with
    | @header line rest' _ c hline hsize =>
      -- a line that ended in what was kept would have been taken with it
      by_contra hlong
      have hlong : next.length < rest'.length := not_le.1 hlong
      have hlen := congrArg List.length hrest
      simp only [List.length_append] at hlen
      obtain ⟨e, he, -⟩ := cut_shorter hrest (by rw [List.length_append]; omega)
      rw [he, find_crlf_line hline e] at h
      cases h
  | chunk =>
    rw [hstate] at h hmove
    dsimp only at h
    generalize hsize : p.currentChunkSize = size at *
    generalize hrest : kept ++ next = rest at hmove
    cases hmove with
    | @data data rest' c hlen hfit =>
      have hlen' := congrArg List.length hrest
      simp only [List.length_append, length_crlf] at hlen'
      -- what was kept is no whole chunk, so its end is in what comes next
      rcases h with rfl | ⟨-, hshort⟩
      · simp only [List.length_nil] at hlen'
        dsimp only
        omega
      · dsimp only
        omega
  | trailer =>
    rw [hstate] at hmove
    cases hmove

/-- How a turn ends, for the stream that is read. -/
inductive Turns (trailers : Bool) (stream next : Bytes) (n : Nat) (p : ChunkedBodyParser) : Prop
  | goes {p' : ChunkedBodyParser} (hturn : turn n p = .ok (.inl p')) (hmove : Moves (p.place next) (p'.place next))
      (h : Reading trailers stream next n p')
  | waits {p' : ChunkedBodyParser} (hturn : turn n p = .ok (.inr (none, p'))) (h : Between trailers stream next p')
      (hsame : p'.place next = p.place next)
  | completes {loc : Nat} {p' : ChunkedBodyParser} (hstate : p.state = .trailer)
      (hfind : find p.terminator p.parserBuffer = some loc)
      (hahead : p.ackedSoFar < p.parsedSoFar + (loc + p.terminator.length))
      (hturn : turn n p = .ok (.inr (some (p.parsedSoFar + (loc + p.terminator.length) - p.ackedSoFar), p')))
  | badHeader {line rest : Bytes} {e : Fault} (hstate : p.state = .chunkHdr)
      (hrest : p.parserBuffer ++ next = line ++ crlf ++ rest) (hline : find crlf line = none)
      (hsize : getChunkSize (line ++ crlf) = .error e) (hturn : turn n p = .error e)
  | badData {expr : String} (hstate : p.state = .chunk) (hfit : p.currentChunkSize.toNat + 2 < 2 ^ 32)
      (hlen : p.currentChunkSize.toNat + 2 ≤ p.parserBuffer.length)
      (hnot : ¬ crlf <+: (p.parserBuffer ++ next).drop p.currentChunkSize.toNat)
      (hturn : turn n p = .error (.assertion expr))
  | wraps (hstate : p.state = .chunk) (hwrap : 2 ^ 32 ≤ p.currentChunkSize.toNat + 2)
      (hne : p.parserBuffer ≠ [])
      (hshort : p.parserBuffer.length < p.currentChunkSize.toNat → turn n p = .error .outOfRange)
      (hlong : p.parserBuffer.length = p.currentChunkSize.toNat → ∃ expr, turn n p = .error (.assertion expr))

/-- The bytes acknowledged are those of the input. -/
theorem Reading.acknowledge (h : Reading trailers stream next n p) (hwait : p.Waiting p.parserBuffer)
    (hturn : turn n p = .ok (.inr (p.acknowledge n))) : Turns trailers stream next n p :=
  .waits hturn ⟨h.enabled, h.reached, h.counted, hwait, h.input⟩ rfl

theorem Reading.chunkHdr (h : Reading trailers stream next n p) (hne : p.parserBuffer ≠ []) (hstate : p.state = .chunkHdr) :
    Turns trailers stream next n p := by
  cases hfind : find crlf p.parserBuffer with
  | none =>
    refine h.acknowledge ?_ (turn_chunkHdr_none n hne hstate hfind)
    unfold Waiting
    rw [hstate]
    exact hfind
  | some it =>
    obtain ⟨line, post, hbuffer, hline, rfl⟩ := find_crlf_split hfind
    have hlen : line.length + 2 = (line ++ crlf).length := by rw [List.length_append, length_crlf]
    have htake : p.parserBuffer.take (line.length + 2) = line ++ crlf := by rw [hbuffer, hlen, List.take_left]
    have hdrop : p.parserBuffer.drop (line.length + 2) = post := by rw [hbuffer, hlen, List.drop_left]
    have hrest : p.parserBuffer ++ next = line ++ crlf ++ (post ++ next) := by rw [hbuffer, List.append_assoc]
    have hturn := turn_chunkHdr_some n hne hstate hfind
    unfold enterChunk at hturn
    rw [htake, hdrop] at hturn
    cases hsize : getChunkSize (line ++ crlf) with
    | error e =>
      rw [hsize] at hturn
      exact .badHeader hstate hrest hline hsize hturn
    | ok c =>
      rw [hsize] at hturn
      have hlength := congrArg List.length hbuffer
      rw [List.length_append, ← hlen] at hlength
      have hinput := h.input
      have hcounted := h.counted
      have hmove : Moves (p.place next) ⟨if c = 0 then .trailer else .chunk, c, post ++ next⟩ := by
        unfold place
        rw [hstate, hrest]
        exact .header hline hsize
      refine .goes hturn hmove ⟨h.enabled, h.reached.tail hmove, ?_, ?_, [], post, rfl, waiting_nil _, ?_⟩
      · rw [List.length_append] at hcounted
        simp only [List.length_append]
        omega
      · dsimp only
        omega
      · -- what was acknowledged before did not have the CRLF
        obtain ⟨kept, rest, hkept, hwait, hacked⟩ := h.ahead
        unfold Waiting at hwait
        rw [hstate] at hwait
        dsimp only at hwait
        have hlong := find_none_append (y := rest) hwait (by rw [← hkept]; exact hfind)
        rw [length_crlf] at hlong
        simp only [List.length_nil]
        omega

/-- A chunk that is in the buffer with two more bytes is left when they are a CRLF. -/
theorem leaveChunk_eq (hfit : p.currentChunkSize.toNat + 2 < 2 ^ 32) {data post : Bytes}
    (hlen : data.length = p.currentChunkSize.toNat) (hbuffer : p.parserBuffer = data ++ (crlf ++ post)) :
    p.leaveChunk = .ok { p with
      state := .chunkHdr
      parsedSoFar := p.parsedSoFar + (p.currentChunkSize.toNat + 2)
      parserBuffer := post } := by
  have hend : p.chunkEnd = p.currentChunkSize.toNat + 2 := Word.toNat_add_of_lt hfit
  have hdrop : (data ++ (crlf ++ post)).drop (data.length + 2) = post := by
    rw [← List.append_assoc, show data.length + 2 = (data ++ crlf).length by rw [List.length_append, length_crlf],
      List.drop_left]
  unfold leaveChunk substr
  rw [hend, ← hlen, hbuffer, if_pos (by rw [List.length_append]; omega), List.drop_left, hdrop]
  rfl

theorem leaveChunk_assertion (hnot : ¬ crlf <+: p.parserBuffer.drop p.currentChunkSize.toNat)
    (hlen : p.currentChunkSize.toNat ≤ p.parserBuffer.length) :
    p.leaveChunk = .error (.assertion "parser_buffer_.substr( current_chunk_size_, 2 ) == \"\\r\\n\"") := by
  have hne : (p.parserBuffer.drop p.currentChunkSize.toNat).take 2 ≠ crlf :=
    fun htake => hnot ⟨_, by rw [← htake, List.take_append_drop]⟩
  unfold leaveChunk substr check
  rw [if_pos hlen]
  dsimp only [orOutOfRange]
  rw [Run.ok_bind, decide_eq_false hne]
  rfl

theorem leaveChunk_outOfRange (hlen : p.parserBuffer.length < p.currentChunkSize.toNat) :
    p.leaveChunk = .error .outOfRange := by
  unfold leaveChunk substr
  rw [if_neg (not_le.2 hlen)]
  rfl

theorem Reading.chunk (h : Reading trailers stream next n p) (hne : p.parserBuffer ≠ []) (hstate : p.state = .chunk) :
    Turns trailers stream next n p := by
  have hturn := turn_chunk n hne hstate
  by_cases hfit : p.currentChunkSize.toNat + 2 < 2 ^ 32
  · have hend : p.chunkEnd = p.currentChunkSize.toNat + 2 := Word.toNat_add_of_lt hfit
    -- the chunk is all there, or the parser waits for the rest of it
    by_cases hall : p.currentChunkSize.toNat + 2 ≤ p.parserBuffer.length
    · rw [if_pos (by omega)] at hturn
      by_cases hcrlf : crlf <+: p.parserBuffer.drop p.currentChunkSize.toNat
      · obtain ⟨post, hpost⟩ := hcrlf
        have hdata : (p.parserBuffer.take p.currentChunkSize.toNat).length = p.currentChunkSize.toNat := by
          rw [List.length_take]
          omega
        have hbuffer : p.parserBuffer = p.parserBuffer.take p.currentChunkSize.toNat ++ (crlf ++ post) := by
          rw [hpost, List.take_append_drop]
        rw [leaveChunk_eq hfit hdata hbuffer] at hturn
        have hlen := congrArg List.length hbuffer
        rw [List.length_append, List.length_append, hdata, length_crlf] at hlen
        have hinput := h.input
        have hcounted := h.counted
        have hmove : Moves (p.place next) ⟨.chunkHdr, p.currentChunkSize, post ++ next⟩ := by
          unfold place
          rw [hstate, hbuffer, List.append_assoc, List.append_assoc]
          exact .data hdata hfit
        refine .goes hturn hmove ⟨h.enabled, h.reached.tail hmove, ?_, ?_, [], post, rfl, waiting_nil _, ?_⟩
        · rw [List.length_append] at hcounted
          simp only [List.length_append]
          omega
        · dsimp only
          omega
        · obtain ⟨kept, rest, hkept, hwait, hacked⟩ := h.ahead
          unfold Waiting at hwait
          rw [hstate] at hwait
          dsimp only at hwait
          have hlong : kept.length ≤ p.currentChunkSize.toNat + 2 := by
            rcases hwait with rfl | ⟨-, hshort⟩
            · exact Nat.zero_le _
            · exact hshort.le
          simp only [List.length_nil]
          omega
      · rw [leaveChunk_assertion hcrlf (by omega)] at hturn
        refine .badData hstate hfit hall (fun hmore => hcrlf ?_) hturn
        rw [List.drop_append_of_le_length (by omega)] at hmore
        exact List.prefix_of_prefix_length_le hmore (List.prefix_append _ _)
          (by rw [List.length_drop, length_crlf]; omega)
    · rw [if_neg (by omega)] at hturn
      refine h.acknowledge ?_ hturn
      unfold Waiting
      rw [hstate]
      exact Or.inr ⟨hfit, not_le.1 hall⟩
  -- a size that wraps: whatever is there is taken for the whole chunk
  · have hpos : 1 ≤ p.parserBuffer.length := List.length_pos_iff.2 hne
    have hsize := p.currentChunkSize.toNat_lt
    have hend : p.chunkEnd ≤ 1 := by
      unfold chunkEnd
      rw [UInt32.toNat_add]
      simp only [UInt32.reduceToNat]
      omega
    rw [if_pos (by omega)] at hturn
    refine .wraps hstate (not_lt.1 hfit) hne (fun hshort => ?_) fun hlong => ?_
    · rw [hturn, leaveChunk_outOfRange hshort]
      rfl
    · have hnot : ¬ crlf <+: p.parserBuffer.drop p.currentChunkSize.toNat := by
        rw [← hlong, List.drop_length]
        simp [crlf]
      rw [leaveChunk_assertion hnot hlong.ge] at hturn
      exact ⟨_, hturn⟩

theorem Reading.trailer (h : Reading trailers stream next n p) (hne : p.parserBuffer ≠ []) (hstate : p.state = .trailer) :
    Turns trailers stream next n p := by
  have hturn := turn_trailer n hne hstate
  cases hfind : find p.terminator p.parserBuffer with
  | none =>
    rw [computeAckSize_none n hfind] at hturn
    refine h.acknowledge ?_ hturn
    unfold Waiting
    rw [hstate]
    exact hfind
  | some loc =>
    obtain ⟨kept, rest, hkept, hwait, hacked⟩ := h.ahead
    unfold Waiting at hwait
    rw [hstate] at hwait
    dsimp only at hwait
    have hlong := find_none_append (y := rest) hwait (by rw [← hkept]; exact hfind)
    have hahead : p.ackedSoFar < p.parsedSoFar + (loc + p.terminator.length) := by omega
    rw [computeAckSize_some n hfind hahead] at hturn
    exact .completes hstate hfind hahead hturn

theorem Reading.turn (h : Reading trailers stream next n p) : Turns trailers stream next n p := by
  by_cases hempty : p.parserBuffer = []
  · refine h.acknowledge ?_ (turn_nil n hempty)
    rw [hempty]
    exact waiting_nil p
  · cases hstate : p.state with
    | chunkHdr => exact h.chunkHdr hempty hstate
    | chunk => exact h.chunk hempty hstate
    | trailer => exact h.trailer hempty hstate

/-! ## A call -/

/-- What ends the stream after the last header line. -/
def ending (trailers : Bool) : Bytes := if trailers then crlf ++ crlf else crlf

theorem terminator_eq (h : p.trailersEnabled = trailers) : p.terminator = ending trailers := by
  subst h
  rfl

/-- How a call of `read` ends, when `kept` bytes of its input and those before it have been parsed or kept: the place it
comes to is one the stream leads to, and so are those where it fails. -/
inductive Reads (trailers : Bool) (stream next : Bytes) (n : Nat) (p : ChunkedBodyParser) :
    Except Fault (Option Nat × ChunkedBodyParser) → Prop
  | waits {p' : ChunkedBodyParser} (h : Between trailers stream next p') (hlead : Leads (p.place next) (p'.place next)) :
      Reads trailers stream next n p (.ok (none, p'))
  | completes {size : UInt32} {tail : Bytes} {loc count : Nat} {p' : ChunkedBodyParser}
      (hlead : Leads (p.place next) ⟨.trailer, size, tail⟩) (hstart : Leads (start stream) ⟨.trailer, size, tail⟩)
      (hfind : find (ending trailers) tail = some loc)
      (hcount : p.ackedSoFar + count + tail.length = stream.length + (loc + (ending trailers).length))
      (hpos : 0 < count) (hle : count ≤ n) : Reads trailers stream next n p (.ok (some count, p'))
  | badHeader {size : UInt32} {line rest : Bytes} {e : Fault}
      (hlead : Leads (p.place next) ⟨.chunkHdr, size, line ++ crlf ++ rest⟩)
      (hline : find crlf line = none) (hsize : getChunkSize (line ++ crlf) = .error e) :
      Reads trailers stream next n p (.error e)
  | badData {size : UInt32} {rest : Bytes} {expr : String} (hlead : Leads (p.place next) ⟨.chunk, size, rest⟩)
      (hfit : size.toNat + 2 < 2 ^ 32) (hlen : size.toNat + 2 ≤ rest.length) (hnot : ¬ crlf <+: rest.drop size.toNat) :
      Reads trailers stream next n p (.error (.assertion expr))
  | wraps {size : UInt32} {rest : Bytes} {result : Except Fault (Option Nat × ChunkedBodyParser)}
      (hlead : Leads (p.place next) ⟨.chunk, size, rest⟩) (hwrap : 2 ^ 32 ≤ size.toNat + 2)
      (hshort : rest.length < size.toNat → result = .error .outOfRange)
      (hlong : next = [] → rest.length = size.toNat → ∃ expr, result = .error (.assertion expr)) :
      Reads trailers stream next n p result

theorem Reads.cons {p p' : ChunkedBodyParser} {result : Except Fault (Option Nat × ChunkedBodyParser)}
    (hmove : Moves (p.place next) (p'.place next)) (hacked : p'.ackedSoFar = p.ackedSoFar)
    (h : Reads trailers stream next n p' result) : Reads trailers stream next n p result := by
  cases h with
  | waits h hlead => exact .waits h (hlead.head hmove)
  | completes hlead hstart hfind hcount hpos hle =>
    rw [hacked] at hcount
    exact .completes (hlead.head hmove) hstart hfind hcount hpos hle
  | badHeader hlead hline hsize => exact .badHeader (hlead.head hmove) hline hsize
  | badData hlead hfit hlen hnot => exact .badData (hlead.head hmove) hfit hlen hnot
  | wraps hlead hwrap hshort hlong => exact .wraps (hlead.head hmove) hwrap hshort hlong

theorem Reading.readLoop (h : Reading trailers stream next n p) : Reads trailers stream next n p (p.readLoop n) := by
  induction hm : p.size using Nat.strong_induction_on generalizing p with
  | _ m ih =>
    subst hm
    unfold ChunkedBodyParser.readLoop
    have hinput := h.input
    have hcounted := h.counted
    rw [List.length_append] at hcounted
    -- one case for each way a turn can end; after a move the loop goes on with less to read
    cases h.turn with
    | @goes p' hturn hmove h' =>
      have hinput' := h'.input
      have hcounted' := h'.counted
      rw [List.length_append] at hcounted'
      rw [Loop.whole_inl (turn_lowers n) hturn]
      exact (ih _ (turn_lowers n _ _ hturn) h' rfl).cons hmove (by omega)
    | waits hturn h' hsame =>
      rw [Loop.whole_inr hturn]
      exact .waits h' (by rw [hsame]; exact .refl)
    | @completes loc p' hstate hfind hahead hturn =>
      have hterm := terminator_eq h.enabled
      have hplace : p.place next = ⟨.trailer, p.currentChunkSize, p.parserBuffer ++ next⟩ := by
        unfold place
        rw [hstate]
      have hbound := find_bound hfind
      rw [Loop.whole_inr hturn]
      rw [hterm] at hfind hahead hbound ⊢
      exact .completes (hplace ▸ .refl) (hplace ▸ h.reached) (find_append next hfind)
        (by rw [List.length_append]; omega) (by omega) (by omega)
    | @badHeader line rest e hstate hrest hline hsize hturn =>
      rw [Loop.whole_error hturn]
      refine .badHeader (show Leads _ ⟨.chunkHdr, p.currentChunkSize, line ++ crlf ++ rest⟩ from ?_) hline hsize
      unfold place
      rw [hstate, hrest]
      exact .refl
    | badData hstate hfit hlen hnot hturn =>
      rw [Loop.whole_error hturn]
      refine .badData ?_ hfit (by rw [List.length_append]; omega) hnot
      unfold place
      rw [hstate]
      exact .refl
    | wraps hstate hwrap _ hshort hlong =>
      refine .wraps (show Leads _ ⟨.chunk, _, p.parserBuffer ++ next⟩ from ?_) hwrap (fun hlt => ?_) fun hnil heq => ?_
      · unfold place
        rw [hstate]
        exact .refl
      · rw [List.length_append] at hlt
        exact Loop.whole_error (hshort (by omega))
      · rw [hnil, List.append_nil] at heq
        obtain ⟨expr, hturn⟩ := hlong heq
        exact ⟨expr, Loop.whole_error hturn⟩

/-- What a call does. -/
theorem Between.read (h : Between trailers stream (piece ++ next) p) :
    Reads trailers stream next piece.length { p with parserBuffer := p.parserBuffer ++ piece } (p.read piece) :=
  h.reading.readLoop

theorem Between.place_eq (piece next : Bytes) (p : ChunkedBodyParser) :
    ({ p with parserBuffer := p.parserBuffer ++ piece } : ChunkedBodyParser).place next = p.place (piece ++ next) := by
  unfold place
  rw [List.append_assoc]

/-- So many bytes have been read. -/
theorem Between.acked (h : Between trailers stream next p) : p.ackedSoFar + next.length = stream.length := by
  have hcounters := h.quiet.counters
  have hcounted := h.counted
  rw [List.length_append] at hcounted
  omega

/-! ## Streams with a last chunk -/

section

variable {size : UInt32} {tail : Bytes}

theorem Leads.trailer_unique {a : Place} {size' : UInt32} {tail' : Bytes} (h : Leads a ⟨.trailer, size, tail⟩)
    (h' : Leads a ⟨.trailer, size', tail'⟩) : tail = tail' := by
  rcases ReflTransGen.cases_head (h.to_trailer h' rfl) with heq | ⟨b, hmove, -⟩
  · exact (Place.mk.inj heq).2.2
  · cases hmove

/-- Where a stream has a last chunk no call fails, and the end is found where it is in the tail. -/
theorem Between.toward (h : Between trailers stream (piece ++ next) p)
    (htail : Leads (start stream) ⟨.trailer, size, tail⟩) :
    (∃ p', p.read piece = .ok (none, p') ∧ Between trailers stream next p') ∨
    ∃ loc count p', p.read piece = .ok (some count, p') ∧ find (ending trailers) tail = some loc ∧
      p.ackedSoFar + count + tail.length = stream.length + (loc + (ending trailers).length) ∧ 0 < count ∧
      count ≤ piece.length := by
  have hread := h.read
  -- a place on the way is one from which the trailer is reached still
  have hon : ∀ {b : Place}, Leads (p.place (piece ++ next)) b → Leads b ⟨.trailer, size, tail⟩ :=
    fun hb => Leads.to_trailer (h.reached.trans hb) htail rfl
  generalize p.read piece = result at hread
  cases hread with
  | waits h' _ => exact Or.inl ⟨_, rfl, h'⟩
  | completes _ hstart hfind hcount hpos hle =>
    obtain rfl := hstart.trailer_unique htail
    exact Or.inr ⟨_, _, _, rfl, hfind, hcount, hpos, hle⟩
  -- a line that cannot be read is on no way to the trailer
  | badHeader hlead hline hsize =>
    rw [Between.place_eq] at hlead
    rcases ReflTransGen.cases_head (hon hlead) with heq | ⟨b, hmove, -⟩
    · cases heq
    · generalize hrest : _ ++ crlf ++ _ = rest at hmove
      cases hmove with
      | header hline' hsize' =>
        obtain ⟨rfl, -⟩ := line_unique hline hline' hrest
        rw [hsize] at hsize'
        cases hsize'
  | badData hlead hfit hlen hnot =>
    rw [Between.place_eq] at hlead
    rcases ReflTransGen.cases_head (hon hlead) with heq | ⟨b, hmove, -⟩
    · cases heq
    · cases hmove with
      | data hdata _ =>
        rw [← hdata, List.drop_left] at hnot
        exact absurd (List.prefix_append _ _) hnot
  | wraps hlead hwrap _ _ =>
    rw [Between.place_eq] at hlead
    rcases ReflTransGen.cases_head (hon hlead) with heq | ⟨b, hmove, -⟩
    · cases heq
    · cases hmove with
      | data _ hfit => omega

/-- What has been read between two calls does not reach the end. -/
theorem Between.before_end {loc : Nat} (h : Between trailers stream next p)
    (htail : Leads (start stream) ⟨.trailer, size, tail⟩) (hfind : find (ending trailers) tail = some loc) :
    p.ackedSoFar + tail.length < stream.length + (loc + (ending trailers).length) := by
  have hacked := h.acked
  have hlen : 0 < (ending trailers).length := by cases trailers <;> decide
  have hwait := h.quiet.waiting
  rcases ReflTransGen.cases_head (h.reached.to_trailer htail rfl) with heq | ⟨b, hmove, hlead⟩
  · obtain ⟨hstate, -, rfl⟩ := Place.mk.inj heq
    have hterm := terminator_eq h.enabled
    unfold Waiting at hwait
    rw [hstate] at hwait
    dsimp only at hwait
    rw [hterm] at hwait
    have hlong := find_none_append hwait hfind
    rw [List.length_append]
    omega
  · have hnext := Waiting.next_le hwait hmove
    have hrest : tail.length ≤ b.rest.length := Leads.rest_le hlead
    omega

/-- The pieces up to the one that holds the end of a stream that has one. -/
theorem Between.feed {loc last : Nat} (htail : Leads (start stream) ⟨.trailer, size, tail⟩)
    (hfind : find (ending trailers) tail = some loc) (hlast : last + tail.length = stream.length + (loc + (ending trailers).length)) :
    ∀ {pieces : List Bytes} {p : ChunkedBodyParser}, Between trailers stream pieces.flatten p →
    ∃ before piece after p₁ p₂, pieces = before ++ piece :: after ∧
      before.flatten.length < last - p.ackedSoFar ∧
      last - p.ackedSoFar ≤ before.flatten.length + piece.length ∧
      Run.steps ChunkedBodyParser.read p before = .ok (List.replicate before.length none, p₁) ∧
      p₁.read piece = .ok (some (last - p.ackedSoFar - before.flatten.length), p₂)
  | [], p, h => by
    have hbefore := h.before_end htail hfind
    have hacked := h.acked
    have hbound := find_bound hfind
    simp only [List.flatten_nil, List.length_nil] at hacked
    omega
  | x :: pieces, p, h => by
    have hbefore := h.before_end htail hfind
    have hacked := h.acked
    rw [List.flatten_cons] at h hacked
    rw [List.length_append] at hacked
    -- the piece is used up with the end ahead, or the end is in it
    rcases h.toward htail with ⟨p', hread, h'⟩ | ⟨loc', count, p', hread, hfind', hcount, hpos, hle⟩
    · have hbefore' := h'.before_end htail hfind
      have hacked' := h'.acked
      obtain ⟨before, piece, after, p₁, p₂, rfl, hlt, hle, hsteps, hend⟩ := Between.feed htail hfind hlast h'
      refine ⟨x :: before, piece, after, p₁, p₂, rfl, ?_, ?_, Run.steps_cons hread hsteps, ?_⟩
      · rw [List.flatten_cons, List.length_append]; omega
      · rw [List.flatten_cons, List.length_append]; omega
      · rw [hend, List.flatten_cons, List.length_append]
        congr 3
        omega
    · rw [hfind] at hfind'
      cases hfind'
      rw [show count = last - p.ackedSoFar by omega] at hread hle
      exact ⟨[], x, pieces, p, p', rfl, by simp only [List.flatten_nil, List.length_nil]; omega,
        by simp only [List.flatten_nil, List.length_nil]; omega, rfl, hread⟩

/-- Where there is no end all pieces are waited for. -/
theorem Between.waits (htail : Leads (start stream) ⟨.trailer, size, tail⟩) (hnone : find (ending trailers) tail = none) :
    ∀ {pieces : List Bytes} {p : ChunkedBodyParser}, Between trailers stream pieces.flatten p →
      ∃ p', Run.steps ChunkedBodyParser.read p pieces = .ok (List.replicate pieces.length none, p')
  | [], p, _ => ⟨p, rfl⟩
  | x :: pieces, p, h => by
    rw [List.flatten_cons] at h
    rcases h.toward htail with ⟨p', hread, h'⟩ | ⟨loc, count, p', -, hfind, -⟩
    · obtain ⟨p'', hrest⟩ := Between.waits htail hnone h'
      exact ⟨p'', Run.steps_cons hread hrest⟩
    · rw [hnone] at hfind
      cases hfind

/-- Pieces that are all waited for. -/
theorem Between.steps (htail : Leads (start stream) ⟨.trailer, size, tail⟩) :
    ∀ {before : List Bytes} {p p' : ChunkedBodyParser}, Between trailers stream (before.flatten ++ next) p →
      Run.steps ChunkedBodyParser.read p before = .ok (List.replicate before.length none, p') → Between trailers stream next p'
  | [], p, p', h, hsteps => by
    cases hsteps
    exact h
  | x :: before, p, p', h, hsteps => by
    obtain ⟨out, p₁, outs, hread, hrest, hout⟩ := Run.steps_cons_ok hsteps
    obtain ⟨rfl, rfl⟩ := List.cons.inj hout
    rw [List.flatten_cons, List.append_assoc] at h
    rcases h.toward htail with ⟨p₂, hread', h'⟩ | ⟨loc, count, p₂, hread', -⟩
    · rw [hread] at hread'
      cases hread'
      exact Between.steps htail h' hrest
    · rw [hread] at hread'
      cases hread'

end

end

end AbcMahimahi.Http.ChunkedBodyParser
