/-
A chunked body read in pieces: reading one byte and then the rest gives what reading both at once
gives, with one byte more counted in the second call. The exception is a chunk whose size and CRLF
do not fit in a 32-bit word: its first byte alone fails, and a piece that holds the whole chunk may
not.
-/
import AbcMahimahi.Http.Chunked
import AbcMahimahi.Lib.Word

namespace AbcMahimahi.Http.ChunkedBodyParser

open Bytes

/-! ## Between two calls -/

/-- The bytes kept do not complete what the state waits for. In a chunk whose end wraps around there
are none, for the first one fails. -/
def Waiting (p : ChunkedBodyParser) (kept : Bytes) : Prop :=
  match p.state with
  | .chunkHdr => find crlf kept = none
  | .chunk => kept = [] ∨ p.currentChunkSize.toNat + 2 < 2 ^ 32 ∧ kept.length < p.currentChunkSize.toNat + 2
  | .trailer => find p.terminator kept = none

/-- Between two calls of `read`. -/
structure Quiet (p : ChunkedBodyParser) : Prop where
  waiting : p.Waiting p.parserBuffer
  counters : p.parsedSoFar + p.parserBuffer.length = p.ackedSoFar

/-- The parser is at the start of a chunk whose end wraps around, and the stream goes on with as many
bytes as the chunk has and a CRLF. -/
def AtWrappingChunk (p : ChunkedBodyParser) (stream : Bytes) : Prop :=
  p.state = .chunk ∧ p.parserBuffer = [] ∧ 2 ^ 32 ≤ p.currentChunkSize.toNat + 2 ∧
    crlf <+: stream.drop p.currentChunkSize.toNat

instance (p : ChunkedBodyParser) (stream : Bytes) : Decidable (p.AtWrappingChunk stream) :=
  inferInstanceAs (Decidable (_ ∧ _ ∧ _ ∧ _))

theorem waiting_nil (p : ChunkedBodyParser) : p.Waiting [] := by
  unfold Waiting
  split
  · rfl
  · exact Or.inl rfl
  · unfold terminator
    split <;> rfl

theorem quiet_start (trailers : Bool) : Quiet { trailersEnabled := trailers } := ⟨rfl, rfl⟩

theorem read_nil {p : ChunkedBodyParser} (h : p.Quiet) : p.read [] = .ok (none, p) := by
  have hwait := h.waiting
  unfold Waiting at hwait
  have hturn : turn 0 p = .ok (.inr (p.acknowledge 0)) := by
    by_cases hne : p.parserBuffer = []
    · exact turn_nil 0 hne
    cases hstate : p.state with
    | chunkHdr =>
      rw [hstate] at hwait
      rw [turn_chunkHdr 0 hne hstate, hwait]; rfl
    | chunk =>
      rw [hstate] at hwait
      obtain ⟨hfit, hshort⟩ := hwait.resolve_left hne
      have hend : p.chunkEnd = p.currentChunkSize.toNat + 2 := Word.toNat_add_of_lt hfit
      rw [turn_chunk 0 hne hstate, if_neg (by omega)]; rfl
    | trailer =>
      rw [hstate] at hwait
      rw [turn_trailer 0 hne hstate]
      unfold computeAckSize
      rw [hwait]; rfl
  unfold read
  rw [List.append_nil]
  exact Loop.whole_inr hturn

/-! ## One byte less to acknowledge -/

def withAcked (p : ChunkedBodyParser) (acked : Nat) : ChunkedBodyParser := { p with ackedSoFar := acked }

/-- What is acknowledged ends within bytes that complete nothing, or before. -/
def Ahead (p : ChunkedBodyParser) (acked : Nat) : Prop :=
  ∃ kept rest, p.parserBuffer = kept ++ rest ∧ p.Waiting kept ∧ acked ≤ p.parsedSoFar + kept.length

/-- Both fail, none finds the end of the body, or the first counts one byte more. -/
inductive Shifted : Except Fault (Option Nat × ChunkedBodyParser) → Except Fault (Option Nat × ChunkedBodyParser) → Prop
  | none (p : ChunkedBodyParser) : Shifted (.ok (none, p)) (.ok (none, p))
  | some (n : Nat) (p p' : ChunkedBodyParser) : Shifted (.ok (some (n + 1), p)) (.ok (some n, p'))
  | error (e e' : Fault) : Shifted (.error e) (.error e')

theorem enterChunk_withAcked (p : ChunkedBodyParser) (acked it : Nat) :
    (p.withAcked acked).enterChunk it = (withAcked · acked) <$> p.enterChunk it := by
  unfold enterChunk
  rw [show (p.withAcked acked).parserBuffer = p.parserBuffer from rfl]
  cases getChunkSize (p.parserBuffer.take (it + 2)) <;> rfl

theorem leaveChunk_withAcked (p : ChunkedBodyParser) (acked : Nat) :
    (p.withAcked acked).leaveChunk = (withAcked · acked) <$> p.leaveChunk := by
  unfold leaveChunk
  rw [show (p.withAcked acked).parserBuffer = p.parserBuffer from rfl,
    show (p.withAcked acked).currentChunkSize = p.currentChunkSize from rfl]
  cases orOutOfRange (substr p.parserBuffer p.currentChunkSize.toNat 2) with
  | error e => rfl
  | ok ending =>
    simp only [Run.ok_bind]
    cases check "parser_buffer_.substr( current_chunk_size_, 2 ) == \"\\r\\n\"" (ending = crlf) <;> rfl

/-- A turn with one byte more in the input and one less acknowledged before. -/
theorem turn_shift {p : ChunkedBodyParser} {n acked : Nat} (h : Ahead p (acked + 1)) :
    (∃ q, turn (n + 1) (p.withAcked acked) = .ok (.inl (q.withAcked acked)) ∧
      turn n (p.withAcked (acked + 1)) = .ok (.inl (q.withAcked (acked + 1))) ∧ Ahead q (acked + 1)) ∨
    (∃ r r', turn (n + 1) (p.withAcked acked) = .ok (.inr r) ∧ turn n (p.withAcked (acked + 1)) = .ok (.inr r') ∧
      Shifted (.ok r) (.ok r')) ∨
    ∃ e, turn (n + 1) (p.withAcked acked) = .error e ∧ turn n (p.withAcked (acked + 1)) = .error e := by
  obtain ⟨kept, rest, hpb, hwait, hacked⟩ := h
  -- to acknowledge more bytes from fewer acknowledged ones comes to the same
  have hack : Shifted (.ok ((p.withAcked acked).acknowledge (n + 1))) (.ok ((p.withAcked (acked + 1)).acknowledge n)) := by
    have hsame : (p.withAcked acked).acknowledge (n + 1) = (p.withAcked (acked + 1)).acknowledge n := by
      unfold acknowledge withAcked
      simp only [Nat.add_comm n 1, Nat.add_assoc]
    rw [hsame]
    exact .none _
  by_cases hempty : p.parserBuffer = []
  · exact Or.inr (Or.inl ⟨_, _, turn_nil _ hempty, turn_nil _ hempty, hack⟩)
  unfold Waiting at hwait
  cases hstate : p.state with
  | chunkHdr =>
    rw [hstate] at hwait
    cases hfind : find crlf p.parserBuffer with
    | none =>
      exact Or.inr (Or.inl ⟨_, _, turn_chunkHdr_none _ hempty hstate hfind, turn_chunkHdr_none _ hempty hstate hfind, hack⟩)
    | some it =>
      have hturn : ∀ m a, turn m (p.withAcked a) = .inl <$> (p.withAcked a).enterChunk it :=
        fun m a => turn_chunkHdr_some (p := p.withAcked a) m hempty hstate hfind
      rw [hturn, hturn, enterChunk_withAcked, enterChunk_withAcked]
      cases henter : p.enterChunk it with
      | error e => exact Or.inr (Or.inr ⟨e, rfl, rfl⟩)
      | ok q =>
        refine Or.inl ⟨q, rfl, rfl, [], _, rfl, waiting_nil _, ?_⟩
        -- what was kept had no CRLF, so the first one ends behind it
        have hlong := find_none_append (y := rest) (i := it) hwait (by rw [← hpb]; exact hfind)
        rw [length_crlf] at hlong
        obtain ⟨size, -, rfl⟩ := enterChunk_ok henter
        simp only [List.length_nil]
        omega
  | chunk =>
    rw [hstate] at hwait
    have hturn : ∀ m a, turn m (p.withAcked a) = if p.chunkEnd ≤ p.parserBuffer.length then
        .inl <$> (p.withAcked a).leaveChunk else pure (.inr ((p.withAcked a).acknowledge m)) :=
      fun m a => turn_chunk m hempty hstate
    rw [hturn, hturn]
    split
    · rw [leaveChunk_withAcked, leaveChunk_withAcked]
      cases hleave : p.leaveChunk with
      | error e => exact Or.inr (Or.inr ⟨e, rfl, rfl⟩)
      | ok q =>
        refine Or.inl ⟨q, rfl, rfl, [], _, rfl, waiting_nil _, ?_⟩
        -- what was kept was not yet a whole chunk
        have hlong : kept.length ≤ p.chunkEnd := by
          rcases hwait with rfl | ⟨hfit, hshort⟩
          · exact Nat.zero_le _
          · have hend : p.chunkEnd = p.currentChunkSize.toNat + 2 := Word.toNat_add_of_lt hfit
            omega
        obtain ⟨-, rfl⟩ := leaveChunk_ok hleave
        simp only [List.length_nil]
        omega
    · exact Or.inr (Or.inl ⟨_, _, rfl, rfl, hack⟩)
  | trailer =>
    rw [hstate] at hwait
    have hturn : ∀ m a, turn m (p.withAcked a) =
        .inr <$> (p.withAcked a).computeAckSize p.parserBuffer p.terminator m := fun m a => turn_trailer m hempty hstate
    rw [hturn, hturn]
    cases hfind : find p.terminator p.parserBuffer with
    | none =>
      rw [computeAckSize_none _ hfind, computeAckSize_none _ hfind]
      exact Or.inr (Or.inl ⟨_, _, rfl, rfl, hack⟩)
    | some loc =>
      have hlong := find_none_append (y := rest) (i := loc) hwait (by rw [← hpb]; exact hfind)
      have h₁ := computeAckSize_some (p := p.withAcked acked) (n + 1) hfind (by dsimp only [withAcked]; omega)
      have h₂ := computeAckSize_some (p := p.withAcked (acked + 1)) n hfind (by dsimp only [withAcked]; omega)
      refine Or.inr (Or.inl ⟨_, _, congrArg (Sum.inr <$> ·) h₁, congrArg (Sum.inr <$> ·) h₂, ?_⟩)
      dsimp only [withAcked]
      rw [show p.parsedSoFar + (loc + p.terminator.length) - acked =
        p.parsedSoFar + (loc + p.terminator.length) - (acked + 1) + 1 by omega]
      exact .some _ _ _

/-- The loop with one byte more in the input and one less acknowledged before. -/
theorem readLoop_shift {n acked : Nat} : ∀ {p : ChunkedBodyParser}, Ahead p (acked + 1) →
    Shifted ((p.withAcked acked).readLoop (n + 1)) ((p.withAcked (acked + 1)).readLoop n) := by
  intro p h
  induction hm : (p.withAcked acked).size using Nat.strong_induction_on generalizing p with
  | _ m ih =>
    subst hm
    unfold readLoop
    rcases turn_shift (n := n) h with ⟨q, h₁, h₂, hq⟩ | ⟨r, r', h₁, h₂, hr⟩ | ⟨e, h₁, h₂⟩
    · rw [Loop.whole_inl (turn_lowers _) h₁, Loop.whole_inl (turn_lowers _) h₂]
      exact ih _ (turn_lowers _ _ _ h₁) hq rfl
    · rw [Loop.whole_inr h₁, Loop.whole_inr h₂]
      exact hr
    · rw [Loop.whole_error h₁, Loop.whole_error h₂]
      exact .error _ _

/-! ## One byte and the rest -/

/-- What reading one byte `b` alone says of reading it with more after it. -/
inductive ByteSpec (p : ChunkedBodyParser) (b : UInt8) (rest : Bytes) : Prop
  | fails {e e' : Fault} (hbyte : p.read [b] = .error e) (hall : p.read (b :: rest) = .error e')
  | ends {p₁ p₂ : ChunkedBodyParser} (hbyte : p.read [b] = .ok (some 1, p₁)) (hall : p.read (b :: rest) = .ok (some 1, p₂))
  | goes {p₁ : ChunkedBodyParser} (hbyte : p.read [b] = .ok (none, p₁)) (hquiet : p₁.Quiet)
      (hall : Shifted (p.read (b :: rest)) (p₁.read rest))

/-- The bytes kept with one byte more, which is all of the input. -/
theorem read_eq (p : ChunkedBodyParser) (piece : Bytes) :
    p.read piece = ({ p with parserBuffer := p.parserBuffer ++ piece } : ChunkedBodyParser).readLoop piece.length := rfl

theorem cons_ne_nil (x : Bytes) (b : UInt8) (rest : Bytes) : x ++ b :: rest ≠ [] := by simp

/-- While the state goes on waiting, the byte is kept. -/
theorem byteSpec_wait {p : ChunkedBodyParser} {b : UInt8} {rest : Bytes} (h : p.Quiet)
    (hturn : turn 1 { p with parserBuffer := p.parserBuffer ++ [b] } =
      .ok (.inr (({ p with parserBuffer := p.parserBuffer ++ [b] } : ChunkedBodyParser).acknowledge 1)))
    (hwait : p.Waiting (p.parserBuffer ++ [b])) : ByteSpec p b rest := by
  have hcount := h.counters
  refine @ByteSpec.goes p b rest { p with parserBuffer := p.parserBuffer ++ [b], ackedSoFar := p.ackedSoFar + 1 }
    (Loop.whole_inr hturn) ⟨hwait, ?_⟩ ?_
  · simp only [List.length_append, List.length_singleton]; omega
  · have hshift := @readLoop_shift rest.length p.ackedSoFar { p with parserBuffer := p.parserBuffer ++ [b] ++ rest }
      ⟨p.parserBuffer ++ [b], rest, rfl, hwait, by simp only [List.length_append, List.length_singleton]; omega⟩
    rw [read_eq, read_eq, show p.parserBuffer ++ b :: rest = p.parserBuffer ++ [b] ++ rest by simp, List.length_cons]
    exact hshift

/-- When the byte is the last one of what the state waits for, the rest starts afresh. -/
theorem byteSpec_go {p q : ChunkedBodyParser} {b : UInt8} {rest : Bytes}
    (hacked : q.ackedSoFar = p.ackedSoFar) (hparsed : q.parsedSoFar = p.ackedSoFar + 1) (hbuffer : q.parserBuffer = [])
    (hturn : turn 1 { p with parserBuffer := p.parserBuffer ++ [b] } = .ok (.inl q))
    (hall : turn (rest.length + 1) { p with parserBuffer := p.parserBuffer ++ b :: rest } =
      .ok (.inl { q with parserBuffer := rest })) : ByteSpec p b rest := by
  refine @ByteSpec.goes p b rest { q with ackedSoFar := p.ackedSoFar + 1 } ?_ ⟨?_, ?_⟩ ?_
  · refine (Loop.whole_inl (turn_lowers _) hturn).trans ?_
    refine (Loop.whole_inr (turn_nil 1 hbuffer)).trans ?_
    unfold acknowledge
    rw [hacked]
  · rw [hbuffer]; exact waiting_nil _
  · simp only [hbuffer, hparsed, List.length_nil, Nat.add_zero]
  · have hshift := @readLoop_shift rest.length p.ackedSoFar { q with parserBuffer := rest }
      ⟨[], rest, rfl, waiting_nil _, by simp only [hparsed]; omega⟩
    have hwith : ({ q with parserBuffer := rest } : ChunkedBodyParser).withAcked p.ackedSoFar = { q with parserBuffer := rest } := by
      unfold withAcked
      rw [← hacked]
    rw [hwith] at hshift
    rw [read_eq, read_eq]
    have hfirst : ({ p with parserBuffer := p.parserBuffer ++ b :: rest } : ChunkedBodyParser).readLoop (b :: rest).length =
        ({ q with parserBuffer := rest } : ChunkedBodyParser).readLoop (rest.length + 1) := Loop.whole_inl (turn_lowers _) hall
    rw [hfirst]
    simp only [hbuffer, List.nil_append]
    exact hshift

/-- A delimiter that ends with the byte and was not there before ends at it. -/
theorem find_at_end {needle kept : Bytes} {b : UInt8} {it : Nat} (hkept : find needle kept = none)
    (h : find needle (kept ++ [b]) = some it) : it + needle.length = kept.length + 1 := by
  have hlong := find_none_append hkept h
  have hbound := find_bound h
  rw [List.length_append, List.length_singleton] at hbound
  omega

theorem byteSpec_chunkHdr {p : ChunkedBodyParser} {b : UInt8} {rest : Bytes} (h : p.Quiet) (hstate : p.state = .chunkHdr) :
    ByteSpec p b rest := by
  have hwait := h.waiting
  have hcount := h.counters
  unfold Waiting at hwait
  rw [hstate] at hwait
  have hbyte := turn_chunkHdr (p := { p with parserBuffer := p.parserBuffer ++ [b] }) 1 (cons_ne_nil _ _ _) hstate
  have hall := turn_chunkHdr (p := { p with parserBuffer := p.parserBuffer ++ b :: rest }) (rest.length + 1)
    (cons_ne_nil _ _ _) hstate
  dsimp only at hbyte hall
  cases hfind : find crlf (p.parserBuffer ++ [b]) with
  | none =>
    rw [hfind] at hbyte
    refine byteSpec_wait h hbyte ?_
    unfold Waiting
    rw [hstate]
    exact hfind
  | some it =>
    have hend := find_at_end hwait hfind
    rw [length_crlf] at hend
    -- the line that ends with this byte is the first line of the whole piece too
    have hfind' : find crlf (p.parserBuffer ++ b :: rest) = some it := by
      rw [show p.parserBuffer ++ b :: rest = p.parserBuffer ++ [b] ++ rest by simp]
      exact find_append rest hfind
    have hlen : it + 2 = (p.parserBuffer ++ [b]).length := by rw [List.length_append, List.length_singleton]; omega
    have htake : (p.parserBuffer ++ b :: rest).take (it + 2) = (p.parserBuffer ++ [b]).take (it + 2) := by
      rw [show p.parserBuffer ++ b :: rest = p.parserBuffer ++ [b] ++ rest by simp, hlen, List.take_left, List.take_length]
    have hdrop : (p.parserBuffer ++ b :: rest).drop (it + 2) = rest := by
      rw [show p.parserBuffer ++ b :: rest = p.parserBuffer ++ [b] ++ rest by simp, hlen, List.drop_left]
    rw [hfind] at hbyte
    rw [hfind'] at hall
    unfold enterChunk at hbyte hall
    dsimp only at hbyte hall
    rw [htake, hdrop] at hall
    cases hsize : getChunkSize ((p.parserBuffer ++ [b]).take (it + 2)) with
    | error e =>
      rw [hsize] at hbyte hall
      exact .fails (Loop.whole_error hbyte) (Loop.whole_error hall)
    | ok size =>
      rw [hsize] at hbyte hall
      refine byteSpec_go ?_ ?_ ?_ hbyte hall
      · rfl
      · dsimp only; omega
      · dsimp only; rw [hlen, List.drop_length]

theorem byteSpec_trailer {p : ChunkedBodyParser} {b : UInt8} {rest : Bytes} (h : p.Quiet) (hstate : p.state = .trailer) :
    ByteSpec p b rest := by
  have hwait := h.waiting
  have hcount := h.counters
  unfold Waiting at hwait
  rw [hstate] at hwait
  have hbyte := turn_trailer (p := { p with parserBuffer := p.parserBuffer ++ [b] }) 1 (cons_ne_nil _ _ _) hstate
  have hall := turn_trailer (p := { p with parserBuffer := p.parserBuffer ++ b :: rest }) (rest.length + 1)
    (cons_ne_nil _ _ _) hstate
  have hterm : ∀ x : Bytes, ({ p with parserBuffer := x } : ChunkedBodyParser).terminator = p.terminator := fun _ => rfl
  simp only [hterm] at hbyte hall
  cases hfind : find p.terminator (p.parserBuffer ++ [b]) with
  | none =>
    rw [computeAckSize_none 1 hfind] at hbyte
    refine byteSpec_wait h hbyte ?_
    unfold Waiting
    rw [hstate]
    exact hfind
  | some loc =>
    have hend := find_at_end hwait hfind
    -- so is the end that is found with this byte
    have hfind' : find p.terminator (p.parserBuffer ++ b :: rest) = some loc := by
      rw [show p.parserBuffer ++ b :: rest = p.parserBuffer ++ [b] ++ rest by simp]
      exact find_append rest hfind
    rw [computeAckSize_some 1 hfind (by dsimp only; omega)] at hbyte
    rw [computeAckSize_some _ hfind' (by dsimp only; omega)] at hall
    have hone : p.parsedSoFar + (loc + p.terminator.length) - p.ackedSoFar = 1 := by omega
    dsimp only at hbyte hall
    rw [hone] at hbyte hall
    exact .ends (Loop.whole_inr hbyte) (Loop.whole_inr hall)

/-- Leaving a chunk looks at the bytes up to its CRLF only. -/
theorem leaveChunk_fails {p : ChunkedBodyParser} (h : ¬ crlf <+: p.parserBuffer.drop p.currentChunkSize.toNat) :
    ∃ e, p.leaveChunk = .error e := by
  cases hleave : p.leaveChunk with
  | error e => exact ⟨e, rfl⟩
  | ok q =>
    obtain ⟨hsub, -⟩ := leaveChunk_ok hleave
    unfold substr at hsub
    split at hsub
    · have htake := Option.some.inj hsub
      exact absurd ⟨_, by rw [← htake, List.take_append_drop]⟩ h
    · cases hsub

theorem byteSpec_chunk {p : ChunkedBodyParser} {b : UInt8} {rest : Bytes} (h : p.Quiet) (hstate : p.state = .chunk)
    (hsafe : ¬ p.AtWrappingChunk (b :: rest)) : ByteSpec p b rest := by
  have hwait := h.waiting
  have hcount := h.counters
  unfold Waiting at hwait
  rw [hstate] at hwait
  have hbyte := turn_chunk (p := { p with parserBuffer := p.parserBuffer ++ [b] }) 1 (cons_ne_nil _ _ _) hstate
  have hall := turn_chunk (p := { p with parserBuffer := p.parserBuffer ++ b :: rest }) (rest.length + 1)
    (cons_ne_nil _ _ _) hstate
  have hend : ∀ x : Bytes, ({ p with parserBuffer := x } : ChunkedBodyParser).chunkEnd = p.chunkEnd := fun _ => rfl
  simp only [hend] at hbyte hall
  by_cases hfit : p.currentChunkSize.toNat + 2 < 2 ^ 32
  · have hchunkEnd : p.chunkEnd = p.currentChunkSize.toNat + 2 := Word.toNat_add_of_lt hfit
    have hshort : p.parserBuffer.length < p.currentChunkSize.toNat + 2 := by
      rcases hwait with hnil | ⟨-, hshort⟩
      · rw [hnil]; exact Nat.succ_pos _
      · exact hshort
    by_cases hlast : p.parserBuffer.length + 1 = p.currentChunkSize.toNat + 2
    · -- the byte is the last one of the CRLF after the data
      have hlen : p.chunkEnd = (p.parserBuffer ++ [b]).length := by
        rw [List.length_append, List.length_singleton]; omega
      have hsub : substr (p.parserBuffer ++ b :: rest) p.currentChunkSize.toNat 2 =
          substr (p.parserBuffer ++ [b]) p.currentChunkSize.toNat 2 := by
        unfold substr
        rw [if_pos (by simp only [List.length_append, List.length_cons]; omega), if_pos (by omega),
          show p.parserBuffer ++ b :: rest = p.parserBuffer ++ [b] ++ rest by simp,
          List.drop_append_of_le_length (by omega), List.take_append_of_le_length]
        rw [List.length_drop]; omega
      have hdrop : (p.parserBuffer ++ b :: rest).drop p.chunkEnd = rest := by
        rw [show p.parserBuffer ++ b :: rest = p.parserBuffer ++ [b] ++ rest by simp, hlen, List.drop_left]
      rw [if_pos (by omega)] at hbyte
      rw [if_pos (by simp only [List.length_append, List.length_cons]; omega)] at hall
      unfold leaveChunk at hbyte hall
      simp only [hend] at hbyte hall
      rw [hsub, hdrop] at hall
      cases hending : orOutOfRange (substr (p.parserBuffer ++ [b]) p.currentChunkSize.toNat 2) with
      | error e =>
        rw [hending] at hbyte hall
        exact .fails (Loop.whole_error hbyte) (Loop.whole_error hall)
      | ok ending =>
        rw [hending] at hbyte hall
        simp only [Run.ok_bind] at hbyte hall
        cases hcheck : check "parser_buffer_.substr( current_chunk_size_, 2 ) == \"\\r\\n\"" (ending = crlf) with
        | error e =>
          rw [hcheck] at hbyte hall
          exact .fails (Loop.whole_error hbyte) (Loop.whole_error hall)
        | ok _ =>
          rw [hcheck] at hbyte hall
          refine byteSpec_go ?_ ?_ ?_ hbyte hall
          · rfl
          · dsimp only; omega
          · dsimp only; rw [hlen, List.drop_length]
    · have hmore : ¬ p.chunkEnd ≤ (p.parserBuffer ++ [b]).length := by
        rw [List.length_append, List.length_singleton]; omega
      rw [if_neg hmore] at hbyte
      refine byteSpec_wait h hbyte ?_
      unfold Waiting
      rw [hstate]
      exact Or.inr ⟨hfit, by rw [List.length_append, List.length_singleton]; omega⟩
  · -- the end wraps around to zero or one, so even one byte seems to hold the chunk
    have hnil : p.parserBuffer = [] := hwait.resolve_right (fun hw => hfit hw.1)
    have hsize := p.currentChunkSize.toNat_lt
    have hchunkEnd : p.chunkEnd ≤ 1 := by
      unfold chunkEnd
      rw [UInt32.toNat_add]
      simp only [UInt32.reduceToNat]
      omega
    rw [if_pos (by rw [List.length_append, List.length_singleton]; omega)] at hbyte
    rw [if_pos (by rw [List.length_append, List.length_cons]; omega)] at hall
    obtain ⟨e, he⟩ := leaveChunk_fails (p := { p with parserBuffer := p.parserBuffer ++ [b] }) (by
      dsimp only
      rw [hnil, List.drop_eq_nil_of_le (by simp; omega)]
      simp [crlf])
    obtain ⟨e', he'⟩ := leaveChunk_fails (p := { p with parserBuffer := p.parserBuffer ++ b :: rest }) (by
      dsimp only
      rw [hnil]
      exact fun hcr => hsafe ⟨hstate, hnil, by omega, hcr⟩)
    rw [he] at hbyte
    rw [he'] at hall
    exact .fails (Loop.whole_error hbyte) (Loop.whole_error hall)

/-- One byte and then the rest give what both at once give, unless the parser is at the start of a
chunk whose end wraps around and the rest holds the chunk. -/
theorem Quiet.byteSpec {p : ChunkedBodyParser} {b : UInt8} {rest : Bytes} (h : p.Quiet)
    (hsafe : ¬ p.AtWrappingChunk (b :: rest)) : ByteSpec p b rest := by
  cases hstate : p.state with
  | chunkHdr => exact byteSpec_chunkHdr h hstate
  | chunk => exact byteSpec_chunk h hstate hsafe
  | trailer => exact byteSpec_trailer h hstate

end AbcMahimahi.Http.ChunkedBodyParser
