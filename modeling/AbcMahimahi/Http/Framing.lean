/-
Chunked bodies are framed exactly: fed any pieces of a chunked body and what follows it, the parser finds the end of
the body in the piece that holds its last byte, and counts exactly the bytes of that piece that belong to the body. The
chunks lead to the trailers, and there the end is searched for.
-/
import AbcMahimahi.Http.ChunkHeader
import AbcMahimahi.Http.ChunkedStream

namespace AbcMahimahi.Http.ChunkedBodyParser

open Bytes Relation

/-- The end is found at the `last` byte of the pieces: each piece before the one that holds it is all body, and of that
piece the bytes up to it are. -/
def EndsAt (trailers : Bool) (last : Nat) (pieces : List Bytes) : Prop :=
  ∃ before piece after p₁ p₂, pieces = before ++ piece :: after ∧
    before.flatten.length < last ∧ last ≤ before.flatten.length + piece.length ∧
    Run.steps read { trailersEnabled := trailers } before = .ok (List.replicate before.length none, p₁) ∧
    p₁.read piece = .ok (some (last - before.flatten.length), p₂)

/-- The chunks lead to the trailers. -/
theorem chunks_lead (tail : Bytes) : ∀ {chunks : List Chunk} {size : UInt32}, (∀ c ∈ chunks, c.WellFormed) →
    Leads ⟨.chunkHdr, size, chunks.flatMap Chunk.bytes ++ (ascii "0" ++ crlf ++ tail)⟩ ⟨.trailer, 0, tail⟩
  | [], size, _ => by
    have hzero : getChunkSize (ascii "0" ++ crlf) = .ok 0 := by decide
    exact ReflTransGen.single (Moves.header (by decide : find crlf (ascii "0") = none) hzero)
  | c :: chunks, size, hwf => by
    have hc := hwf c (List.mem_cons_self ..)
    have hfit := hc.fits
    obtain ⟨size', hread, hsize, hzero⟩ := hc.getChunkSize
    have hheader : Moves ⟨.chunkHdr, size, (c :: chunks).flatMap Chunk.bytes ++ (ascii "0" ++ crlf ++ tail)⟩
        ⟨.chunk, size', c.data ++ (crlf ++ (chunks.flatMap Chunk.bytes ++ (ascii "0" ++ crlf ++ tail)))⟩ := by
      have hmove := @Moves.header _ (c.data ++ (crlf ++ (chunks.flatMap Chunk.bytes ++ (ascii "0" ++ crlf ++ tail)))) size _
        hc.sizeLine.oneLine hread
      rw [if_neg hzero] at hmove
      simpa [Chunk.bytes] using hmove
    have hrest : Leads ⟨.chunkHdr, size', chunks.flatMap Chunk.bytes ++ (ascii "0" ++ crlf ++ tail)⟩ ⟨.trailer, 0, tail⟩ :=
      chunks_lead tail fun c' hc' => hwf c' (List.mem_cons_of_mem _ hc')
    exact (hrest.head (.data hsize.symm (by omega))).head hheader

/-- The end is where it is found behind the chunks. -/
theorem endsAt_of_find {trailers : Bool} {chunks : List Chunk} {tail body : Bytes} {loc : Nat} {pieces : List Bytes}
    (hwf : ∀ c ∈ chunks, c.WellFormed) (hstream : pieces.flatten = chunks.flatMap Chunk.bytes ++ (ascii "0" ++ crlf ++ tail))
    (hfind : find (ending trailers) tail = some loc)
    (hbody : body = chunks.flatMap Chunk.bytes ++ (ascii "0" ++ crlf ++ tail.take (loc + (ending trailers).length))) :
    EndsAt trailers body.length pieces := by
  have hlead : Leads (start pieces.flatten) ⟨.trailer, 0, tail⟩ := by
    rw [hstream]
    exact chunks_lead tail hwf
  have hbound := find_bound hfind
  have hlast : body.length + tail.length = pieces.flatten.length + (loc + (ending trailers).length) := by
    rw [hstream, hbody]
    simp only [List.length_append, List.length_take]
    omega
  exact (between_start trailers pieces.flatten).feed hlead hfind hlast

/-- Every chunked body is framed exactly, whatever follows it and however the stream is cut: each
piece before the one with the last byte of the body is all body, and of that piece exactly the
bytes up to the last byte of the body are. No call fails. -/
theorem chunked_framed {chunks : List Chunk} {more : Bytes} {pieces : List Bytes} (hwf : ∀ c ∈ chunks, c.WellFormed)
    (hstream : pieces.flatten = chunkedBody chunks ++ more) :
    ∃ before piece after p₁ p₂, pieces = before ++ piece :: after ∧
      before.flatten.length < (chunkedBody chunks).length ∧
      (chunkedBody chunks).length ≤ before.flatten.length + piece.length ∧
      Run.steps read { trailersEnabled := false } before = .ok (List.replicate before.length none, p₁) ∧
      p₁.read piece = .ok (some ((chunkedBody chunks).length - before.flatten.length), p₂) := by
  have hfind : find (ending false) (crlf ++ more) = some 0 := find_crlf_line (l := []) rfl more
  refine endsAt_of_find hwf (hstream.trans ?_) hfind rfl
  simp [chunkedBody]

theorem chunked_framed_small : ∃ before piece after p₁ p₂,
    [ascii "3; x\r\na", ascii "\r\n\r", ascii "\n0\r\n\r\nHT"] = before ++ piece :: after ∧
      before.flatten.length < (chunkedBody [⟨ascii "3", some (ascii " x"), ascii "a\r\n"⟩]).length ∧
      (chunkedBody [⟨ascii "3", some (ascii " x"), ascii "a\r\n"⟩]).length ≤ before.flatten.length + piece.length ∧
      Run.steps read { trailersEnabled := false } before = .ok (List.replicate before.length none, p₁) ∧
      p₁.read piece =
        .ok (some ((chunkedBody [⟨ascii "3", some (ascii " x"), ascii "a\r\n"⟩]).length - before.flatten.length), p₂) := by
  refine chunked_framed ?_ (show _ = _ ++ ascii "HT" by decide)
  intro c hc
  obtain rfl := List.mem_singleton.1 hc
  exact ⟨by decide, by decide, by decide, by decide, by decide, fun e he => by cases he; decide⟩

end AbcMahimahi.Http.ChunkedBodyParser
