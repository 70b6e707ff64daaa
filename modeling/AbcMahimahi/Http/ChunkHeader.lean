/-
The header line of a chunk: its size, perhaps an extension, and the CRLF. What is read of it is an integer of base 16
as `strtol` has it, after white space, a sign and `0x` if they are there, and 32 bits of that are kept. RFC 2616 has
only digits.
-/
import AbcMahimahi.Http.Chunked
import AbcMahimahi.Lib.Word

namespace AbcMahimahi.Http

open Bytes

/-- The size in a header line: what is before extensions and spaces. -/
def sizeField (line : Bytes) : Bytes := (line.takeWhile (· != 59)).takeWhile (· != 32)

/-- A header line that gives a size in hexadecimal digits. -/
structure SizeLine (line : Bytes) (n : Nat) : Prop where
  oneLine : find crlf line = none
  size : Digits 16 (sizeField line) n

/-- A header line that gives an integer of base 16 that a `long` holds. -/
structure HeaderLine (line : Bytes) (v : Int) : Prop where
  oneLine : find crlf line = none
  integer : Signed Hexadecimal (sizeField line) v
  long : -2 ^ 63 ≤ v ∧ v < 2 ^ 63

/-- The 32 bits that are kept of an integer. -/
def kept (v : Int) : Nat := (v % 2 ^ 32).toNat

theorem toNat_ofInt (v : Int) : (UInt32.ofInt v).toNat = kept v := by
  unfold UInt32.ofInt kept
  rw [UInt32.toNat_ofNat']
  omega

theorem kept_natCast {n : Nat} (h : n < 2 ^ 32) : kept n = n := by
  unfold kept
  omega

theorem SizeLine.header {line : Bytes} {n : Nat} (h : SizeLine line n) (hfit : n < 2 ^ 63) : HeaderLine line n :=
  ⟨h.oneLine, .plain (.plain h.size), by omega, by omega⟩

theorem HeaderLine.unique {line : Bytes} {v w : Int} (h : HeaderLine line v) (h' : HeaderLine line w) : v = w :=
  Signed.unique unsigned_hexadecimal h.integer h'.integer

/-- A line of digits alone has no other reading. -/
theorem HeaderLine.sizeLine {line : Bytes} {v : Int} {n : Nat} (h : HeaderLine line v) (h' : SizeLine line n) : v = n :=
  Signed.unique unsigned_hexadecimal h.integer (.plain (.plain h'.size))

namespace ChunkedBodyParser

/-! ## `get_chunk_size` -/

theorem take_find_byte (c : UInt8) : ∀ x : Bytes, x.take ((find [c] x).getD x.length) = x.takeWhile (· != c)
  | [] => rfl
  | b :: bs => by
    by_cases hb : b = c
    · subst hb
      have hzero : find [b] (b :: bs) = some 0 := find_byte (x := []) (by simp) bs
      rw [hzero, List.takeWhile_cons_of_neg (by simp)]
      rfl
    · have hnot : ¬ [c].isPrefixOf (b :: bs) = true := by simpa [List.isPrefixOf] using fun h => hb h.symm
      have ih := take_find_byte c bs
      rw [find_cons_of_not hnot, List.takeWhile_cons_of_pos (by simpa using hb), ← ih]
      cases find [c] bs with
      | none => rfl
      | some i => rfl

/-- The size is read from its field. -/
theorem getChunkSize_eq {line : Bytes} (h : find crlf line = none) :
    getChunkSize (line ++ crlf) = UInt32.ofInt <$> myatoi (sizeField line) 16 := by
  have hcrlf : find crlf (line ++ crlf) = some line.length := by
    have hline := find_crlf_line h []
    rwa [List.append_nil] at hline
  -- the field ends at the semicolon or at the CRLF
  have hfield : ∃ pos, ((find (ascii ";") (line ++ crlf)).orElse fun _ => find crlf (line ++ crlf)) = some pos ∧
      (line ++ crlf).take pos = line.takeWhile (· != 59) := by
    cases hsemi : find [59] line with
    | none =>
      have hno : find (ascii ";") (line ++ crlf) = none := by
        rw [show ascii ";" = [59] from rfl]
        refine find_byte_none fun hmem => ?_
        rcases List.mem_append.1 hmem with hmem | hmem
        · obtain ⟨x, y, rfl, hx⟩ := List.eq_append_cons_of_mem hmem
          rw [find_byte hx] at hsemi
          cases hsemi
        · exact absurd hmem (by decide)
      have hwhole := take_find_byte 59 line
      rw [hsemi, Option.getD_none, List.take_length] at hwhole
      exact ⟨line.length, by rw [hno, hcrlf]; rfl, by rw [List.take_left]; exact hwhole⟩
    | some i =>
      have hfound := find_append crlf hsemi
      have hbound := find_le_length hsemi
      have hpart := take_find_byte 59 line
      rw [hsemi, Option.getD_some] at hpart
      exact ⟨i, by rw [show ascii ";" = [59] from rfl, hfound]; rfl, by
        rw [List.take_append_of_le_length hbound]; exact hpart⟩
  obtain ⟨pos, hpos, htake⟩ := hfield
  have hlen : ¬ (line ++ crlf).length < 2 := by
    rw [List.length_append, length_crlf]
    omega
  have hending : substr (line ++ crlf) ((line ++ crlf).length - 2) 2 = some crlf := by
    unfold substr
    rw [if_pos (Nat.sub_le _ _), List.length_append, length_crlf, Nat.add_sub_cancel, List.drop_left]
    rfl
  unfold getChunkSize
  rw [if_neg hlen, hending, hpos]
  simp only [orOutOfRange, Run.ok_bind, decide_true, check_true, htake]
  rw [show ascii " " = [32] from rfl, take_find_byte]
  unfold sizeField
  cases myatoi ((line.takeWhile (· != 59)).takeWhile (· != 32)) 16 <;> rfl

theorem getChunkSize_header {line : Bytes} {v : Int} (h : HeaderLine line v) :
    getChunkSize (line ++ crlf) = .ok (UInt32.ofInt v) := by
  rw [getChunkSize_eq h.oneLine, (myatoi_iff unsigned_hexadecimal).2 ⟨h.integer, h.long⟩]
  rfl

/-- A line is accepted exactly where it gives an integer. -/
theorem getChunkSize_iff {line : Bytes} {c : UInt32} (hline : find crlf line = none) :
    getChunkSize (line ++ crlf) = .ok c ↔ ∃ v, HeaderLine line v ∧ c = UInt32.ofInt v := by
  constructor
  · intro h
    rw [getChunkSize_eq hline] at h
    obtain ⟨v, hv, rfl⟩ := Run.map_eq_ok h
    obtain ⟨hinteger, hlong⟩ := (myatoi_iff unsigned_hexadecimal).1 hv
    exact ⟨v, ⟨hline, hinteger, hlong⟩, rfl⟩
  · rintro ⟨v, h, rfl⟩
    exact getChunkSize_header h

theorem getChunkSize_thrown {line : Bytes} {e : Fault} (hline : find crlf line = none)
    (h : getChunkSize (line ++ crlf) = .error e) : e.Thrown := by
  have hreturns := returns_myatoi (sizeField line) 16
  rw [getChunkSize_eq hline] at h
  generalize myatoi (sizeField line) 16 = size at h hreturns
  cases hreturns with
  | ok _ => cases h
  | error hthrown =>
    cases h
    exact hthrown

end ChunkedBodyParser

/-! ## Chunks as they are written -/

/-- A chunk as it is written: the digits of its size, an extension after a semicolon, its data. -/
structure Chunk where
  size : Bytes
  extension : Option Bytes
  data : Bytes

/-- The size is the length of the data in hexadecimal digits, and the extension stays on its line. -/
structure Chunk.WellFormed (c : Chunk) : Prop where
  digits : c.size.all (isDigit 16) = true
  some : c.size ≠ []
  length : numeral 16 c.size = c.data.length
  data : c.data ≠ []
  fits : c.data.length < 2 ^ 32 - 2
  line : ∀ e ∈ c.extension, find crlf e = none

/-- The extension with its semicolon. -/
def Chunk.suffix (c : Chunk) : Bytes := c.extension.elim [] (59 :: ·)

def Chunk.bytes (c : Chunk) : Bytes := c.size ++ c.suffix ++ crlf ++ (c.data ++ crlf)

/-- A chunked body without trailers. -/
def chunkedBody (chunks : List Chunk) : Bytes := chunks.flatMap Chunk.bytes ++ (ascii "0" ++ crlf ++ crlf)

theorem not_mem_digits {ds : Bytes} {base : Nat} {b : UInt8} (h : ds.all (isDigit base) = true)
    (hb : digitValue b = none) : b ∉ ds := by
  intro hmem
  have := List.all_eq_true.1 h b hmem
  rw [isDigit, hb] at this
  cases this

/-- Digits in front of an extension are the field of the size. -/
theorem sizeField_digits {ds : Bytes} (h : ds.all (isDigit 16) = true) (extension : Option Bytes) :
    sizeField (ds ++ extension.elim [] (59 :: ·)) = ds := by
  have hfront : ∀ {b : UInt8}, digitValue b = none → ∀ d ∈ ds, (d != b) = true := fun hb d hd => by
    rw [bne_iff_ne]
    rintro rfl
    exact not_mem_digits h hb hd
  have hsemi : (ds ++ extension.elim [] (59 :: ·)).takeWhile (· != 59) = ds := by
    cases extension with
    | none => rw [Option.elim_none, List.append_nil, List.takeWhile_eq_self_iff.2 (hfront (by decide))]
    | some e =>
      rw [Option.elim_some, List.takeWhile_append_of_pos (hfront (by decide)), List.takeWhile_cons_of_neg (by decide),
        List.append_nil]
  unfold sizeField
  rw [hsemi, List.takeWhile_eq_self_iff.2 (hfront (by decide))]

theorem Chunk.WellFormed.sizeLine {c : Chunk} (h : c.WellFormed) : SizeLine (c.size ++ c.suffix) c.data.length := by
  have hcr : (13 : UInt8) ∉ c.size := not_mem_digits h.digits (by decide)
  refine ⟨?_, ?_⟩
  · unfold suffix
    cases he : c.extension with
    | none => simpa using find_crlf_none hcr
    | some e => exact find_crlf_join (by decide) (by decide) (h.line e (by simp [he])) (find_crlf_none hcr)
  · unfold suffix
    rw [sizeField_digits h.digits]
    exact ⟨h.some, h.digits, h.length⟩

/-- What is read of the header line of a chunk. -/
theorem Chunk.WellFormed.getChunkSize {c : Chunk} (h : c.WellFormed) : ∃ size,
    ChunkedBodyParser.getChunkSize (c.size ++ c.suffix ++ crlf) = .ok size ∧ size.toNat = c.data.length ∧ size ≠ 0 := by
  have hfit := h.fits
  have hsize : (UInt32.ofInt c.data.length).toNat = c.data.length := by
    rw [toNat_ofInt, kept_natCast (by omega)]
  refine ⟨_, ChunkedBodyParser.getChunkSize_header (h.sizeLine.header (by omega)), hsize, Word.ne_zero_of_pos ?_⟩
  rw [hsize]
  exact List.length_pos_iff.2 h.data

end AbcMahimahi.Http
