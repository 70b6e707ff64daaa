/-
What the chunked parser accepts. It takes 32 bits of the integer in a size line, which may have a sign or `0x`, and it
asserts that the data are followed by a CRLF. So it accepts only chunked bodies, and throws or waits at anything else,
for the streams in which, chunk after chunk, the data are followed by a CRLF, no chunk is there whose end wraps around
in 32 bits, and all size lines up to the last chunk are digits alone for less than 4 GiB.

Where a size line is digits alone for 4 GiB or more, and as many bytes follow it, they can happen to be read right.
-/
import AbcMahimahi.Http.ChunkHeader
import AbcMahimahi.Http.ChunkedStream

namespace AbcMahimahi.Http

open Bytes Relation

/-! ## Chunked bodies -/

/-- Chunks with as many bytes as their sizes say, each with its CRLF, then a line with the size zero and one more. -/
inductive IsChunkedBody : Bytes → Prop
  | last {line trailer : Bytes} (h : SizeLine line 0) (htrailer : find crlf trailer = none) :
      IsChunkedBody (line ++ crlf ++ (trailer ++ crlf))
  | chunk {line data rest : Bytes} (h : SizeLine line data.length) (hdata : data ≠ []) (hrest : IsChunkedBody rest) :
      IsChunkedBody (line ++ crlf ++ (data ++ (crlf ++ rest)))

namespace ChunkedBodyParser

/-! ## The size lines of a stream -/

/-- Chunk after chunk from the front of a stream, each with as many bytes as 32 bits of its size line say: the lines,
and what is left. -/
inductive Passes : Bytes → List Bytes → Bytes → Prop
  | nil {rest : Bytes} : Passes rest [] rest
  | cons {line data rest tail : Bytes} {v : Int} {lines : List Bytes} (h : HeaderLine line v) (hdata : data ≠ [])
      (hlen : data.length = kept v) (hfit : data.length + 2 < 2 ^ 32) (hrest : Passes rest lines tail) :
      Passes (line ++ crlf ++ (data ++ (crlf ++ rest))) (line :: lines) tail

/-- The next size line of a stream after those of the chunks, the integer in it, and what comes after it. -/
structure Sized (stream : Bytes) (lines : List Bytes) (line : Bytes) (v : Int) (rest : Bytes) : Prop where
  passes : Passes stream lines (line ++ crlf ++ rest)
  header : HeaderLine line v

/-- The data of each chunk are followed by a CRLF, or the stream ends before; one whose end wraps around in 32 bits is
not there as a whole. If the line after the last chunk is there, all sizes are digits alone for less than `2 ^ 32`. -/
structure Tidy (stream : Bytes) : Prop where
  followed : ∀ lines line v rest, Sized stream lines line v rest → kept v ≠ 0 → kept v + 2 < 2 ^ 32 →
    kept v + 2 ≤ rest.length → crlf <+: rest.drop (kept v)
  short : ∀ lines line v rest, Sized stream lines line v rest → 2 ^ 32 ≤ kept v + 2 → rest.length < kept v
  plain : ∀ lines line v trailer rest, Sized stream lines line v (trailer ++ crlf ++ rest) → kept v = 0 →
    find crlf trailer = none → ∀ l ∈ lines ++ [line], ∃ n < 2 ^ 32, SizeLine l n

/-- A size of 4 GiB or more is not followed by as many bytes. -/
def NoHuge (stream : Bytes) : Prop :=
  ∀ lines line v rest, Sized stream lines line v rest → ∀ n, SizeLine line n → 2 ^ 32 ≤ n → rest.length < n

/-- In a call of `read` after calls that all waited: it waits too, finds the end of a chunked body, or throws. -/
def AcceptsOnlyBodies (pieces : List Bytes) : Prop :=
  ∀ before piece after p, pieces = before ++ piece :: after →
    Run.steps read { trailersEnabled := false } before = .ok (List.replicate before.length none, p) →
    Returns (fun r => ∀ count, r.1 = some count → count ≤ piece.length ∧ IsChunkedBody (before.flatten ++ piece.take count))
      (p.read piece)

/-! ## The places of a stream and its lines -/

theorem Passes.leads {stream tail : Bytes} {lines : List Bytes} (h : Passes stream lines tail) (size : UInt32) :
    ∃ size', Leads ⟨.chunkHdr, size, stream⟩ ⟨.chunkHdr, size', tail⟩ := by
  induction h generalizing size with
  | nil => exact ⟨size, .refl⟩
  | @cons line data rest tail v lines h hdata hlen hfit _ ih =>
    have hsize : (UInt32.ofInt v).toNat = data.length := by rw [toNat_ofInt, hlen]
    have hzero : UInt32.ofInt v ≠ 0 := Word.ne_zero_of_pos (by rw [hsize]; exact List.length_pos_iff.2 hdata)
    obtain ⟨size', hlead⟩ := ih (UInt32.ofInt v)
    have hheader := @Moves.header _ (data ++ (crlf ++ rest)) size _ h.oneLine (getChunkSize_header h)
    rw [if_neg hzero] at hheader
    exact ⟨size', (hlead.head (.data hsize.symm (by omega))).head hheader⟩

/-- One more chunk. -/
theorem Passes.snoc {stream line data rest : Bytes} {lines : List Bytes} {v : Int}
    (hp : Passes stream lines (line ++ crlf ++ (data ++ (crlf ++ rest)))) (h : HeaderLine line v) (hdata : data ≠ [])
    (hlen : data.length = kept v) (hfit : data.length + 2 < 2 ^ 32) : Passes stream (lines ++ [line]) rest := by
  generalize htail : line ++ crlf ++ (data ++ (crlf ++ rest)) = tail at hp
  induction hp with
  | nil =>
    rw [← htail]
    exact .cons h hdata hlen hfit .nil
  | cons h' hdata' hlen' hfit' _ ih => exact .cons h' hdata' hlen' hfit' (ih htail)

/-- What a stream has before a place that it leads to. -/
def Before (stream : Bytes) (a : Place) : Prop :=
  match a.state with
  | .chunkHdr => ∃ lines, Passes stream lines a.rest
  | .chunk => ∃ lines line v, Sized stream lines line v a.rest ∧ a.size = UInt32.ofInt v ∧ a.size ≠ 0
  | .trailer => ∃ lines line v, Sized stream lines line v a.rest ∧ kept v = 0

theorem Leads.before {stream : Bytes} {a : Place} (h : Leads (start stream) a) : Before stream a := by
  induction h with
  | refl => exact ⟨[], .nil⟩
  | tail _ hmove ih =>
    cases hmove with
    | @header line rest size c hline hsize =>
      obtain ⟨lines, hlines⟩ := ih
      obtain ⟨v, hv, rfl⟩ := (getChunkSize_iff hline).1 hsize
      by_cases hzero : UInt32.ofInt v = 0
      · rw [if_pos hzero]
        refine ⟨lines, line, v, ⟨hlines, hv⟩, ?_⟩
        rw [← toNat_ofInt, hzero]
        rfl
      · rw [if_neg hzero]
        exact ⟨lines, line, v, ⟨hlines, hv⟩, rfl, hzero⟩
    | @data data rest c hlen hfit =>
      obtain ⟨lines, line, v, ⟨hlines, hv⟩, hc, hzero⟩ := ih
      have hc : c = UInt32.ofInt v := hc
      have hkept : data.length = kept v := by rw [hlen, hc, toNat_ofInt]
      refine ⟨lines ++ [line], Passes.snoc hlines hv ?_ hkept (by omega)⟩
      rintro rfl
      exact hzero (UInt32.toNat_inj.1 hlen.symm)

/-- After a size line there is a chunk, or the trailers. -/
theorem Sized.leads {stream line rest : Bytes} {lines : List Bytes} {v : Int} (h : Sized stream lines line v rest) :
    Leads (start stream) ⟨if UInt32.ofInt v = 0 then .trailer else .chunk, UInt32.ofInt v, rest⟩ := by
  obtain ⟨size, hlead⟩ := Passes.leads h.passes 0
  exact hlead.tail (.header h.header.oneLine (getChunkSize_header h.header))

theorem Sized.leads_chunk {stream line rest : Bytes} {lines : List Bytes} {v : Int} (h : Sized stream lines line v rest)
    (hne : kept v ≠ 0) : Leads (start stream) ⟨.chunk, UInt32.ofInt v, rest⟩ := by
  have hlead := Sized.leads h
  rwa [if_neg] at hlead
  intro hzero
  rw [← toNat_ofInt, hzero] at hne
  exact hne rfl

theorem Sized.leads_trailer {stream line rest : Bytes} {lines : List Bytes} {v : Int} (h : Sized stream lines line v rest)
    (hzero : kept v = 0) : Leads (start stream) ⟨.trailer, UInt32.ofInt v, rest⟩ := by
  have hlead := Sized.leads h
  rwa [if_pos] at hlead
  exact UInt32.toNat_inj.1 (by rw [toNat_ofInt, hzero]; rfl)

/-! ## Plain sizes -/

/-- In front of a chunked body, chunks with plain sizes are a chunked body. -/
theorem Passes.body {stream tail body rest : Bytes} {lines : List Bytes} (h : Passes stream lines tail)
    (hplain : ∀ l ∈ lines, ∃ n < 2 ^ 32, SizeLine l n) (hbody : IsChunkedBody body) (htail : tail = body ++ rest) :
    ∃ body', stream = body' ++ rest ∧ IsChunkedBody body' := by
  induction h with
  | nil => exact ⟨body, htail, hbody⟩
  | @cons line data rest' tail v lines h hdata hlen hfit _ ih =>
    obtain ⟨body', rfl, hbody'⟩ := ih (fun l hl => hplain l (List.mem_cons_of_mem _ hl)) htail
    obtain ⟨n, hn, hline⟩ := hplain line (List.mem_cons_self ..)
    obtain rfl := h.sizeLine hline
    rw [kept_natCast hn] at hlen
    subst hlen
    exact ⟨line ++ crlf ++ (data ++ (crlf ++ body')), by simp, .chunk hline hdata hbody'⟩

theorem NoHuge.rest {line data rest : Bytes} {v : Int} (h : NoHuge (line ++ crlf ++ (data ++ (crlf ++ rest))))
    (hline : HeaderLine line v) (hdata : data ≠ []) (hlen : data.length = kept v) (hfit : data.length + 2 < 2 ^ 32) :
    NoHuge rest :=
  fun lines l w rest' hs => h (line :: lines) l w rest' ⟨.cons hline hdata hlen hfit hs.passes, hs.header⟩

/-- The size line at the front of a chunked body is plain. -/
theorem IsChunkedBody.front {body rest line tail : Bytes} {v : Int} (hbody : IsChunkedBody body) (hline : HeaderLine line v)
    (hstream : line ++ crlf ++ tail = body ++ rest) (hhuge : NoHuge (line ++ crlf ++ tail)) :
    (∃ n < 2 ^ 32, SizeLine line n) ∧ (kept v = 0 ∨
      ∃ data body', data.length = kept v ∧ tail = data ++ (crlf ++ (body' ++ rest)) ∧ IsChunkedBody body') := by
  cases hbody with
  | @last line' trailer h htrailer =>
    rw [List.append_assoc (line' ++ crlf)] at hstream
    obtain ⟨rfl, -⟩ := line_unique hline.oneLine h.oneLine hstream
    obtain rfl := hline.sizeLine h
    exact ⟨⟨0, by decide, h⟩, Or.inl rfl⟩
  | @chunk line' data body' h hdata hbody' =>
    rw [List.append_assoc (line' ++ crlf)] at hstream
    obtain ⟨rfl, rfl⟩ := line_unique hline.oneLine h.oneLine hstream
    obtain rfl := hline.sizeLine h
    have hlt : data.length < 2 ^ 32 := by
      by_contra hge
      have hshort := hhuge [] line _ _ ⟨.nil, hline⟩ data.length h (by omega)
      simp only [List.length_append] at hshort
      omega
    exact ⟨⟨data.length, hlt, h⟩, Or.inr ⟨data, body', (kept_natCast hlt).symm, by simp, hbody'⟩⟩

/-- All size lines of a chunked body are plain, where none is followed by 4 GiB. -/
theorem Passes.plain {stream tail : Bytes} {lines : List Bytes} (h : Passes stream lines tail) :
    ∀ {body rest : Bytes}, IsChunkedBody body → stream = body ++ rest → NoHuge stream →
      (∀ l ∈ lines, ∃ n < 2 ^ 32, SizeLine l n) ∧ NoHuge tail ∧ ∃ body', tail = body' ++ rest ∧ IsChunkedBody body' := by
  induction h with
  | nil =>
    intro body rest hbody hstream hhuge
    exact ⟨by simp, hhuge, body, hstream, hbody⟩
  | @cons line data rest' tail v lines h hdata hlen hfit _ ih =>
    intro body rest hbody hstream hhuge
    obtain ⟨hplain, hzero | ⟨data', body', hlen', htail, hbody'⟩⟩ := IsChunkedBody.front hbody h hstream hhuge
    · rw [hzero] at hlen
      exact absurd (List.length_eq_zero_iff.1 hlen) hdata
    · obtain ⟨rfl, hrest⟩ := List.append_inj htail (hlen.trans hlen'.symm)
      obtain ⟨hlines, hhuge', hend⟩ := ih hbody' (List.append_cancel_left hrest) (NoHuge.rest hhuge h hdata hlen hfit)
      exact ⟨List.forall_mem_cons.2 ⟨hplain, hlines⟩, hhuge', hend⟩

/-! ## Tidy streams -/

section

variable {stream piece next : Bytes} {p : ChunkedBodyParser}

theorem Tidy.short_of_leads {size : UInt32} {rest : Bytes} (h : Tidy stream) (hlead : Leads (start stream) ⟨.chunk, size, rest⟩)
    (hwrap : 2 ^ 32 ≤ size.toNat + 2) : rest.length < size.toNat := by
  obtain ⟨lines, line, v, hsized, hsize, -⟩ := Leads.before hlead
  have hsize : size = UInt32.ofInt v := hsize
  rw [hsize, toNat_ofInt] at hwrap ⊢
  exact h.short lines line v rest hsized hwrap

theorem Tidy.followed_of_leads {size : UInt32} {rest : Bytes} (h : Tidy stream)
    (hlead : Leads (start stream) ⟨.chunk, size, rest⟩) (hfit : size.toNat + 2 < 2 ^ 32) (hlen : size.toNat + 2 ≤ rest.length) :
    crlf <+: rest.drop size.toNat := by
  obtain ⟨lines, line, v, hsized, hsize, hne⟩ := Leads.before hlead
  have hsize : size = UInt32.ofInt v := hsize
  have hzero : kept v ≠ 0 := fun hzero => hne (UInt32.toNat_inj.1 (by rw [hsize, toNat_ofInt, hzero]; rfl))
  rw [hsize, toNat_ofInt] at hfit hlen ⊢
  exact h.followed lines line v rest hsized hzero hfit hlen

/-- Up to the line after the last chunk there is a chunked body. -/
theorem Tidy.body_of_leads {size : UInt32} {trailer rest : Bytes} (h : Tidy stream)
    (hlead : Leads (start stream) ⟨.trailer, size, trailer ++ crlf ++ rest⟩) (htrailer : find crlf trailer = none) :
    ∃ body, stream = body ++ rest ∧ IsChunkedBody body := by
  obtain ⟨lines, line, v, hsized, hzero⟩ := Leads.before hlead
  have hplain := h.plain lines line v trailer rest hsized hzero htrailer
  obtain ⟨n, hn, hline⟩ := hplain line (by simp)
  obtain rfl := hsized.header.sizeLine hline
  rw [kept_natCast hn] at hzero
  subst hzero
  exact Passes.body hsized.passes (fun l hl => hplain l (List.mem_append_left _ hl)) (.last hline htrailer) (by simp)

/-- Calls that all waited. -/
theorem Tidy.between (h : Tidy stream) : ∀ {before : List Bytes} {p p' : ChunkedBodyParser},
    Between false stream (before.flatten ++ next) p →
    Run.steps ChunkedBodyParser.read p before = .ok (List.replicate before.length none, p') → Between false stream next p'
  | [], p, p', hp, hsteps => by
    cases hsteps
    exact hp
  | x :: before, p, p', hp, hsteps => by
    obtain ⟨out, p₁, outs, hread, hrest, hout⟩ := Run.steps_cons_ok hsteps
    obtain ⟨rfl, rfl⟩ := List.cons.inj hout
    rw [List.flatten_cons, List.append_assoc] at hp
    have hreads := hp.read
    rw [hread] at hreads
    cases hreads with
    | waits hp' _ => exact Tidy.between h hp' hrest
    | wraps hlead hwrap hshort _ =>
      rw [Between.place_eq] at hlead
      cases hshort (h.short_of_leads (hp.reached.trans hlead) hwrap)

/-- A call on a tidy stream. -/
theorem Tidy.call (h : Tidy stream) {done after : Bytes} (hp : Between false stream (piece ++ after) p)
    (hdone : stream = done ++ (piece ++ after)) :
    Returns (fun r => ∀ count, r.1 = some count → count ≤ piece.length ∧ IsChunkedBody (done ++ piece.take count))
      (p.read piece) := by
  have hacked := hp.acked
  have hlength := congrArg List.length hdone
  rw [List.length_append] at hlength
  have hreads := hp.read
  have hplace := Between.place_eq piece after p
  generalize p.read piece = result at hreads
  cases hreads with
  | waits _ _ => exact .ok fun count hcount => by cases hcount
  | @completes size tail loc count _ _ hstart hfind hcount hpos hle =>
    refine .ok fun count' hcount' => ?_
    cases hcount'
    obtain ⟨trailer, rest, rfl, htrailer, rfl⟩ := find_crlf_split hfind
    rw [show (ending false).length = 2 from rfl] at hcount
    simp only [List.length_append, length_crlf] at hcount
    -- the bytes up to the end
    have htake : stream.take (stream.length - rest.length) = done ++ piece.take count := by
      rw [show stream.length - rest.length = done.length + count by omega, hdone, List.take_length_add_append,
        List.take_append_of_le_length hle]
    obtain ⟨body, hbody, hchunked⟩ := h.body_of_leads hstart htrailer
    refine ⟨hle, ?_⟩
    rw [← htake, hbody, List.length_append, Nat.add_sub_cancel, List.take_left]
    exact hchunked
  | badHeader _ hline hsize => exact .error (getChunkSize_thrown hline hsize)
  | badData hlead hfit hlen hnot =>
    rw [hplace] at hlead
    exact absurd (h.followed_of_leads (hp.reached.trans hlead) hfit hlen) hnot
  | wraps hlead hwrap hshort _ =>
    rw [hplace] at hlead
    rw [hshort (h.short_of_leads (hp.reached.trans hlead) hwrap)]
    exact .error .outOfRange

/-! ## Other streams -/

/-- A place without a move. -/
def Stuck (a : Place) : Prop := ∀ b, ¬ Moves a b

theorem Leads.stuck {a b c : Place} (hb : Stuck b) (h : Leads a b) (h' : Leads a c) : Leads c b := by
  rcases h.total h' with hbc | hcb
  · rcases ReflTransGen.cases_head hbc with rfl | ⟨d, hmove, -⟩
    · exact .refl
    · exact absurd hmove (hb d)
  · exact hcb

theorem Leads.stuck_unique {a b c : Place} (hb : Stuck b) (hc : Stuck c) (h : Leads a b) (h' : Leads a c) : c = b := by
  rcases ReflTransGen.cases_head (h.stuck hb h') with rfl | ⟨d, hmove, -⟩
  · rfl
  · exact absurd hmove (hc d)

theorem stuck_trailer (size : UInt32) (rest : Bytes) : Stuck ⟨.trailer, size, rest⟩ := fun _ hmove => by cases hmove

theorem stuck_header {size : UInt32} {line rest : Bytes} {e : Fault} (hline : find crlf line = none)
    (hsize : getChunkSize (line ++ crlf) = .error e) : Stuck ⟨.chunkHdr, size, line ++ crlf ++ rest⟩ := by
  intro b hmove
  generalize hrest : line ++ crlf ++ rest = stream at hmove
  cases hmove with
  | header hline' hsize' =>
    obtain ⟨rfl, -⟩ := line_unique hline hline' hrest
    rw [hsize] at hsize'
    cases hsize'

theorem stuck_data {size : UInt32} {rest : Bytes} (hnot : ¬ crlf <+: rest.drop size.toNat) : Stuck ⟨.chunk, size, rest⟩ := by
  intro b hmove
  cases hmove with
  | data hdata _ =>
    rw [← hdata, List.drop_left] at hnot
    exact hnot (List.prefix_append _ _)

theorem stuck_wrap {size : UInt32} {rest : Bytes} (hwrap : 2 ^ 32 ≤ size.toNat + 2) : Stuck ⟨.chunk, size, rest⟩ := by
  intro b hmove
  cases hmove with
  | data _ hfit => omega

/-- A parser that has read a whole stream and waits has not come by a place without a move where it would not. -/
theorem Between.not_stuck {b : Place} (hp : Between false stream [] p) (hb : Stuck b) (h : Leads (start stream) b)
    (hne : b.rest ≠ []) : p.place [] = b := by
  rcases ReflTransGen.cases_head (h.stuck hb hp.reached) with heq | ⟨d, hmove, hlead⟩
  · exact heq
  · have hnext := Waiting.next_le hp.quiet.waiting hmove
    have hrest := Leads.rest_le hlead
    exact absurd (List.length_pos_iff.2 hne) (by simp only [List.length_nil] at hnext; omega)

/-- A stream that comes whole. -/
theorem reads_whole (stream : Bytes) : Reads false stream [] stream.length
    { trailersEnabled := false, parserBuffer := stream } (read { trailersEnabled := false } stream) := by
  have hstart := between_start false stream
  rw [← List.append_nil stream] at hstart
  have hreads := Between.read hstart
  rwa [List.append_nil] at hreads

/-- It leads where the stream leads. -/
theorem place_whole (stream : Bytes) :
    ({ trailersEnabled := false, parserBuffer := stream } : ChunkedBodyParser).place [] = start stream := by
  unfold place start
  rw [List.append_nil]

theorem read_badData {size : UInt32} {rest : Bytes} (h : Leads (start stream) ⟨.chunk, size, rest⟩)
    (hfit : size.toNat + 2 < 2 ^ 32) (hlen : size.toNat + 2 ≤ rest.length) (hnot : ¬ crlf <+: rest.drop size.toNat) :
    ∃ expr, read { trailersEnabled := false } stream = .error (.assertion expr) := by
  have hreads := reads_whole stream
  have hne : rest ≠ [] := List.length_pos_iff.1 (by omega)
  generalize read { trailersEnabled := false } stream = result at hreads
  cases hreads with
  | waits hp _ =>
    obtain ⟨hstate, rfl, rfl⟩ := Place.mk.inj (hp.not_stuck (stuck_data hnot) h hne)
    have hwait := hp.quiet.waiting
    unfold Waiting at hwait
    rw [hstate] at hwait
    rw [List.append_nil] at hlen
    rcases hwait with hnil | ⟨-, hshort⟩
    · rw [hnil] at hlen
      simp only [List.length_nil] at hlen
      omega
    · omega
  | completes _ hstart _ _ _ _ => cases h.stuck_unique (stuck_data hnot) (stuck_trailer _ _) hstart
  | badHeader hlead hline hsize =>
    rw [place_whole] at hlead
    cases h.stuck_unique (stuck_data hnot) (stuck_header hline hsize) hlead
  | badData _ _ _ _ => exact ⟨_, rfl⟩
  | wraps hlead hwrap _ _ =>
    rw [place_whole] at hlead
    cases h.stuck_unique (stuck_data hnot) (stuck_wrap hwrap) hlead
    omega

theorem read_wrap {size : UInt32} {rest : Bytes} (h : Leads (start stream) ⟨.chunk, size, rest⟩)
    (hwrap : 2 ^ 32 ≤ size.toNat + 2) (heq : rest.length = size.toNat) :
    ∃ expr, read { trailersEnabled := false } stream = .error (.assertion expr) := by
  have hreads := reads_whole stream
  have hne : rest ≠ [] := List.length_pos_iff.1 (by omega)
  generalize read { trailersEnabled := false } stream = result at hreads
  cases hreads with
  | waits hp _ =>
    obtain ⟨hstate, rfl, rfl⟩ := Place.mk.inj (hp.not_stuck (stuck_wrap hwrap) h hne)
    have hwait := hp.quiet.waiting
    unfold Waiting at hwait
    rw [hstate] at hwait
    rw [List.append_nil] at hne
    exact absurd (hwait.resolve_left hne).1 (by omega)
  | completes _ hstart _ _ _ _ => cases h.stuck_unique (stuck_wrap hwrap) (stuck_trailer _ _) hstart
  | badHeader hlead hline hsize =>
    rw [place_whole] at hlead
    cases h.stuck_unique (stuck_wrap hwrap) (stuck_header hline hsize) hlead
  | badData hlead hfit _ hnot =>
    rw [place_whole] at hlead
    cases h.stuck_unique (stuck_wrap hwrap) (stuck_data hnot) hlead
    omega
  | wraps hlead hwrap' _ hlong =>
    rw [place_whole] at hlead
    cases h.stuck_unique (stuck_wrap hwrap) (stuck_wrap hwrap') hlead
    exact hlong rfl heq

theorem read_complete {size : UInt32} {trailer rest : Bytes}
    (h : Leads (start stream) ⟨.trailer, size, trailer ++ crlf ++ rest⟩) (htrailer : find crlf trailer = none) :
    ∃ p, read { trailersEnabled := false } stream = .ok (some (stream.length - rest.length), p) := by
  have hreads := reads_whole stream
  have hfound : find (ending false) (trailer ++ crlf ++ rest) = some trailer.length := find_crlf_line htrailer rest
  generalize read { trailersEnabled := false } stream = result at hreads
  -- whoever waits in front of the trailer would have found its end
  cases hreads with
  | waits hp _ =>
    obtain ⟨hstate, -, hrest⟩ := Place.mk.inj (hp.not_stuck (stuck_trailer _ _) h (by simp [crlf]))
    have hwait := hp.quiet.waiting
    unfold Waiting at hwait
    rw [hstate] at hwait
    rw [List.append_nil] at hrest
    dsimp only at hwait
    rw [hrest, terminator_eq hp.enabled, hfound] at hwait
    cases hwait
  | @completes size' tail loc count p' _ hstart hfind hcount _ _ =>
    obtain rfl := hstart.trailer_unique h
    rw [hfound] at hfind
    cases hfind
    rw [show (ending false).length = 2 from rfl] at hcount
    simp only [List.length_append, length_crlf] at hcount
    exact ⟨p', by rw [show stream.length - rest.length = count by omega]⟩
  -- the other places are stuck, and from the start only one such place is reached
  | badHeader hlead hline hsize =>
    rw [place_whole] at hlead
    cases h.stuck_unique (stuck_trailer _ _) (stuck_header hline hsize) hlead
  | badData hlead _ _ hnot =>
    rw [place_whole] at hlead
    cases h.stuck_unique (stuck_trailer _ _) (stuck_data hnot) hlead
  | wraps hlead hwrap _ _ =>
    rw [place_whole] at hlead
    cases h.stuck_unique (stuck_trailer _ _) (stuck_wrap hwrap) hlead

end

/-- A tidy stream is read as the parser should in whatever way it is cut. -/
theorem Tidy.accepts {stream : Bytes} (h : Tidy stream) {pieces : List Bytes} (hpieces : pieces.flatten = stream) :
    AcceptsOnlyBodies pieces := by
  intro before piece after p hsplit hsteps
  rw [hsplit, List.flatten_append, List.flatten_cons] at hpieces
  have hstart := between_start false stream
  rw [← hpieces] at hstart h
  exact Tidy.call h (Tidy.between h hstart hsteps) rfl

/-- A stream that is read as the parser should is tidy, unless there are 4 GiB after a size line that says so. -/
theorem tidy_of_accepts {stream : Bytes} (hhuge : NoHuge stream)
    (hall : ∀ pieces : List Bytes, (∀ piece ∈ pieces, piece ≠ []) → pieces.flatten = stream → AcceptsOnlyBodies pieces) :
    Tidy stream := by
  have hcall : ∀ piece after, piece ≠ [] → piece ++ after = stream →
      Returns (fun r => ∀ count, r.1 = some count → count ≤ piece.length ∧ IsChunkedBody (piece.take count))
        (read { trailersEnabled := false } piece) := by
    intro piece after hne hstream
    by_cases hafter : after = []
    · rw [hafter, List.append_nil] at hstream
      exact hall [piece] (by simpa using hne) (by simpa using hstream) [] piece [] _ rfl rfl
    · exact hall [piece, after] (by simpa using ⟨hne, hafter⟩) (by simpa using hstream) [] piece [after] _ rfl rfl
  constructor
  · intro lines line v rest hsized hne hfit hlen
    by_contra hnot
    have hlead := Sized.leads_chunk hsized hne
    rw [← toNat_ofInt] at hfit hlen hnot
    obtain ⟨expr, hread⟩ := read_badData hlead hfit hlen hnot
    have hrest : rest.length ≤ stream.length := Leads.rest_le hlead
    have hreturns := hcall stream [] (List.length_pos_iff.1 (by omega)) (List.append_nil _)
    rw [hread] at hreturns
    cases hreturns with
    | error h => cases h
  · intro lines line v rest hsized hwrap
    by_contra hlong
    have hlead := Sized.leads_chunk hsized (by omega)
    rw [← toNat_ofInt] at hwrap hlong
    -- cut where the chunk seems to end in the middle of its CRLF
    obtain ⟨done, hdone, hfront⟩ := Leads.front hlead
    have hdone : stream = done ++ rest := hdone
    have hlen : (rest.take (UInt32.ofInt v).toNat).length = (UInt32.ofInt v).toNat := by
      rw [List.length_take]
      omega
    obtain ⟨expr, hread⟩ := @read_wrap (done ++ rest.take (UInt32.ofInt v).toNat) _ _ (hfront _) hwrap hlen
    have hreturns := hcall (done ++ rest.take (UInt32.ofInt v).toNat) (rest.drop (UInt32.ofInt v).toNat)
      (List.length_pos_iff.1 (by rw [List.length_append]; omega))
      (by rw [List.append_assoc, List.take_append_drop, hdone])
    rw [hread] at hreturns
    cases hreturns with
    | error h => cases h
  · intro lines line v trailer rest hsized hzero htrailer
    have hlead := Sized.leads_trailer hsized hzero
    obtain ⟨p, hread⟩ := read_complete hlead htrailer
    have hrest : (trailer ++ crlf ++ rest).length ≤ stream.length := Leads.rest_le hlead
    simp only [List.length_append, length_crlf] at hrest
    have hreturns := hcall stream [] (List.length_pos_iff.1 (by omega)) (List.append_nil _)
    rw [hread] at hreturns
    cases hreturns with
    | ok h =>
      -- what has been accepted is a chunked body, so the lines in it are those of the body
      obtain ⟨done, hdone, -⟩ := Leads.front hlead
      have hdone : stream = done ++ (trailer ++ crlf) ++ rest := by
        rw [List.append_assoc]
        exact hdone
      have hsplit : stream = stream.take (stream.length - rest.length) ++ rest := by
        rw [hdone, List.length_append, Nat.add_sub_cancel, List.take_left]
      obtain ⟨hlines, hhuge', body, htail, hbody⟩ := Passes.plain hsized.passes (h _ rfl).2 hsplit hhuge
      intro l hl
      rcases List.mem_append.1 hl with hl | hl
      · exact hlines l hl
      · obtain rfl := List.mem_singleton.1 hl
        exact (IsChunkedBody.front hbody hsized.header htail hhuge').1

/-- If a stream is tidy, it is read as the parser should in whatever way it is cut; and only then, unless there are 4 GiB
after a size line that says so. -/
theorem accepts_only_bodies (stream : Bytes) :
    (Tidy stream → ∀ pieces : List Bytes, pieces.flatten = stream → AcceptsOnlyBodies pieces) ∧
    (NoHuge stream → (∀ pieces : List Bytes, (∀ piece ∈ pieces, piece ≠ []) → pieces.flatten = stream →
      AcceptsOnlyBodies pieces) → Tidy stream) :=
  ⟨fun htidy _ hpieces => htidy.accepts hpieces, tidy_of_accepts⟩

/-! ## Bodies as they are written -/

section

variable {chunks : List Chunk} {more : Bytes}

theorem sizeLine_zero : SizeLine (ascii "0") 0 := ⟨by decide, by decide, by decide, by decide⟩

/-- The first line of a body. -/
theorem front_chunk {line rest : Bytes} {v : Int} (hline : HeaderLine line v) (hwf : ∀ c ∈ chunks, c.WellFormed)
    (hstream : line ++ crlf ++ rest = chunkedBody chunks ++ more) :
    (chunks = [] ∧ SizeLine line 0 ∧ v = 0) ∨ ∃ c cs, chunks = c :: cs ∧ SizeLine line c.data.length ∧
      kept v = c.data.length ∧ rest = c.data ++ (crlf ++ (chunkedBody cs ++ more)) := by
  cases chunks with
  | nil =>
    have hzero : chunkedBody [] ++ more = ascii "0" ++ crlf ++ (crlf ++ more) := by simp [chunkedBody]
    rw [hzero] at hstream
    obtain ⟨rfl, -⟩ := line_unique hline.oneLine sizeLine_zero.oneLine hstream
    exact Or.inl ⟨rfl, sizeLine_zero, hline.sizeLine sizeLine_zero⟩
  | cons c cs =>
    have hc := hwf c (List.mem_cons_self ..)
    have hfit := hc.fits
    have hsplit : chunkedBody (c :: cs) ++ more =
        c.size ++ c.suffix ++ crlf ++ (c.data ++ (crlf ++ (chunkedBody cs ++ more))) := by simp [chunkedBody, Chunk.bytes]
    rw [hsplit] at hstream
    obtain ⟨rfl, hrest⟩ := line_unique hline.oneLine hc.sizeLine.oneLine hstream
    obtain rfl := hline.sizeLine hc.sizeLine
    exact Or.inr ⟨c, cs, rfl, hc.sizeLine, kept_natCast (by omega), hrest⟩

/-- The chunks of a body are passed one by one, and their size lines are plain. -/
theorem Passes.wellFormed {stream tail : Bytes} {lines : List Bytes} (h : Passes stream lines tail) :
    ∀ {chunks : List Chunk}, (∀ c ∈ chunks, c.WellFormed) → stream = chunkedBody chunks ++ more →
      (∀ l ∈ lines, ∃ n < 2 ^ 32, SizeLine l n) ∧
        ∃ left, (∀ c ∈ left, c.WellFormed) ∧ tail = chunkedBody left ++ more := by
  induction h with
  | nil =>
    intro chunks hwf hstream
    exact ⟨by simp, chunks, hwf, hstream⟩
  | @cons line data rest tail v lines h hdata hlen hfit _ ih =>
    intro chunks hwf hstream
    rcases front_chunk h hwf hstream with ⟨-, -, rfl⟩ | ⟨c, cs, rfl, hline, hkept, hrest⟩
    · exact absurd (List.length_eq_zero_iff.1 hlen) hdata
    · obtain ⟨-, hrest⟩ := List.append_inj hrest (hlen.trans hkept)
      obtain ⟨hlines, hleft⟩ := ih (fun c' hc' => hwf c' (List.mem_cons_of_mem _ hc')) (List.append_cancel_left hrest)
      exact ⟨List.forall_mem_cons.2 ⟨⟨c.data.length, by omega, hline⟩, hlines⟩, hleft⟩

/-- A body with chunks that 32 bits hold with their CRLF is tidy, whatever follows it. -/
theorem tidy_chunkedBody (hwf : ∀ c ∈ chunks, c.WellFormed) : Tidy (chunkedBody chunks ++ more) := by
  have hsized : ∀ {lines line v rest}, Sized (chunkedBody chunks ++ more) lines line v rest →
      (∀ l ∈ lines, ∃ n < 2 ^ 32, SizeLine l n) ∧ ((SizeLine line 0 ∧ v = 0) ∨ ∃ data rest' : Bytes,
        kept v = data.length ∧ data ≠ [] ∧ data.length < 2 ^ 32 - 2 ∧ rest = data ++ (crlf ++ rest')) := by
    rintro lines line v rest ⟨hpasses, hline⟩
    obtain ⟨hlines, left, hleft, htail⟩ := hpasses.wellFormed hwf rfl
    refine ⟨hlines, ?_⟩
    rcases front_chunk hline hleft htail with ⟨-, hzero, hv⟩ | ⟨c, cs, rfl, -, hkept, hrest⟩
    · exact Or.inl ⟨hzero, hv⟩
    · have hc := hleft c (List.mem_cons_self ..)
      exact Or.inr ⟨c.data, _, hkept, hc.data, hc.fits, hrest⟩
  constructor
  · intro lines line v rest h hne _ _
    rcases (hsized h).2 with ⟨-, rfl⟩ | ⟨data, rest', hkept, -, -, rfl⟩
    · exact absurd rfl hne
    · rw [hkept, List.drop_left]
      exact List.prefix_append _ _
  · intro lines line v rest h hwrap
    rcases (hsized h).2 with ⟨-, rfl⟩ | ⟨data, rest', hkept, -, hfits, -⟩
    · exact absurd hwrap (by decide)
    · omega
  · intro lines line v trailer rest h hzero _ l hl
    obtain ⟨hlines, ⟨hline, -⟩ | ⟨data, rest', hkept, hdata, -, -⟩⟩ := hsized h
    · rcases List.mem_append.1 hl with hl | hl
      · exact hlines l hl
      · obtain rfl := List.mem_singleton.1 hl
        exact ⟨0, by decide, hline⟩
    · exact absurd (List.length_eq_zero_iff.1 (hkept.symm.trans hzero)) hdata

end

/-- A body with an extension, cut in its data, and what follows it. -/
theorem accepts_only_bodies_small : AcceptsOnlyBodies [ascii "3; x\r\na", ascii "\r\n\r", ascii "\n0\r\n\r\nHT"] := by
  refine (accepts_only_bodies (chunkedBody [⟨ascii "3", some (ascii " x"), ascii "a\r\n"⟩] ++ ascii "HT")).1
    (tidy_chunkedBody fun c hc => ?_) _ (by decide)
  obtain rfl := List.mem_singleton.1 hc
  exact ⟨by decide, by decide, by decide, by decide, by decide, fun e he => by cases he; decide⟩

/-- One chunk of one byte, with something else where its CRLF should be. -/
theorem missing_crlf_asserts : ¬ AcceptsOnlyBodies [ascii "1\r\naXX"] ∧
    read { trailersEnabled := false } (ascii "1\r\naXX") =
      .error (.assertion "parser_buffer_.substr( current_chunk_size_, 2 ) == \"\\r\\n\"") := by
  have hread : read { trailersEnabled := false } (ascii "1\r\naXX") =
      .error (.assertion "parser_buffer_.substr( current_chunk_size_, 2 ) == \"\\r\\n\"") := by decide +kernel
  refine ⟨fun h => ?_, hread⟩
  have hreturns := h [] (ascii "1\r\naXX") [] _ rfl rfl
  rw [hread] at hreturns
  cases hreturns with
  | error h => cases h

end ChunkedBodyParser

end AbcMahimahi.Http
