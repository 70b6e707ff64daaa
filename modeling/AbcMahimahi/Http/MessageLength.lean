/-
Where the body of a response ends. RFC 2616, section 4.4, tells it from the status code, the request and the headers: a
body is empty, chunked, of the length that a header gives, self-delimiting, or ended by the end of the stream. The rules of
the source look at the first header of a name only, at the last element of its list as it is written, and at the headers
for whether a chunked body has trailers; the bodies that they find are a part of the others.
-/
import AbcMahimahi.Http.Response
import AbcMahimahi.Http.Trailers
import Mathlib.Data.List.DropRight

namespace AbcMahimahi.Http

open Bytes

/-! ## Tokens -/

/-- Space and tab. -/
def isBlank (b : UInt8) : Bool := b = 32 || b = 9

/-- Without the blanks at both ends. -/
def trim (x : Bytes) : Bytes := (x.dropWhile isBlank).rdropWhile isBlank

/-- The name in whatever case, with blanks around it. -/
def Names (x name : Bytes) : Prop := (trim x).map httpToLower = name

instance (x name : Bytes) : Decidable (Names x name) := inferInstanceAs (Decidable (_ = _))

/-- The transfer codings of all headers, in order. -/
def codings (headers : List HTTPHeader) : List Bytes :=
  (headers.filter fun h => equivalentStrings h.key (ascii "Transfer-Encoding")).flatMap fun h => split h.value 44

/-! ## RFC 2616 -/

/-- The responses that have no body whatever their headers say. -/
def NoBody (request : HTTPRequest) (code : Bytes) : Prop :=
  code.head? = some 49 ∨ code = ascii "204" ∨ code = ascii "304" ∨ ascii "HEAD " <+: request.firstLine

/-- The last coding, and no other, is chunked. -/
def CodedChunked (headers : List HTTPHeader) : Prop :=
  ∃ front last, codings headers = front ++ [last] ∧ Names last (ascii "chunked") ∧ ∀ c ∈ front, ¬ Names c (ascii "chunked")

/-- There is no coding but the identity. -/
def Uncoded (headers : List HTTPHeader) : Prop := ∀ c ∈ codings headers, Names c (ascii "identity") ∨ Names c []

/-- The body delimits itself. -/
def Multipart (headers : List HTTPHeader) : Prop :=
  ∃ value, valueOf headers (ascii "Content-Type") = some value ∧
    Names ((split value 59).headD []) (ascii "multipart/byteranges")

/-- Chunks of such sizes, a last chunk and such trailers. -/
inductive ChunkedText (trailers : List Bytes) : List Nat → Bytes → Prop
  | last {line : Bytes} (h : SizeLine line 0) : ChunkedText trailers [] (line ++ crlf ++ trailerSection trailers)
  | chunk {line data rest : Bytes} {sizes : List Nat} (h : SizeLine line data.length) (hdata : data ≠ [])
      (hrest : ChunkedText trailers sizes rest) :
      ChunkedText trailers (data.length :: sizes) (line ++ crlf ++ (data ++ (crlf ++ rest)))

/-- The body that goes with a status code and headers, and whether only the end of the stream ends it. What is between the
boundaries of a self-delimiting body is left open. -/
inductive Body (request : HTTPRequest) (code : Bytes) (headers : List HTTPHeader) : Bool → Bytes → Prop
  | none (h : NoBody request code) : Body request code headers false []
  | chunked {trailers : List Bytes} {sizes : List Nat} {body : Bytes} (h : ¬ NoBody request code)
      (hcoding : CodedChunked headers) (htrailers : ∀ t ∈ trailers, TrailerLine t)
      (hbody : ChunkedText trailers sizes body) : Body request code headers false body
  | length {value body : Bytes} (h : ¬ NoBody request code) (hcoding : Uncoded headers)
      (hvalue : valueOf headers (ascii "Content-Length") = some value) (hlength : Decimal (trim value) body.length) :
      Body request code headers false body
  | byteranges {body : Bytes} (h : ¬ NoBody request code) (hcoding : Uncoded headers)
      (hlength : valueOf headers (ascii "Content-Length") = Option.none) (htype : Multipart headers) :
      Body request code headers false body
  | untilEof {body : Bytes} (h : ¬ NoBody request code) (hcoding : ∀ c ∈ codings headers, ¬ Names c (ascii "chunked"))
      (hother : Uncoded headers → valueOf headers (ascii "Content-Length") = Option.none ∧ ¬ Multipart headers) :
      Body request code headers true body

/-! ## What the rules of the source find -/

/-- Rule 2 applies. -/
def SeesChunked (headers : List HTTPHeader) : Prop :=
  ∃ value, valueOf headers (ascii "Transfer-Encoding") = some value ∧
    equivalentStrings ((split value 44).getLastD []) (ascii "chunked") = true

/-- Rule 4 throws nothing. -/
def TypeAllowed (headers : List HTTPHeader) : Prop :=
  ∀ value ∈ valueOf headers (ascii "Content-Type"), (split value 59).headD [] ≠ [] ∧
    equivalentStrings ((split value 59).headD []) (ascii "multipart/byteranges") = false

/-- The bodies that the rules find, where the stream may end after them. -/
inductive Found (request : HTTPRequest) (code : Bytes) (headers : List HTTPHeader) (eof : Bool) : Bytes → Prop
  | none (h : NoBody request code) : Found request code headers eof []
  | chunked {trailers : List Bytes} {sizes : List Nat} {body : Bytes} (h : ¬ NoBody request code)
      (hsees : SeesChunked headers) (htrailers : ∀ t ∈ trailers, TrailerLine t) (hbody : ChunkedText trailers sizes body)
      (hfits : ∀ n ∈ sizes, n < 2 ^ 32 - 2)
      (hannounced : (valueOf headers (ascii "Trailer")).isSome = true ↔ trailers ≠ []) : Found request code headers eof body
  | lastChunked {sizes : List Nat} {body : Bytes} (h : ¬ NoBody request code) (hsees : SeesChunked headers)
      (hbody : ChunkedText [] sizes body) (hfits : ∀ n ∈ sizes, n < 2 ^ 32 - 2)
      (hannounced : (valueOf headers (ascii "Trailer")).isSome = true) (heof : eof = true) : Found request code headers eof body
  | length {value body : Bytes} (h : ¬ NoBody request code)
      (hcoding : valueOf headers (ascii "Transfer-Encoding") = Option.none)
      (hvalue : valueOf headers (ascii "Content-Length") = some value) (hlength : SignedDecimal value body.length)
      (hfits : body.length < 2 ^ 63) : Found request code headers eof body
  | untilEof {body : Bytes} (h : ¬ NoBody request code) (hsees : ¬ SeesChunked headers)
      (hlength : valueOf headers (ascii "Transfer-Encoding") = Option.none →
        valueOf headers (ascii "Content-Length") = Option.none)
      (htype : TypeAllowed headers) (heof : eof = true) : Found request code headers eof body

theorem Found.mono {request : HTTPRequest} {code body : Bytes} {headers : List HTTPHeader}
    (h : Found request code headers false body) (eof : Bool) : Found request code headers eof body := by
  cases h with
  | none h => exact .none h
  | chunked h hsees htrailers hbody hfits hannounced => exact .chunked h hsees htrailers hbody hfits hannounced
  | lastChunked _ _ _ _ _ heof => cases heof
  | length h hcoding hvalue hlength hfits => exact .length h hcoding hvalue hlength hfits
  | untilEof _ _ _ _ heof => cases heof

/-! ## Names -/

theorem all_zip {α β : Type} {p : α → β → Bool} : ∀ {x : List α} {y : List β}, x.length = y.length →
    ((x.zip y).all (fun c => p c.1 c.2) = true ↔ List.Forall₂ (fun a b => p a b = true) x y)
  | [], [], _ => by simp
  | [], _ :: _, h => by simp at h
  | _ :: _, [], h => by simp at h
  | a :: x, b :: y, h => by
    rw [List.zip_cons_cons, List.all_cons, Bool.and_eq_true, all_zip (by simpa using h), List.forall₂_cons]

/-- Strings are equivalent when they are equal in lower case without the spaces at their front. -/
theorem equivalentStrings_iff {a b : Bytes} : equivalentStrings a b = true ↔
    (stripInitialWhitespace a).map httpToLower = (stripInitialWhitespace b).map httpToLower := by
  unfold equivalentStrings
  dsimp only
  by_cases hlen : (stripInitialWhitespace a).length = (stripInitialWhitespace b).length
  · rw [if_neg (by simpa using hlen)]
    have hzip := all_zip (p := fun x y => decide (httpToLower x = httpToLower y)) hlen
    refine hzip.trans ?_
    rw [← List.forall₂_eq_eq_eq, List.forall₂_map_left_iff, List.forall₂_map_right_iff]
    simp only [decide_eq_true_eq]
  · rw [if_pos (by simpa using hlen)]
    refine iff_of_false Bool.false_ne_true fun h => hlen ?_
    have := congrArg List.length h
    rwa [List.length_map, List.length_map] at this

theorem stripInitialWhitespace_eq : ∀ x : Bytes, stripInitialWhitespace x = x.dropWhile (· = 32)
  | [] => rfl
  | b :: bs => by
    have ih := stripInitialWhitespace_eq bs
    by_cases hb : b = 32
    · rw [List.dropWhile_cons_of_pos (by simpa using hb), ← ih]
      unfold stripInitialWhitespace
      rw [show findFirstNotOf 32 (b :: bs) = (findFirstNotOf 32 bs).map (· + 1) from if_pos hb]
      cases findFirstNotOf 32 bs <;> rfl
    · rw [List.dropWhile_cons_of_neg (by simpa using hb)]
      unfold stripInitialWhitespace
      rw [findFirstNotOf_head hb]
      rfl

/-- A word with spaces in front of it. -/
theorem trim_of_spaces {x w : Bytes} (h : x.dropWhile (· = 32) = w) (hw : ∀ b ∈ w, isBlank b = false) : trim x = w := by
  have hdrop : ∀ {x : Bytes}, x.dropWhile (· = 32) = w → x.dropWhile isBlank = w := by
    intro x
    induction x with
    | nil => exact id
    | cons b bs ih =>
      intro h
      by_cases hb : b = 32
      · rw [List.dropWhile_cons_of_pos (by simpa using hb)] at h
        rw [List.dropWhile_cons_of_pos (by simp [isBlank, hb]), ih h]
      · rw [List.dropWhile_cons_of_neg (by simpa using hb)] at h
        rw [List.dropWhile_cons_of_neg (by rw [hw b (by rw [← h]; exact List.mem_cons_self ..)]; decide), h]
  unfold trim
  rw [hdrop h, List.rdropWhile_eq_self_iff]
  intro hne
  rw [hw _ (List.getLast_mem hne)]
  decide

/-- What the source takes for the name is the name. -/
theorem names_of_equivalent {x name : Bytes} (hname : name.any isBlank = false)
    (hstrip : (stripInitialWhitespace name).map httpToLower = name) (h : equivalentStrings x name = true) : Names x name := by
  have hlower := equivalentStrings_iff.1 h
  rw [hstrip, stripInitialWhitespace_eq] at hlower
  have htrim := trim_of_spaces (x := x) rfl fun b hb => by
    by_contra hblank
    rw [Bool.not_eq_false] at hblank
    have hmem : httpToLower b ∈ name := by
      rw [← hlower]
      exact List.mem_map_of_mem hb
    have hsame : httpToLower b = b := by
      unfold isBlank at hblank
      rcases Bool.or_eq_true _ _ ▸ hblank with h | h
      · rw [of_decide_eq_true h]; decide
      · rw [of_decide_eq_true h]; decide
    rw [hsame] at hmem
    exact List.any_eq_false.1 hname b hmem hblank
  unfold Names
  rw [htrim, hlower]

/-! ## The headers that the rules look at -/

section

variable {headers : List HTTPHeader}

theorem split_ne_nil (x : Bytes) (separator : UInt8) : split x separator ≠ [] := by
  unfold split
  split
  · exact List.cons_ne_nil _ _
  · exact List.cons_ne_nil _ _

/-- A coding that rule 2 takes for chunked is chunked. -/
theorem SeesChunked.coding (h : SeesChunked headers) : ∃ c ∈ codings headers, Names c (ascii "chunked") := by
  obtain ⟨value, hvalue, hlast⟩ := h
  obtain ⟨header, hheader, rfl⟩ := Option.map_eq_some_iff.1 hvalue
  refine ⟨(split header.value 44).getLastD [], ?_, names_of_equivalent rfl rfl hlast⟩
  have hmem : (split header.value 44).getLastD [] ∈ split header.value 44 := by
    rw [List.getLastD_eq_getLast?, List.getLast?_eq_getLast_of_ne_nil (split_ne_nil _ _)]
    exact List.getLast_mem _
  have hkey : equivalentStrings header.key (ascii "Transfer-Encoding") = true :=
    List.find?_some (p := fun (h : HTTPHeader) => equivalentStrings h.key (ascii "Transfer-Encoding")) hheader
  unfold codings
  rw [List.mem_flatMap]
  exact ⟨header, List.mem_filter.2 ⟨List.mem_of_find?_eq_some hheader, hkey⟩, hmem⟩

end

namespace ChunkedText

open ChunkedBodyParser Relation

variable {trailers : List Bytes} {sizes : List Nat} {body : Bytes}

/-- The chunks lead to the trailers, whatever comes in their place. -/
theorem leads (h : ChunkedText trailers sizes body) : (∀ n ∈ sizes, n < 2 ^ 32 - 2) →
    ∃ front, body = front ++ trailerSection trailers ∧ ∀ size x, Leads ⟨.chunkHdr, size, front ++ x⟩ ⟨.trailer, 0, x⟩ := by
  induction h with
  | @last line hline =>
    intro _
    exact ⟨line ++ crlf, rfl, fun size x =>
      ReflTransGen.single (Moves.header hline.oneLine (getChunkSize_header (hline.header (by decide))))⟩
  | @chunk line data rest sizes hline hdata _ ih =>
    intro hfits
    obtain ⟨hfit, hfits⟩ := List.forall_mem_cons.1 hfits
    obtain ⟨front, rfl, hfront⟩ := ih hfits
    refine ⟨line ++ crlf ++ (data ++ (crlf ++ front)), by simp only [List.append_assoc], fun size x => ?_⟩
    have hsize : (UInt32.ofInt data.length).toNat = data.length := by
      rw [toNat_ofInt, kept_natCast (by omega)]
    have hzero : UInt32.ofInt data.length ≠ 0 := Word.ne_zero_of_pos (by rw [hsize]; exact List.length_pos_iff.2 hdata)
    have hheader := @Moves.header line (data ++ (crlf ++ (front ++ x))) size _ hline.oneLine
      (getChunkSize_header (hline.header (by omega)))
    rw [if_neg hzero] at hheader
    have hlead : Leads _ ⟨.trailer, 0, x⟩ := ((hfront (UInt32.ofInt data.length) x).head (.data hsize.symm (by omega))).head hheader
    simpa only [List.append_assoc] using hlead

theorem flatten_bytes (x : Bytes) : (x.map fun b => [b]).flatten = x := by
  rw [← List.flatMap_def, List.flatMap_singleton']

/-- The end of a text that is read byte by byte. -/
theorem endsAt_bytes {announced : Bool} {x tail : Bytes} {loc last : Nat} (hlead : Leads (start x) ⟨.trailer, 0, tail⟩)
    (hfind : find (ending announced) tail = some loc) (hlast : last + tail.length = x.length + (loc + (ending announced).length)) :
    EndsAt announced last (x.map fun b => [b]) := by
  rw [← flatten_bytes x] at hlead hlast
  exact (between_start announced (x.map fun b => [b]).flatten).feed hlead hfind hlast

/-- Where trailers are looked for exactly if there are any, the end is found at the last byte. -/
theorem endsAt (h : ChunkedText trailers sizes body) (hfits : ∀ n ∈ sizes, n < 2 ^ 32 - 2) (htrailers : ∀ t ∈ trailers, TrailerLine t)
    {announced : Bool} (hannounced : announced = true ↔ trailers ≠ []) :
    EndsAt announced body.length (body.map fun b => [b]) := by
  obtain ⟨front, rfl, hfront⟩ := h.leads hfits
  cases announced with
  | true =>
    obtain ⟨loc, hfind, hloc⟩ := find_trailers (hannounced.1 rfl) htrailers []
    rw [List.append_nil] at hfind
    exact endsAt_bytes (hfront 0 _) hfind (by rw [← hloc]; rfl)
  | false =>
    obtain rfl : trailers = [] := by
      by_contra hne
      exact absurd (hannounced.2 hne) (by decide)
    exact endsAt_bytes (hfront 0 _) (show find (ending false) (trailerSection []) = some 0 by decide) rfl

/-- Where there are none and some are looked for, no end is found up to the byte after the last one. -/
theorem waits (h : ChunkedText [] sizes body) (hfits : ∀ n ∈ sizes, n < 2 ^ 32 - 2) {next : Bytes} (hnext : next.length < 2) :
    ∃ p', Run.steps read { trailersEnabled := true } ((body ++ next).map fun b => [b]) =
      .ok (List.replicate (body ++ next).length none, p') := by
  obtain ⟨front, rfl, hfront⟩ := h.leads hfits
  have hnone : find (ending true) (trailerSection [] ++ next) = none := by
    cases hfind : find (ending true) (trailerSection [] ++ next) with
    | none => rfl
    | some loc =>
      have hbound := find_bound hfind
      rw [List.length_append, show (ending true).length = 4 from rfl, show (trailerSection []).length = 2 from rfl] at hbound
      omega
  have hlead : Leads (start (front ++ trailerSection [] ++ next)) ⟨.trailer, 0, trailerSection [] ++ next⟩ := by
    rw [List.append_assoc]
    exact hfront 0 _
  rw [← flatten_bytes (front ++ trailerSection [] ++ next)] at hlead
  obtain ⟨p', hsteps⟩ := (between_start true _).waits hlead hnone
  rw [List.length_map] at hsteps
  exact ⟨p', hsteps⟩

end ChunkedText

/-! ## What the rules do -/

/-- A response whose headers are done, with a status code. -/
structure HeadersDone (m : HTTPResponse) (code : Bytes) : Prop where
  state : m.state = .bodyPending
  status : m.statusCode = .ok code
  code : code ≠ []
  request : m.members.request.state = .complete

/-- How the size of the body is found, or why it is not. -/
inductive Calculated (m : HTTPResponse) (code : Bytes) : Except Fault HTTPResponse → Prop
  | none (h : NoBody m.members.request code) : Calculated m code (.ok { m with expected := (true, 0) })
  | chunked (h : ¬ NoBody m.members.request code) (hsees : SeesChunked m.headers) :
      Calculated m code (.ok { m with
        expected := (false, 2 ^ 64 - 1)
        members := ⟨m.members.request, some (.chunked { trailersEnabled := (valueOf m.headers (ascii "Trailer")).isSome })⟩ })
  | length {value : Bytes} {k : Int} (h : ¬ NoBody m.members.request code)
      (hcoding : valueOf m.headers (ascii "Transfer-Encoding") = Option.none)
      (hvalue : valueOf m.headers (ascii "Content-Length") = some value) (hlength : SignedDecimal value k)
      (hlong : -2 ^ 63 ≤ k ∧ k < 2 ^ 63) : Calculated m code (.ok { m with expected := (true, (k % 2 ^ 64).toNat) })
  | badLength {value : Bytes} {e : Fault} (h : ¬ NoBody m.members.request code)
      (hcoding : valueOf m.headers (ascii "Transfer-Encoding") = Option.none)
      (hvalue : valueOf m.headers (ascii "Content-Length") = some value)
      (hbad : ∀ k, SignedDecimal value k → ¬ (-2 ^ 63 ≤ k ∧ k < 2 ^ 63)) : Calculated m code (.error e)
  | untilEof (h : ¬ NoBody m.members.request code) (hsees : ¬ SeesChunked m.headers)
      (hlength : valueOf m.headers (ascii "Transfer-Encoding") = Option.none →
        valueOf m.headers (ascii "Content-Length") = Option.none) (htype : TypeAllowed m.headers) :
      Calculated m code (.ok { m with expected := (false, 2 ^ 64 - 1), members := ⟨m.members.request, some .rule5⟩ })
  | badType {e : Fault} (h : ¬ NoBody m.members.request code) (hsees : ¬ SeesChunked m.headers)
      (hlength : valueOf m.headers (ascii "Transfer-Encoding") = Option.none →
        valueOf m.headers (ascii "Content-Length") = Option.none) (htype : ¬ TypeAllowed m.headers) :
      Calculated m code (.error e)

namespace HTTPResponse

variable {m : HTTPResponse} {code : Bytes}

theorem setExpectedBodySize_of (hstate : m.state = .bodyPending) (isKnown : Bool) (value : Nat) :
    m.setExpectedBodySize isKnown value = .ok { m with expected := (isKnown, value) } := by
  unfold HTTPMessage.setExpectedBodySize
  rw [check_of (by simpa using hstate)]
  rfl

theorem setBodyParser_of (hstate : m.state = .bodyPending) (p : BodyParser) :
    m.setBodyParser p =
      .ok { m with expected := (false, 2 ^ 64 - 1), members := { m.members with bodyParser := some p } } := by
  unfold setBodyParser
  rw [setExpectedBodySize_of hstate]
  rfl

/-- Rule 1 is the one that says there is no body. -/
theorem ruleOne_of (h : HeadersDone m code) : ∃ one, m.ruleOne = .ok one ∧ (one = true ↔ NoBody m.members.request code) := by
  obtain ⟨first, more, hcode⟩ := List.exists_cons_of_ne_nil h.code
  have hhead : m.members.request.isHead = .ok (decide (m.members.request.firstLine.take 5 = ascii "HEAD ")) := by
    unfold HTTPRequest.isHead
    rw [h.request]
    rfl
  have hstarts : ascii "HEAD " <+: m.members.request.firstLine ↔ m.members.request.firstLine.take 5 = ascii "HEAD " :=
    List.prefix_iff_eq_take.trans eq_comm
  unfold ruleOne NoBody
  rw [h.status, Run.ok_bind, hstarts, hcode, show orOutOfRange (first :: more).head? = .ok first from rfl, Run.ok_bind]
  -- 1xx, 204 and 304 are told from the code alone; otherwise it is the request that counts
  by_cases hnone : first = 49 ∨ first :: more = ascii "204" ∨ first :: more = ascii "304"
  · refine ⟨true, if_pos hnone, iff_of_true rfl ?_⟩
    rcases hnone with hnone | hnone | hnone
    · exact Or.inl (congrArg some hnone)
    · exact Or.inr (Or.inl hnone)
    · exact Or.inr (Or.inr (Or.inl hnone))
  · refine ⟨_, (if_neg hnone).trans hhead, ?_⟩
    rw [decide_eq_true_iff]
    constructor
    · intro hline
      exact Or.inr (Or.inr (Or.inr hline))
    · rintro (h₁ | h₂ | h₃ | hline)
      · exact absurd (Or.inl (Option.some.inj h₁)) hnone
      · exact absurd (Or.inr (Or.inl h₂)) hnone
      · exact absurd (Or.inr (Or.inr h₃)) hnone
      · exact hline

theorem ruleTwo_of (m : HTTPResponse) : ∃ two, m.ruleTwo = .ok two ∧ (two = true ↔ SeesChunked m.headers) := by
  unfold ruleTwo
  rw [HTTPMessage.hasHeader_eq]
  cases hvalue : valueOf m.headers (ascii "Transfer-Encoding") with
  | none =>
    refine ⟨false, rfl, iff_of_false Bool.false_ne_true ?_⟩
    rintro ⟨value, hvalue', -⟩
    rw [hvalue] at hvalue'
    cases hvalue'
  | some value =>
    rw [Option.isSome_some, if_pos rfl, HTTPMessage.getHeaderValue_some hvalue]
    refine ⟨_, rfl, fun h => ⟨value, hvalue, h⟩, ?_⟩
    rintro ⟨value', hvalue', h⟩
    rw [hvalue] at hvalue'
    cases hvalue'
    exact h

/-- Rule 4 and the last: a type that is allowed makes a body until the end of the stream, another makes an exception. -/
theorem lastRules_of (hstate : m.state = .bodyPending) :
    TypeAllowed m.headers ∧ m.lastRules = .ok { m with
      expected := (false, 2 ^ 64 - 1)
      members := ⟨m.members.request, some .rule5⟩ } ∨
    ¬ TypeAllowed m.headers ∧ ∃ e, m.lastRules = .error e := by
  unfold lastRules ruleFour
  rw [HTTPMessage.hasHeader_eq]
  -- no type at all is a type that is allowed
  cases hvalue : valueOf m.headers (ascii "Content-Type") with
  | none =>
    refine Or.inl ⟨fun value h => ?_, ?_⟩
    · rw [hvalue] at h
      cases h
    · rw [if_neg (by decide), Run.pure_ok, Run.ok_bind, if_neg Bool.false_ne_true, setBodyParser_of hstate]
  | some value =>
    have hallowed : TypeAllowed m.headers ↔ (split value 59).headD [] ≠ [] ∧
        equivalentStrings ((split value 59).headD []) (ascii "multipart/byteranges") = false := by
      unfold TypeAllowed
      rw [hvalue]
      exact ⟨fun h => h value rfl, fun h _ hv => by cases hv; exact h⟩
    obtain ⟨type, types, htypes⟩ := List.exists_cons_of_ne_nil (split_ne_nil value 59)
    rw [htypes, List.headD_cons] at hallowed
    have hmime : mimeType value =
        if type.isEmpty then throw (.runtimeError (ascii "MIMEType: invalid MIME media-type string")) else pure type := by
      unfold mimeType
      rw [htypes]
    rw [hallowed, Option.isSome_some, if_pos rfl, HTTPMessage.getHeaderValue_some hvalue, Run.ok_bind, hmime]
    -- a media type of no bytes is thrown at
    by_cases hempty : type = []
    · subst hempty
      exact Or.inr ⟨fun h => h.1 rfl, _, rfl⟩
    · rw [if_neg (by simpa using hempty), Run.pure_ok, Run.ok_bind]
      cases hother : equivalentStrings type (ascii "multipart/byteranges") with
      | false =>
        refine Or.inl ⟨⟨hempty, rfl⟩, ?_⟩
        rw [Run.pure_ok, Run.ok_bind, if_neg Bool.false_ne_true, setBodyParser_of hstate]
      | true =>
        refine Or.inr ⟨fun h => absurd h.2 (by decide), ?_⟩
        rw [Run.pure_ok, Run.ok_bind, if_pos rfl, setExpectedBodySize_of hstate]
        exact ⟨_, rfl⟩

theorem calculated (h : HeadersDone m code) : Calculated m code m.calculateExpectedBodySize := by
  obtain ⟨one, hone, honeIff⟩ := ruleOne_of h
  obtain ⟨two, htwo, htwoIff⟩ := ruleTwo_of m
  unfold calculateExpectedBodySize
  rw [check_of (by simpa using h.state), Run.ok_bind, hone, Run.ok_bind]
  cases one with
  | true =>
    rw [if_pos rfl, setExpectedBodySize_of h.state]
    exact .none (honeIff.1 rfl)
  | false =>
    have hno : ¬ NoBody m.members.request code := fun hno => absurd (honeIff.2 hno) (by decide)
    rw [if_neg Bool.false_ne_true]
    unfold laterRules
    rw [htwo, Run.ok_bind]
    cases two with
    | true =>
      rw [if_pos rfl, setBodyParser_of h.state, HTTPMessage.hasHeader_eq]
      exact .chunked hno (htwoIff.1 rfl)
    | false =>
      have hsees : ¬ SeesChunked m.headers := fun hsees => absurd (htwoIff.2 hsees) (by decide)
      rw [if_neg Bool.false_ne_true, HTTPMessage.hasHeader_eq, HTTPMessage.hasHeader_eq]
      -- a coding other than chunked switches the length off
      cases hcoding : valueOf m.headers (ascii "Transfer-Encoding") with
      | some coding =>
        have hlength : valueOf m.headers (ascii "Transfer-Encoding") = none → valueOf m.headers (ascii "Content-Length") = none := by
          rw [hcoding]
          exact fun hnone => absurd hnone (Option.some_ne_none _)
        rw [if_neg (by simp)]
        rcases lastRules_of h.state with ⟨htype, hlast⟩ | ⟨htype, e, hlast⟩
        · rw [hlast]
          exact .untilEof hno hsees hlength htype
        · rw [hlast]
          exact .badType hno hsees hlength htype
      | none =>
        cases hvalue : valueOf m.headers (ascii "Content-Length") with
        | none =>
          rw [if_neg (by simp)]
          rcases lastRules_of h.state with ⟨htype, hlast⟩ | ⟨htype, e, hlast⟩
          · rw [hlast]
            exact .untilEof hno hsees (fun _ => hvalue) htype
          · rw [hlast]
            exact .badType hno hsees (fun _ => hvalue) htype
        | some value =>
          rw [if_pos (by simp), HTTPMessage.getHeaderValue_some hvalue, Run.ok_bind]
          cases hsize : myatoi value 10 with
          | error e =>
            refine .badLength hno hcoding hvalue fun k hk hlong => ?_
            rw [myatoi_ok_iff.2 ⟨hk, hlong⟩] at hsize
            cases hsize
          | ok k =>
            rw [Run.ok_bind, setExpectedBodySize_of h.state]
            exact .length hno hcoding hvalue (myatoi_ok_iff.1 hsize).1 (myatoi_ok_iff.1 hsize).2

end HTTPResponse

end AbcMahimahi.Http
