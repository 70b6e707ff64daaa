/-
A sequence of messages parsed in pieces: parsing one byte and then the rest gives what parsing both
at once gives. Bodies of a known size are shown to do so here, and a class says it of the others.
Complete messages are compared without what nothing reads any more.
-/
import AbcMahimahi.Http.Sequence
import AbcMahimahi.Lib.Pieces

namespace AbcMahimahi.Http

open Bytes

/-! ## Messages -/

namespace HTTPMessage

variable {S : Type}

/-- The message with members that `forget` has stripped of what nothing reads after completion. -/
def forgetting (m : HTTPMessage S) (forget : S → S) : HTTPMessage S := { m with members := forget m.members }

/-- The same message, or two complete ones that differ in what nothing reads any more. -/
def Alike (forget : S → S) (m m' : HTTPMessage S) : Prop :=
  m = m' ∨ m.state = .complete ∧ m'.state = .complete ∧ m.forgetting forget = m'.forgetting forget

/-- Both fail, or the first has taken one byte more and the messages are alike. -/
inductive OneMore (forget : S → S) : Except Fault (Nat × HTTPMessage S) → Except Fault (Nat × HTTPMessage S) → Prop
  | ok {n : Nat} {m m' : HTTPMessage S} (h : Alike forget m m') : OneMore forget (.ok (n + 1, m)) (.ok (n, m'))
  | error {e e' : Fault} : OneMore forget (.error e) (.error e')

/-- What reading one byte `b` of a body says of reading it with more after it. -/
inductive ByteSpec (forget : S → S) (Between : HTTPMessage S → Prop) (read : HTTPMessage S → Bytes → Except Fault (Nat × HTTPMessage S))
    (m : HTTPMessage S) (b : UInt8) (rest : Bytes) : Prop
  | fails {e e' : Fault} (hbyte : read m [b] = .error e) (hall : read m (b :: rest) = .error e')
  | ends {m₁ m₂ : HTTPMessage S} (hbyte : read m [b] = .ok (1, m₁)) (hall : read m (b :: rest) = .ok (1, m₂))
      (hdone : m₁.state = .complete) (hdone' : m₂.state = .complete) (hsame : m₁.forgetting forget = m₂.forgetting forget)
  | goes {m₁ : HTTPMessage S} (hbyte : read m [b] = .ok (1, m₁)) (hbetween : Between m₁)
      (hall : OneMore forget (read m (b :: rest)) (read m₁ rest))

end HTTPMessage

/-- A class of messages whose bodies can be read in pieces. `Reading` holds of the members while a
body of unknown size is read, `Bad` of members and bytes that are the exception. -/
class ReadsInPieces (S : Type) {D : outParam Type} [MessageClass S] [ParserClass S D] where
  forget : S → S
  Reading : S → Prop
  Bad : S → Bytes → Prop
  not_bad_byte (s : S) (b : UInt8) : ¬ Bad s [b]
  start {m m' : HTTPMessage S} {d d' : D} :
    ParserClass.initializeNewMessage m d = .ok (m', d') → m'.body = m.body
  calculate {m m' : HTTPMessage S} : MessageClass.calculateExpectedBodySize m = .ok m' →
    m'.state = m.state ∧ m'.body = m.body ∧ (m'.expected.1 = true ∨ m'.expected.1 = false ∧ Reading m'.members)
  read_nil {m : HTTPMessage S} : m.state = .bodyPending → Reading m.members →
    MessageClass.readInComplexBody m [] = .ok (0, m)
  read_byte {m : HTTPMessage S} {b : UInt8} {rest : Bytes} : m.state = .bodyPending → Reading m.members →
    ¬ Bad m.members (b :: rest) →
    m.ByteSpec forget (fun m₁ => m₁.state = .bodyPending ∧ m₁.expected = m.expected ∧ Reading m₁.members)
      MessageClass.readInComplexBody b rest

namespace HTTPMessage

variable {S D : Type} [MessageClass S] [ParserClass S D] [ReadsInPieces S]

/-- The body is being read, and has not all been. -/
def Between (m : HTTPMessage S) : Prop :=
  m.state = .bodyPending ∧
    (m.expected.1 = true ∧ m.body.length < m.expected.2 ∨ m.expected.1 = false ∧ ReadsInPieces.Reading m.members)

/-! ## Reading a body -/

omit [ParserClass S D] [ReadsInPieces S] in
theorem readInBody_known {m : HTTPMessage S} (hstate : m.state = .bodyPending) (hknown : m.expected.1 = true)
    (hle : m.body.length ≤ m.expected.2) (str : Bytes) :
    m.readInBody str = .ok (min (m.expected.2 - m.body.length) str.length,
      { m with
        body := m.body ++ str.take (min (m.expected.2 - m.body.length) str.length)
        state := if (m.body ++ str.take (min (m.expected.2 - m.body.length) str.length)).length = m.expected.2
          then .complete else m.state }) := by
  have hsize : m.bodySizeIsKnown = .ok true := by
    unfold bodySizeIsKnown
    rw [hstate, hknown]; rfl
  unfold readInBody readInKnownBody expectedBodySize
  rw [check_of (by simpa using hstate), hsize]
  simp only [Run.ok_bind, if_true, check_true]
  rw [Run.pure_ok, Run.ok_bind, check_of (by simpa using hle)]
  rfl

omit [ParserClass S D] [ReadsInPieces S] in
theorem readInBody_complex {m : HTTPMessage S} (hstate : m.state = .bodyPending) (hknown : m.expected.1 = false)
    (str : Bytes) : m.readInBody str = MessageClass.readInComplexBody m str := by
  have hsize : m.bodySizeIsKnown = .ok false := by
    unfold bodySizeIsKnown
    rw [hstate, hknown]; rfl
  unfold readInBody
  rw [check_of (by simpa using hstate), hsize]
  rfl

/-- Reading nothing changes nothing. -/
theorem Between.read_nil {m : HTTPMessage S} (h : m.Between) : m.readInBody [] = .ok (0, m) := by
  obtain ⟨hstate, ⟨hknown, hlt⟩ | ⟨hunknown, hreading⟩⟩ := h
  · rw [readInBody_known hstate hknown (le_of_lt hlt)]
    simp only [List.length_nil, Nat.min_zero, List.take_nil, List.append_nil, if_neg (Nat.ne_of_lt hlt)]
  · rw [readInBody_complex hstate hunknown]
    exact ReadsInPieces.read_nil hstate hreading

/-- Reading one byte of a body of known size, and more after it. -/
theorem byteSpec_known {m : HTTPMessage S} (hstate : m.state = .bodyPending) (hknown : m.expected.1 = true)
    (hlt : m.body.length < m.expected.2) (b : UInt8) (rest : Bytes) :
    m.ByteSpec (ReadsInPieces.forget (S := S)) Between readInBody b rest := by
  have hbyte := readInBody_known hstate hknown (le_of_lt hlt) [b]
  have hall := readInBody_known hstate hknown (le_of_lt hlt) (b :: rest)
  have hmin : min (m.expected.2 - m.body.length) [b].length = 1 := by simp only [List.length_singleton]; omega
  rw [hmin, List.take_of_length_le (by simp)] at hbyte
  by_cases hlast : m.body.length + 1 = m.expected.2
  · have hmin' : min (m.expected.2 - m.body.length) (b :: rest).length = 1 := by simp only [List.length_cons]; omega
    rw [hmin', List.take_succ_cons, List.take_zero] at hall
    have hlen : (m.body ++ [b]).length = m.expected.2 := by simp only [List.length_append, List.length_singleton]; omega
    rw [if_pos hlen] at hbyte hall
    exact .ends hbyte hall rfl rfl rfl
  · have hlen : ¬ (m.body ++ [b]).length = m.expected.2 := by simp only [List.length_append, List.length_singleton]; omega
    rw [if_neg hlen] at hbyte
    have hlt' : (m.body ++ [b]).length < m.expected.2 := by simp only [List.length_append, List.length_singleton]; omega
    refine .goes hbyte ⟨hstate, Or.inl ⟨hknown, hlt'⟩⟩ ?_
    have hmin' : min (m.expected.2 - m.body.length) (b :: rest).length =
        min (m.expected.2 - (m.body ++ [b]).length) rest.length + 1 := by
      simp only [List.length_append, List.length_cons, List.length_nil]; omega
    rw [readInBody_known (m := { m with body := m.body ++ [b] }) hstate hknown (le_of_lt hlt'), hall, hmin',
      List.take_succ_cons]
    simp only [List.append_assoc, List.cons_append, List.nil_append]
    exact .ok (Or.inl rfl)

/-- Reading one byte of a body, and more after it. -/
theorem Between.byteSpec {m : HTTPMessage S} (h : m.Between) (b : UInt8) (rest : Bytes)
    (hsafe : ¬ (m.expected.1 = false ∧ ReadsInPieces.Bad m.members (b :: rest))) :
    m.ByteSpec (ReadsInPieces.forget (S := S)) Between readInBody b rest := by
  obtain ⟨hstate, ⟨hknown, hlt⟩ | ⟨hunknown, hreading⟩⟩ := h
  · exact byteSpec_known hstate hknown hlt b rest
  · cases ReadsInPieces.read_byte hstate hreading (fun hb => hsafe ⟨hunknown, hb⟩) with
    | fails hbyte hall =>
      exact .fails (by rw [readInBody_complex hstate hunknown]; exact hbyte)
        (by rw [readInBody_complex hstate hunknown]; exact hall)
    | ends hbyte hall hdone hdone' hsame =>
      exact .ends (by rw [readInBody_complex hstate hunknown]; exact hbyte)
        (by rw [readInBody_complex hstate hunknown]; exact hall) hdone hdone' hsame
    | @goes m₁ hbyte hbetween hall =>
      obtain ⟨hstate₁, hexpected, hreading₁⟩ := hbetween
      have hunknown₁ : m₁.expected.1 = false := by rw [hexpected]; exact hunknown
      refine .goes (by rw [readInBody_complex hstate hunknown]; exact hbyte)
        ⟨hstate₁, Or.inr ⟨hunknown₁, hreading₁⟩⟩ ?_
      rw [readInBody_complex hstate hunknown, readInBody_complex hstate₁ hunknown₁]
      exact hall

end HTTPMessage

namespace HTTPMessageSequence

variable {S D : Type}

/-- More bytes in the buffer. -/
def append (q : HTTPMessageSequence S D) (x : Bytes) : HTTPMessageSequence S D := { q with buffer := q.buffer ++ x }

theorem append_append (q : HTTPMessageSequence S D) (x y : Bytes) : (q.append x).append y = q.append (x ++ y) := by
  unfold append
  rw [List.append_assoc]

variable [MessageClass S] [ParserClass S D]

theorem parse_eq {q : HTTPMessageSequence S D} {x : Bytes} (h : x ≠ []) : q.parse x = (q.append x).drain := by
  unfold parse notice
  rw [if_neg (by simpa using h)]
  rfl

theorem drain_eq_of_step {q q' : HTTPMessageSequence S D} (h : q.parsingStep = q'.parsingStep) : q.drain = q'.drain := by
  cases hstep : q'.parsingStep with
  | error e => rw [drain_error hstep, drain_error (h.trans hstep)]
  | ok r =>
    obtain ⟨go, q''⟩ := r
    cases go with
    | true => rw [drain_go hstep, drain_go (h.trans hstep)]
    | false => rw [drain_stop hstep, drain_stop (h.trans hstep)]

variable [ReadsInPieces S]

/-! ## Alike states -/

/-- The same but for what nothing reads any more in complete messages. -/
structure Alike (q q' : HTTPMessageSequence S D) : Prop where
  buffer : q.buffer = q'.buffer
  inProgress : q.messageInProgress = q'.messageInProgress
  members : q.members = q'.members
  complete : q.completeMessages.map (·.forgetting ReadsInPieces.forget) =
    q'.completeMessages.map (·.forgetting ReadsInPieces.forget)

theorem alike_equiv : Equivalence (Alike (S := S) (D := D)) :=
  ⟨fun _ => ⟨rfl, rfl, rfl, rfl⟩, fun h => ⟨h.buffer.symm, h.inProgress.symm, h.members.symm, h.complete.symm⟩,
    fun h h' => ⟨h.buffer.trans h'.buffer, h.inProgress.trans h'.inProgress, h.members.trans h'.members,
      h.complete.trans h'.complete⟩⟩

theorem Alike.append {q q' : HTTPMessageSequence S D} (h : Alike q q') (x : Bytes) : Alike (q.append x) (q'.append x) :=
  ⟨congrArg (· ++ x) h.buffer, h.inProgress, h.members, h.complete⟩

/-- A step does not look at the complete messages. -/
theorem Alike.step {q q' : HTTPMessageSequence S D} (h : Alike q q') :
    Pieces.Agree (fun r r' => r.1 = r'.1 ∧ Alike r.2 r'.2) q.parsingStep q'.parsingStep := by
  obtain ⟨buffer, complete, m, members⟩ := q
  obtain ⟨buffer', complete', m', members'⟩ := q'
  obtain ⟨hbuffer, hprogress, hmembers, hcomplete⟩ := h
  dsimp only at hbuffer hprogress hmembers hcomplete
  subst hbuffer hprogress hmembers
  unfold parsingStep
  dsimp only
  split
  · unfold stepFirstLine
    dsimp only
    split
    · exact .ok ⟨rfl, rfl, rfl, rfl, hcomplete⟩
    · exact .bind_same _ fun _ _ => .bind_same _ fun _ _ => .bind_same _ fun _ _ => .ok ⟨rfl, rfl, rfl, rfl, hcomplete⟩
  · unfold stepHeaders
    dsimp only
    split
    · exact .ok ⟨rfl, rfl, rfl, rfl, hcomplete⟩
    · exact .bind_same _ fun _ _ => .bind_same _ fun _ _ => .ok ⟨rfl, rfl, rfl, rfl, hcomplete⟩
  · unfold stepBody
    exact .bind_same _ fun _ _ => .bind_same _ fun _ _ => .bind_same _ fun _ _ => .ok ⟨rfl, rfl, rfl, rfl, hcomplete⟩
  · refine .ok ⟨rfl, rfl, rfl, rfl, ?_⟩
    unfold stepComplete
    simp only [List.map_append, hcomplete]

theorem Alike.drain {q q' : HTTPMessageSequence S D} (h : Alike q q') : Pieces.Agree Alike q.drain q'.drain := by
  induction hm : q.size using Nat.strong_induction_on generalizing q q' with
  | _ n ih =>
    subst hm
    have hstep := h.step
    cases hq : q.parsingStep with
    | error e =>
      rw [hq] at hstep
      cases hq' : q'.parsingStep with
      | error e' => rw [drain_error hq, drain_error hq']; exact .error
      | ok r' => rw [hq'] at hstep; cases hstep
    | ok r =>
      rw [hq] at hstep
      cases hq' : q'.parsingStep with
      | error e' => rw [hq'] at hstep; cases hstep
      | ok r' =>
        rw [hq'] at hstep
        cases hstep with
        | ok hr =>
          obtain ⟨go, q₁⟩ := r
          obtain ⟨go', q₁'⟩ := r'
          obtain ⟨rfl, halike⟩ := hr
          cases go with
          | true =>
            rw [drain_go hq, drain_go hq']
            have hturn : turn q = .ok (.inl q₁) := by unfold turn; rw [hq]; rfl
            exact ih _ (turn_lowers _ _ hturn) halike rfl
          | false => rw [drain_stop hq, drain_stop hq']; exact .ok halike

/-! ## Between two calls of `parse` -/

/-- The parser waits for more bytes: for the end of a line, or in a body. -/
def Quiet (q : HTTPMessageSequence S D) : Prop :=
  match q.messageInProgress.state with
  | .firstLinePending => find crlf q.buffer = none ∧ q.messageInProgress.body = []
  | .headersPending => find crlf q.buffer = none ∧ q.messageInProgress.body = []
  | .bodyPending => q.buffer = [] ∧ q.messageInProgress.Between
  | .complete => False

/-- After a line that used up the buffer. -/
def AfterLine (q : HTTPMessageSequence S D) : Prop :=
  q.buffer = [] ∧
    match q.messageInProgress.state with
    | .firstLinePending => q.messageInProgress.body = []
    | .headersPending => q.messageInProgress.body = []
    | .bodyPending => q.messageInProgress.Between ∨
        q.messageInProgress.expected.1 = true ∧ q.messageInProgress.body.length = q.messageInProgress.expected.2
    | .complete => False

/-- What draining without the rest of the bytes says of draining with them. -/
def Settles (q : HTTPMessageSequence S D) (x rest : Bytes) : Prop :=
  (∃ e e', (q.append x).drain = .error e ∧ (q.append (x ++ rest)).drain = .error e') ∨
  ∃ q', (q.append x).drain = .ok q' ∧ q'.Quiet ∧ Pieces.Agree Alike (q.append (x ++ rest)).drain (q'.append rest).drain

/-- Nothing happens without more bytes. -/
theorem Quiet.step {q : HTTPMessageSequence S D} (h : q.Quiet) : q.parsingStep = .ok (false, q) := by
  unfold Quiet at h
  split at h
  · rename_i hstate
    rw [parsingStep_firstLine hstate]
    exact stepFirstLine_none h.1
  · rename_i hstate
    rw [parsingStep_headers hstate]
    exact stepHeaders_none h.1
  · rename_i hstate
    obtain ⟨hbuffer, hbetween⟩ := h
    rw [step_body_pending hstate (by rw [hbuffer]; exact hbetween.read_nil) hstate, ← hbuffer]
  · exact absurd h id

theorem settles_of_quiet {q : HTTPMessageSequence S D} {x rest : Bytes} (h : (q.append x).Quiet) : q.Settles x rest := by
  refine Or.inr ⟨q.append x, drain_stop h.step, h, ?_⟩
  rw [append_append]
  exact Pieces.Agree.refl alike_equiv _

/-- With an empty buffer, what comes after a line waits for more bytes, or is an empty body. -/
theorem AfterLine.settles {q : HTTPMessageSequence S D} (h : q.AfterLine) (rest : Bytes) : q.Settles [] rest := by
  obtain ⟨hbuffer, hstate⟩ := h
  have happ : q.append [] = q := by unfold append; rw [List.append_nil]
  -- where the new state waits, the next byte finds it as the whole rest does
  have hquiet : q.Quiet → q.Settles [] rest := fun hq => settles_of_quiet (by rw [happ]; exact hq)
  split at hstate
  · rename_i hfirst
    refine hquiet ?_
    unfold Quiet
    rw [hfirst]
    exact ⟨by rw [hbuffer]; rfl, hstate⟩
  · rename_i hheaders
    refine hquiet ?_
    unfold Quiet
    rw [hheaders]
    exact ⟨by rw [hbuffer]; rfl, hstate⟩
  · rename_i hbody
    rcases hstate with hbetween | ⟨hknown, hfull⟩
    · refine hquiet ?_
      unfold Quiet
      rw [hbody]
      exact ⟨hbuffer, hbetween⟩
    · -- the body is complete without a byte
      have hread : ∀ str, q.messageInProgress.readInBody str = .ok (0, { q.messageInProgress with state := .complete }) := by
        intro str
        rw [HTTPMessage.readInBody_known hbody hknown (le_of_eq hfull), hfull, Nat.sub_self, Nat.zero_min, List.take_zero,
          List.append_nil, if_pos hfull]
      have hdrain : ∀ x, (q.append x).drain = drain { q.append x with
          completeMessages := q.completeMessages ++ [{ q.messageInProgress with state := .complete }]
          messageInProgress := .fresh } :=
        fun x => drain_body_complete (q := q.append x) hbody (hread _) (Nat.zero_le _) rfl
      have hquiet : Quiet { q.append [] with
          completeMessages := q.completeMessages ++ [{ q.messageInProgress with state := .complete }]
          messageInProgress := .fresh } := ⟨by rw [happ, hbuffer]; rfl, rfl⟩
      refine Or.inr ⟨_, (hdrain []).trans (drain_stop hquiet.step), hquiet, ?_⟩
      rw [List.nil_append, hdrain, happ]
      exact Pieces.Agree.refl alike_equiv _
  · exact absurd hstate id

/-! ## One byte and the rest -/

/-- A line that ends with the byte: the rest comes after it. -/
theorem settles_of_line {q q₁ : HTTPMessageSequence S D} {b : UInt8} {rest : Bytes}
    (hbyte : (q.append [b]).parsingStep = .ok (true, q₁)) (hafter : q₁.AfterLine)
    (hall : (q.append (b :: rest)).parsingStep = .ok (true, q₁.append rest)) : q.Settles [b] rest := by
  have hnil : q₁.append [] = q₁ := by unfold append; rw [List.append_nil]
  have hbyte' := drain_go hbyte
  have hall' := drain_go hall
  rcases hafter.settles rest with ⟨e, e', h, h'⟩ | ⟨q', h, hquiet, hagree⟩
  · rw [hnil] at h
    exact Or.inl ⟨e, e', hbyte'.trans h, hall'.trans h'⟩
  · rw [hnil] at h
    refine Or.inr ⟨q', hbyte'.trans h, hquiet, ?_⟩
    rw [show [b] ++ rest = b :: rest from rfl, hall']
    exact hagree

/-- The line that ends with the byte, in both buffers. -/
theorem find_line_end {buffer : Bytes} {b : UInt8} {it : Nat} (hkept : find crlf buffer = none)
    (h : find crlf (buffer ++ [b]) = some it) (rest : Bytes) :
    (buffer ++ [b]).drop (it + 2) = [] ∧ find crlf (buffer ++ b :: rest) = some it ∧
      (buffer ++ b :: rest).take it = (buffer ++ [b]).take it ∧ (buffer ++ b :: rest).drop (it + 2) = rest := by
  have hlong := find_none_append hkept h
  have hbound := find_bound h
  rw [List.length_append, List.length_singleton, length_crlf] at hbound
  rw [length_crlf] at hlong
  have hlen : it + 2 = (buffer ++ [b]).length := by rw [List.length_append, List.length_singleton]; omega
  have hsplit : buffer ++ b :: rest = buffer ++ [b] ++ rest := by simp
  refine ⟨?_, ?_, ?_, ?_⟩
  · rw [hlen, List.drop_length]
  · rw [hsplit]; exact find_append rest h
  · rw [hsplit, List.take_append_of_le_length (by omega)]
  · rw [hsplit, hlen, List.drop_left]

theorem settles_firstLine {q : HTTPMessageSequence S D} {b : UInt8} {rest : Bytes} (h : q.Quiet)
    (hstate : q.messageInProgress.state = .firstLinePending) : q.Settles [b] rest := by
  unfold Quiet at h
  rw [hstate] at h
  obtain ⟨hline, hbody⟩ := h
  cases hfind : find crlf (q.buffer ++ [b]) with
  | none =>
    refine settles_of_quiet ?_
    unfold Quiet append
    dsimp only
    rw [hstate]
    exact ⟨hfind, hbody⟩
  | some it =>
    -- the CRLF ends with the byte, so the line is the same with the rest behind it
    obtain ⟨hempty, hfind', htake, hdrop⟩ := find_line_end hline hfind rest
    have hbyte : (q.append [b]).parsingStep = _ :=
      (parsingStep_firstLine (q := q.append [b]) hstate).trans (stepFirstLine_some hfind)
    have hall : (q.append (b :: rest)).parsingStep = _ :=
      (parsingStep_firstLine (q := q.append (b :: rest)) hstate).trans (stepFirstLine_some hfind')
    dsimp only [append] at hbyte hall
    rw [hempty] at hbyte
    rw [htake, hdrop] at hall
    cases hinit : ParserClass.initializeNewMessage q.messageInProgress q.members with
    | error e =>
      rw [hinit] at hbyte hall
      exact Or.inl ⟨e, e, drain_error hbyte, drain_error hall⟩
    | ok r =>
      obtain ⟨m, members⟩ := r
      rw [hinit] at hbyte hall
      simp only [Run.ok_bind] at hbyte hall
      cases hset : m.setFirstLine ((q.buffer ++ [b]).take it) with
      | error e =>
        rw [hset] at hbyte hall
        exact Or.inl ⟨e, e, drain_error hbyte, drain_error hall⟩
      | ok m' =>
        rw [hset] at hbyte hall
        refine settles_of_line hbyte ⟨rfl, ?_⟩ (hall.trans ?_)
        · obtain ⟨_, -, hset⟩ := Run.bind_ok hset
          cases hset
          dsimp only
          rw [ReadsInPieces.start hinit]
          exact hbody
        · rfl

/-- A header line or the empty line keeps the body empty. -/
theorem headerLine_after {m m' : HTTPMessage S} {line : Bytes} (h : headerLine m line = .ok m') (hbody : m.body = []) :
    match m'.state with
    | .firstLinePending => m'.body = []
    | .headersPending => m'.body = []
    | .bodyPending => m'.Between ∨ m'.expected.1 = true ∧ m'.body.length = m'.expected.2
    | .complete => False := by
  unfold headerLine at h
  split at h
  · obtain ⟨_, -, h⟩ := Run.bind_ok h
    obtain ⟨hstate, hbody', hkind⟩ := ReadsInPieces.calculate h
    dsimp only at hstate hbody'
    rw [hstate]
    dsimp only
    rw [hbody] at hbody'
    rcases hkind with hknown | hunknown
    · by_cases hzero : m'.expected.2 = 0
      · exact Or.inr ⟨hknown, by rw [hbody', hzero]; rfl⟩
      · exact Or.inl ⟨hstate, Or.inl ⟨hknown, by rw [hbody', List.length_nil]; omega⟩⟩
    · exact Or.inl ⟨hstate, Or.inr hunknown⟩
  · obtain ⟨_, hcheck, h⟩ := Run.bind_ok h
    obtain ⟨header, -, h⟩ := Run.bind_ok h
    cases h
    have hstate : m.state = .headersPending := by simpa using check_ok hcheck
    dsimp only
    rw [hstate]
    exact hbody

theorem settles_headers {q : HTTPMessageSequence S D} {b : UInt8} {rest : Bytes} (h : q.Quiet)
    (hstate : q.messageInProgress.state = .headersPending) : q.Settles [b] rest := by
  unfold Quiet at h
  rw [hstate] at h
  obtain ⟨hline, hbody⟩ := h
  cases hfind : find crlf (q.buffer ++ [b]) with
  | none =>
    refine settles_of_quiet ?_
    unfold Quiet append
    dsimp only
    rw [hstate]
    exact ⟨hfind, hbody⟩
  | some it =>
    obtain ⟨hempty, hfind', htake, hdrop⟩ := find_line_end hline hfind rest
    have hbyte : (q.append [b]).parsingStep = _ :=
      (parsingStep_headers (q := q.append [b]) hstate).trans (stepHeaders_some hfind)
    have hall : (q.append (b :: rest)).parsingStep = _ :=
      (parsingStep_headers (q := q.append (b :: rest)) hstate).trans (stepHeaders_some hfind')
    dsimp only [append] at hbyte hall
    rw [hempty] at hbyte
    rw [htake, hdrop] at hall
    cases hheader : headerLine q.messageInProgress ((q.buffer ++ [b]).take it) with
    | error e =>
      rw [hheader] at hbyte hall
      exact Or.inl ⟨e, e, drain_error hbyte, drain_error hall⟩
    | ok m' =>
      rw [hheader] at hbyte hall
      exact settles_of_line hbyte ⟨rfl, headerLine_after hheader hbody⟩ (hall.trans rfl)

omit [MessageClass S] [ParserClass S D] [ReadsInPieces S] in
/-- One byte less to pop. -/
theorem popBytes_cons (b : UInt8) (rest : Bytes) (n : Nat) :
    InternalBuffer.popBytes (b :: rest) (n + 1) = InternalBuffer.popBytes rest n := by
  unfold InternalBuffer.popBytes
  simp only [List.length_cons, Nat.add_le_add_iff_right, List.drop_succ_cons]

omit [ParserClass S D] [ReadsInPieces S] in
theorem stepBody_append {q : HTTPMessageSequence S D} (h : q.buffer = []) (x : Bytes) :
    (q.append x).stepBody = (do
      let (bytesRead, m) ← q.messageInProgress.readInBody x
      check "bytes_read == buffer_.str().size() or message_in_progress_.state() == COMPLETE"
        (bytesRead = x.length || m.state = .complete)
      let rest ← InternalBuffer.popBytes x bytesRead
      pure (decide (m.state = .complete), { q with buffer := rest, messageInProgress := m })) := by
  obtain ⟨buffer, complete, m, members⟩ := q
  subst h
  rfl

/-- A body step on one byte more, with a message alike. -/
theorem drain_oneMore {q q₁ : HTTPMessageSequence S D} {b : UInt8} {rest : Bytes}
    (hbuffer : q.buffer = []) (hbuffer₁ : q₁.buffer = []) (hmembers : q₁.members = q.members)
    (hcomplete : q₁.completeMessages = q.completeMessages)
    (hstate : q.messageInProgress.state = .bodyPending) (hstate₁ : q₁.messageInProgress.state = .bodyPending)
    (h : HTTPMessage.OneMore (ReadsInPieces.forget (S := S)) (q.messageInProgress.readInBody (b :: rest))
      (q₁.messageInProgress.readInBody rest)) :
    Pieces.Agree Alike (q.append (b :: rest)).drain (q₁.append rest).drain := by
  have hstep := (parsingStep_body (q := q.append (b :: rest)) hstate).trans (stepBody_append hbuffer (b :: rest))
  have hstep₁ := (parsingStep_body (q := q₁.append rest) hstate₁).trans (stepBody_append hbuffer₁ rest)
  generalize q.messageInProgress.readInBody (b :: rest) = r at h hstep
  generalize q₁.messageInProgress.readInBody rest = r₁ at h hstep₁
  cases h with
  | error =>
    rw [drain_error hstep, drain_error hstep₁]
    exact .error
  | @ok n m m' halike =>
    simp only [Run.ok_bind, List.length_cons, Nat.add_right_cancel_iff, popBytes_cons, hmembers, hcomplete] at hstep hstep₁
    -- the body goes on in both, or has ended in both
    rcases halike with rfl | ⟨hdone, hdone', hsame⟩
    · rw [drain_eq_of_step (hstep.trans hstep₁.symm)]
      exact Pieces.Agree.refl alike_equiv _
    · rw [check_of (by simp [hdone]), Run.ok_bind] at hstep
      rw [check_of (by simp [hdone']), Run.ok_bind] at hstep₁
      cases hpop : InternalBuffer.popBytes rest n with
      | error e =>
        rw [hpop] at hstep hstep₁
        rw [drain_error hstep, drain_error hstep₁]
        exact .error
      | ok left =>
        rw [hpop] at hstep hstep₁
        simp only [Run.ok_bind, hdone, hdone', decide_true] at hstep hstep₁
        rw [(drain_go hstep).trans (drain_go (parsingStep_complete hdone)),
          (drain_go hstep₁).trans (drain_go (parsingStep_complete hdone'))]
        refine Alike.drain ⟨rfl, rfl, rfl, ?_⟩
        unfold stepComplete
        simp only [List.map_append, List.map_cons, List.map_nil, hsame]

theorem settles_body {q : HTTPMessageSequence S D} {b : UInt8} {rest : Bytes} (h : q.Quiet)
    (hstate : q.messageInProgress.state = .bodyPending)
    (hsafe : ¬ (q.messageInProgress.expected.1 = false ∧ ReadsInPieces.Bad q.messageInProgress.members (b :: rest))) :
    q.Settles [b] rest := by
  unfold Quiet at h
  rw [hstate] at h
  obtain ⟨hbuffer, hbetween⟩ := h
  have happ : ∀ x, (q.append x).buffer = x := fun x => by unfold append; rw [hbuffer]; rfl
  cases hbetween.byteSpec b rest hsafe with
  -- fed a byte and fed all of it, the body throws, ends or goes on alike
  | @fails e e' hbyte hall =>
    have hfail : ∀ {x e}, q.messageInProgress.readInBody x = .error e → (q.append x).drain = .error e := by
      intro x e hx
      refine drain_error ?_
      rw [parsingStep_body (q := q.append x) hstate, stepBody_append hbuffer, hx]
      rfl
    exact Or.inl ⟨e, e', hfail hbyte, hfail hall⟩
  | @ends m₁ m₂ hbyte hall hdone hdone' hsame =>
    have hdrain : ∀ {x : Bytes} {m}, q.messageInProgress.readInBody x = .ok (1, m) → 1 ≤ x.length → m.state = .complete →
        (q.append x).drain = drain { q with
          buffer := x.drop 1
          completeMessages := q.completeMessages ++ [m]
          messageInProgress := .fresh } := by
      intro x m hx hlen hm
      have := drain_body_complete (q := q.append x) hstate (by rw [happ]; exact hx) (by rw [happ]; exact hlen) hm
      rw [happ] at this
      exact this
    have hquiet : Quiet { q with
        buffer := []
        completeMessages := q.completeMessages ++ [m₁]
        messageInProgress := .fresh } := ⟨rfl, rfl⟩
    refine Or.inr ⟨_, (hdrain hbyte (by simp) hdone).trans (drain_stop hquiet.step), hquiet, ?_⟩
    rw [show [b] ++ rest = b :: rest from rfl, hdrain hall (by simp) hdone']
    refine Alike.drain ⟨rfl, rfl, rfl, ?_⟩
    simp only [append, List.map_append, List.map_cons, List.map_nil, hsame]
  | @goes m₁ hbyte hbetween₁ hall =>
    have hquiet : Quiet { q with buffer := [], messageInProgress := m₁ } := by
      unfold Quiet
      dsimp only
      rw [hbetween₁.1]
      exact ⟨rfl, hbetween₁⟩
    have hstop : (q.append [b]).drain = .ok { q with buffer := [], messageInProgress := m₁ } := by
      refine drain_stop ?_
      rw [step_body_pending (q := q.append [b]) hstate (by rw [happ]; exact hbyte) hbetween₁.1]
      rfl
    exact Or.inr ⟨_, hstop, hquiet, drain_oneMore hbuffer rfl rfl rfl hstate hbetween₁.1 hall⟩

/-- The exception: a body of unknown size, and members and bytes that the class excepts. -/
def Bad (q : HTTPMessageSequence S D) (x : Bytes) : Prop :=
  q.messageInProgress.state = .bodyPending ∧ q.messageInProgress.expected.1 = false ∧
    ReadsInPieces.Bad q.messageInProgress.members x

theorem Quiet.settles {q : HTTPMessageSequence S D} {b : UInt8} {rest : Bytes} (h : q.Quiet) (hsafe : ¬ q.Bad (b :: rest)) :
    q.Settles [b] rest := by
  cases hstate : q.messageInProgress.state with
  | firstLinePending => exact settles_firstLine h hstate
  | headersPending => exact settles_headers h hstate
  | bodyPending => exact settles_body h hstate (fun hb => hsafe ⟨hstate, hb⟩)
  | complete =>
    unfold Quiet at h
    rw [hstate] at h
    exact absurd h id

/-- `parse` is incremental from any state between two calls, but for the exception. -/
theorem parse_incremental : Pieces.Incremental (parse (S := S) (D := D)) Alike Quiet Bad where
  equiv := alike_equiv
  congr {q q' x} h := by
    unfold parse notice
    rw [h.inProgress]
    exact .bind_same _ fun m _ => Alike.drain ⟨congrArg (· ++ x) h.buffer, rfl, h.members, h.complete⟩
  keep {q q' b} h hparse := by
    rw [parse_eq (List.cons_ne_nil b [])] at hparse
    rcases @Quiet.settles _ _ _ _ _ q b [] h (fun hb => ReadsInPieces.not_bad_byte _ _ hb.2.2) with
      ⟨e, e', he, -⟩ | ⟨q₁, hq₁, hquiet, -⟩
    · rw [he] at hparse; cases hparse
    · rw [hq₁] at hparse; cases hparse; exact hquiet
  cons {q b c y} h hsafe := by
    rw [parse_eq (List.cons_ne_nil b _), parse_eq (List.cons_ne_nil b [])]
    rcases h.settles hsafe with ⟨e, e', he, he'⟩ | ⟨q', hq', -, hagree⟩
    · rw [he, show (b :: c :: y) = [b] ++ c :: y from rfl, he']
      exact .error
    · rw [hq', Run.ok_bind, parse_eq (List.cons_ne_nil c y)]
      exact hagree

/-- The state before the first byte. -/
theorem quiet_start (members : D) : Quiet (start (S := S) members) := ⟨rfl, rfl⟩

end HTTPMessageSequence

end AbcMahimahi.Http
