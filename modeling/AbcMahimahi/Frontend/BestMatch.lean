/-
The answer of the replay server: of the recordings that fit the request, one whose request line agrees
with the request's for longest. A score of zero stands for a recording that does not fit; one that does
agrees with the request line up to the first `?`, so in the first byte at least.
-/
import AbcMahimahi.Frontend.Replay
import AbcMahimahi.Lib.RunningMax

namespace AbcMahimahi.Frontend.Replayserver

open Bytes Http

/-! ## Recordings that fit -/

/-- The value of a header of the recorded request, the first one of that name. -/
def MessageRecord.header (m : MessageRecord) (name : Bytes) : Option Bytes := valueOf m.headers name

/-- Scheme, Host and User-Agent match, and the request lines agree up to the first `?`. -/
def Eligible (env : Env) (requestLine : Bytes) (isHttps : Bool) (r : RequestResponse) : Prop :=
  r.scheme = (if isHttps then .https else .http) ∧ r.request.header (ascii "Host") = env "HTTP_HOST" ∧
    r.request.header (ascii "User-Agent") = env "HTTP_USER_AGENT" ∧
    stripQuery requestLine = stripQuery r.request.firstLine

instance (env : Env) (requestLine : Bytes) (isHttps : Bool) (r : RequestResponse) : Decidable (Eligible env requestLine isHttps r) :=
  inferInstanceAs (Decidable (_ ∧ _ ∧ _ ∧ _))

/-- How long the request line of a recording that fits agrees with the request's. -/
def score (env : Env) (requestLine : Bytes) (isHttps : Bool) (r : RequestResponse) : Nat :=
  if Eligible env requestLine isHttps r then commonLength requestLine r.request.firstLine else 0

theorem headerMatch_eq (env : Env) (envVarName : String) (headerName : Bytes) (m : MessageRecord) :
    headerMatch env envVarName headerName (ofProtobuf m) = .ok (decide (m.header headerName = env envVarName)) := by
  have hhas : HTTPMessage.hasHeader (ofProtobuf m : HTTPRequest) headerName = (m.header headerName).isSome :=
    HTTPMessage.hasHeader_eq _ _
  have hvalue : ∀ value, m.header headerName = some value →
      HTTPMessage.getHeaderValue (ofProtobuf m : HTTPRequest) headerName = .ok value :=
    fun value h => HTTPMessage.getHeaderValue_some h
  unfold headerMatch
  rw [hhas]
  cases henv : env envVarName with
  | none =>
    cases hheader : m.header headerName with
    | none => simp
    | some value => simp
  | some envValue =>
    cases hheader : m.header headerName with
    | none => simp
    | some value =>
      dsimp only [Option.isSome_some]
      rw [hvalue value hheader]
      simp

theorem commonLength_le : ∀ a b : Bytes, commonLength a b ≤ b.length
  | [], b => by simp [commonLength]
  | _ :: _, [] => by simp [commonLength]
  | x :: a, y :: b => by
    have := commonLength_le a b
    unfold commonLength
    split
    · exact Nat.zero_le _
    · rw [List.length_cons]
      omega

theorem score_eligible {env : Env} {requestLine : Bytes} {isHttps : Bool} {r : RequestResponse}
    (h : Eligible env requestLine isHttps r) : score env requestLine isHttps r = commonLength requestLine r.request.firstLine :=
  if_pos h

theorem score_not_eligible {env : Env} {requestLine : Bytes} {isHttps : Bool} {r : RequestResponse}
    (h : ¬ Eligible env requestLine isHttps r) : score env requestLine isHttps r = 0 := if_neg h

theorem matchScore_eq {env : Env} {requestLine : Bytes} {isHttps : Bool} {r : RequestResponse}
    (hfits : r.request.firstLine.length < 2 ^ 32) :
    matchScore env r requestLine isHttps = .ok (score env requestLine isHttps r) := by
  have hcommon : u32 (commonLength requestLine r.request.firstLine) = commonLength requestLine r.request.firstLine :=
    Nat.mod_eq_of_lt (lt_of_le_of_lt (commonLength_le _ _) hfits)
  have hfirst : (ofProtobuf r.request : HTTPRequest).firstLine = r.request.firstLine := rfl
  unfold matchScore
  dsimp only
  rw [headerMatch_eq, headerMatch_eq, hfirst, hcommon, Run.ok_bind, Run.ok_bind]
  -- the checks of `match_score` in its order, each with a score of zero
  by_cases hscheme : r.scheme = (if isHttps then .https else .http)
  · have hhttps : ¬ (isHttps = true ∧ r.scheme ≠ .https) := by
      rintro ⟨h, hne⟩
      rw [h] at hscheme
      exact hne hscheme
    have hhttp : ¬ ((!isHttps) = true ∧ r.scheme ≠ .http) := by
      rintro ⟨h, hne⟩
      rw [Bool.not_eq_true'] at h
      rw [h] at hscheme
      exact hne hscheme
    rw [if_neg hhttps, if_neg hhttp]
    by_cases hhost : r.request.header (ascii "Host") = env "HTTP_HOST"
    · by_cases hagent : r.request.header (ascii "User-Agent") = env "HTTP_USER_AGENT"
      · by_cases hline : stripQuery requestLine = stripQuery r.request.firstLine
        · rw [score_eligible ⟨hscheme, hhost, hagent, hline⟩]
          simp [hhost, hagent, hline]
        · rw [score_not_eligible fun h => hline h.2.2.2]
          simp [hhost, hagent, hline]
      · rw [score_not_eligible fun h => hagent h.2.2.1]
        simp [hhost, hagent]
    · rw [score_not_eligible fun h => hhost h.2.1]
      simp [hhost]
  · rw [score_not_eligible fun h => hscheme h.1]
    cases isHttps with
    | true => exact if_pos ⟨rfl, hscheme⟩
    | false =>
      rw [if_neg fun h => Bool.noConfusion h.1]
      exact if_pos ⟨rfl, hscheme⟩

/-! ## The loop -/

theorem bestMatch_eq {env : Env} {requestLine : Bytes} {isHttps : Bool} : ∀ {records : List RequestResponse} {start : Nat × RequestResponse},
    (∀ r ∈ records, r.request.firstLine.length < 2 ^ 32) →
    bestMatch env requestLine isHttps start records = .ok (RunningMax.best (score env requestLine isHttps) start records)
  | [], _, _ => rfl
  | r :: records, start, hfits => by
    unfold bestMatch
    rw [matchScore_eq (hfits r (List.mem_cons_self ..)), Run.ok_bind,
      bestMatch_eq fun r' hr' => hfits r' (List.mem_cons_of_mem _ hr')]
    rfl

/-! ## Zero is no prefix -/

theorem stripQuery_cons {b : UInt8} (hb : b ≠ 63) (bs : Bytes) : ∃ rest, stripQuery (b :: bs) = b :: rest := by
  have hnot : ¬ (ascii "?").isPrefixOf (b :: bs) = true := by simpa [ascii, List.isPrefixOf] using Ne.symm hb
  unfold stripQuery
  rw [find_cons_of_not hnot]
  cases find (ascii "?") bs with
  | none => exact ⟨bs, rfl⟩
  | some i => exact ⟨bs.take i, rfl⟩

theorem stripQuery_front (line : Bytes) : stripQuery line <+: line := by
  unfold stripQuery
  split
  · exact List.prefix_refl _
  · exact List.take_prefix _ _

/-- A recording that fits agrees in the first byte at least. -/
theorem commonLength_pos {b : UInt8} {bs line : Bytes} (hb : b ≠ 63) (h : stripQuery (b :: bs) = stripQuery line) :
    0 < commonLength (b :: bs) line := by
  obtain ⟨rest, hrest⟩ := stripQuery_cons hb bs
  obtain ⟨post, hpost⟩ := stripQuery_front line
  rw [← h, hrest] at hpost
  rw [← hpost, List.cons_append, commonLength, if_neg (not_not.2 rfl)]
  exact Nat.succ_pos _

/-- What is found fits and agrees for longest, whatever the order of the recordings. -/
structure Best (env : Env) (requestLine : Bytes) (isHttps : Bool) (records : List RequestResponse) (best : Nat × RequestResponse) :
    Prop where
  found : bestMatch env requestLine isHttps (0, {}) records = .ok best
  mem : 0 < best.1 → best.2 ∈ records
  eligible : 0 < best.1 → Eligible env requestLine isHttps best.2
  score : 0 < best.1 → best.1 = commonLength requestLine best.2.request.firstLine
  longest : ∀ r ∈ records, Eligible env requestLine isHttps r → commonLength requestLine r.request.firstLine ≤ best.1
  none : best.1 = 0 ↔ ∀ r ∈ records, ¬ Eligible env requestLine isHttps r
  anyOrder : ∀ records', records.Perm records' →
    ∃ best', bestMatch env requestLine isHttps (0, {}) records' = .ok best' ∧ best'.1 = best.1

theorem bestMatch_best {env : Env} {b : UInt8} {bs : Bytes} {isHttps : Bool} {records : List RequestResponse} (hb : b ≠ 63)
    (hfits : ∀ r ∈ records, r.request.firstLine.length < 2 ^ 32) :
    Best env (b :: bs) isHttps records (RunningMax.best (score env (b :: bs) isHttps) (0, {}) records) := by
  have heligible : ∀ r, Eligible env (b :: bs) isHttps r →
      score env (b :: bs) isHttps r = commonLength (b :: bs) r.request.firstLine := fun r h => score_eligible h
  -- a score of zero is that of a recording that does not fit
  have hpos : ∀ r, Eligible env (b :: bs) isHttps r → 0 < score env (b :: bs) isHttps r := by
    intro r h
    rw [heligible r h]
    exact commonLength_pos hb h.2.2.2
  have hzero : ∀ r, 0 < score env (b :: bs) isHttps r → Eligible env (b :: bs) isHttps r := by
    intro r h
    by_contra hnot
    exact absurd (score_not_eligible hnot) (by omega)
  obtain ⟨-, hmax⟩ := RunningMax.le_best (score env (b :: bs) isHttps) records (0, {})
  have hmember : 0 < (RunningMax.best (score env (b :: bs) isHttps) (0, {}) records).1 →
      (RunningMax.best (score env (b :: bs) isHttps) (0, {}) records).2 ∈ records ∧
        (RunningMax.best (score env (b :: bs) isHttps) (0, {}) records).1 =
          score env (b :: bs) isHttps (RunningMax.best (score env (b :: bs) isHttps) (0, {}) records).2 := by
    intro h
    rcases RunningMax.best_mem (score env (b :: bs) isHttps) records (0, {}) with heq | hmem
    · rw [heq] at h
      exact absurd h (lt_irrefl 0)
    · exact hmem
  have hchosen : ∀ h : 0 < (RunningMax.best (score env (b :: bs) isHttps) (0, {}) records).1,
      Eligible env (b :: bs) isHttps (RunningMax.best (score env (b :: bs) isHttps) (0, {}) records).2 := by
    intro h
    refine hzero _ ?_
    rw [← (hmember h).2]
    exact h
  constructor
  · exact bestMatch_eq hfits
  · exact fun h => (hmember h).1
  · exact hchosen
  · intro h
    rw [← heligible _ (hchosen h)]
    exact (hmember h).2
  · intro r hr h
    rw [← heligible r h]
    exact hmax r hr
  · constructor
    · intro h r hr hr'
      have hle := hmax r hr
      have hlt := hpos r hr'
      omega
    · intro h
      by_contra hne
      have hlt := Nat.pos_of_ne_zero hne
      exact h _ (hmember hlt).1 (hchosen hlt)
  · intro records' hperm
    refine ⟨_, bestMatch_eq fun r hr => hfits r (hperm.mem_iff.2 hr), ?_⟩
    exact (RunningMax.best_perm (score env (b :: bs) isHttps) hperm (0, {})).symm

/-- What `main` says when it has found nothing. -/
def notFound (requestLine : Bytes) : Bytes :=
  ascii "HTTP/1.1 404 Not Found" ++ crlf ++ ascii "Content-Type: text/plain" ++ crlf ++ crlf ++
    ascii "replayserver: could not find a match for " ++ requestLine ++ crlf

/-- The replay server answers with the recorded response that belongs to the best of the recordings
that fit, and with 404 when none does. The parser of the recordings takes none of 2 GiB. -/
theorem main_best {recordings : Bytes → Bytes → Except Fault (List RequestResponse)} {env : Env}
    {workingDirectory recordingDirectory method uri protocol : Bytes} {records : List RequestResponse}
    (hchdir : env "MAHIMAHI_CHDIR" = some workingDirectory) (hrecord : env "MAHIMAHI_RECORD_PATH" = some recordingDirectory)
    (hmethod : env "REQUEST_METHOD" = some method) (huri : env "REQUEST_URI" = some uri)
    (hprotocol : env "SERVER_PROTOCOL" = some protocol) (hne : method ≠ []) (hquery : method.head? ≠ some 63)
    (hrecordings : recordings workingDirectory recordingDirectory = .ok records)
    (hfits : ∀ r ∈ records, r.request.firstLine.length < 2 ^ 32) :
    ∃ best, Best env (method ++ ascii " " ++ uri ++ ascii " " ++ protocol) (env "HTTPS").isSome records best ∧
      main recordings env = .ok (if 0 < best.1 then (ofProtobuf best.2.response : HTTPResponse).serialized
        else notFound (method ++ ascii " " ++ uri ++ ascii " " ++ protocol)) := by
  have hbest : Best env (method ++ ascii " " ++ uri ++ ascii " " ++ protocol) (env "HTTPS").isSome records
      (RunningMax.best (score env (method ++ ascii " " ++ uri ++ ascii " " ++ protocol) (env "HTTPS").isSome) (0, {}) records) := by
    obtain ⟨b, bs, rfl⟩ := List.exists_cons_of_ne_nil hne
    exact bestMatch_best (fun h => hquery (congrArg some h)) hfits
  refine ⟨_, hbest, ?_⟩
  have hget : ∀ {key value}, env key = some value → safeGetenv env key = .ok value := by
    intro key value h
    unfold safeGetenv
    rw [h]
    rfl
  unfold main
  rw [hget hchdir, hget hrecord, hget hmethod, hget huri, hget hprotocol, Run.ok_bind, Run.ok_bind, Run.ok_bind, Run.ok_bind,
    Run.ok_bind, hrecordings, Run.ok_bind, hbest.found, Run.ok_bind]
  dsimp only
  split
  · rfl
  · rfl

/-- A request for a page with a query. -/
def pageRequest : Env :=
  setenv "MAHIMAHI_CHDIR" (ascii "/") <| setenv "MAHIMAHI_RECORD_PATH" (ascii "/recording/") <|
    setenv "REQUEST_METHOD" (ascii "GET") <| setenv "REQUEST_URI" (ascii "/?q=2") <|
    setenv "SERVER_PROTOCOL" (ascii "HTTP/1.1") fun _ => none

/-- Three recordings, of another page and of two queries. -/
def pageRecords : List RequestResponse :=
  [{ request := { firstLine := ascii "GET /x HTTP/1.1" } }, { request := { firstLine := ascii "GET /?q=1 HTTP/1.1" } },
    { request := { firstLine := ascii "GET /?q=2 HTTP/1.1" } }]

theorem main_best_small : ∃ best,
    Best pageRequest (ascii "GET" ++ ascii " " ++ ascii "/?q=2" ++ ascii " " ++ ascii "HTTP/1.1") (pageRequest "HTTPS").isSome
      pageRecords best ∧
    main (fun _ _ => .ok pageRecords) pageRequest = .ok (if 0 < best.1 then (ofProtobuf best.2.response : HTTPResponse).serialized
      else notFound (ascii "GET" ++ ascii " " ++ ascii "/?q=2" ++ ascii " " ++ ascii "HTTP/1.1")) := by
  have hchdir : pageRequest "MAHIMAHI_CHDIR" = some (ascii "/") := by simp [pageRequest]
  have hrecord : pageRequest "MAHIMAHI_RECORD_PATH" = some (ascii "/recording/") := by simp [pageRequest]
  exact main_best hchdir hrecord (by simp [pageRequest]) (by simp [pageRequest]) (by simp [pageRequest]) (by decide) (by decide)
    rfl (by decide)

end AbcMahimahi.Frontend.Replayserver
