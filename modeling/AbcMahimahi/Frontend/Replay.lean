/-
Replaying recorded pages: the Apache handler (mod_deepcgi.c) puts a request into the environment of
its worker and starts the replay server (replayserver.cc), which looks for the recorded request that
matches best. The worker, and with it the environment, serves one request after another.
-/
import AbcMahimahi.Http.Response

namespace AbcMahimahi.Frontend

open Bytes Http

/-! ## The environment -/

abbrev Env : Type := String → Option Bytes

/-- `setenv( name, value, TRUE )`. -/
def setenv (name : String) (value : Bytes) (env : Env) : Env := Function.update env name (some value)

@[simp] theorem setenv_self (name : String) (value : Bytes) (env : Env) : setenv name value env name = some value :=
  Function.update_self ..

@[simp] theorem setenv_ne {name name' : String} (h : name' ≠ name) (value : Bytes) (env : Env) :
    setenv name value env name' = env name' := Function.update_of_ne h ..

/-! ## The replay server -/

namespace Replayserver

inductive Scheme where
  | http
  | https
  deriving DecidableEq

/-- `MahimahiProtobufs::HTTPMessage`. -/
structure MessageRecord where
  firstLine : Bytes := []
  headers : List HTTPHeader := []
  body : Bytes := []

/-- `MahimahiProtobufs::RequestResponse`; its address plays no part in a match. -/
structure RequestResponse where
  scheme : Scheme := .http
  request : MessageRecord := {}
  response : MessageRecord := {}

/-- `HTTPMessage( proto )`. -/
def ofProtobuf {S : Type} [MessageClass S] (proto : MessageRecord) : HTTPMessage S :=
  { HTTPMessage.fresh with
    firstLine := proto.firstLine
    headers := proto.headers
    body := proto.body
    state := .complete }

def safeGetenv (env : Env) (key : String) : Except Fault Bytes :=
  match env key with
  | some value => pure value
  | none => throw (.runtimeError (ascii "missing environment variable: " ++ ascii key))

/-- Does the actual HTTP header match this stored request? -/
def headerMatch (env : Env) (envVarName : String) (headerName : Bytes) (savedRequest : HTTPRequest) :
    Except Fault Bool :=
  match env envVarName, savedRequest.hasHeader headerName with
  | none, false => pure true
  | some envValue, true => do pure (decide ((← savedRequest.getHeaderValue headerName) = envValue))
  | _, _ => pure false

/-- `strip_query`. -/
def stripQuery (requestLine : Bytes) : Bytes :=
  match find (ascii "?") requestLine with
  | none => requestLine
  | some index => requestLine.take index

/-- The number of bytes that the two lines start with in common. -/
def commonLength : Bytes → Bytes → Nat
  | a :: as, b :: bs => if a ≠ b then 0 else commonLength as bs + 1
  | _, _ => 0

/-- Compare the request line and certain headers of the incoming and the stored request. -/
def matchScore (env : Env) (savedRecord : RequestResponse) (requestLine : Bytes) (isHttps : Bool) : Except Fault Nat := do
  let savedRequest : HTTPRequest := ofProtobuf savedRecord.request
  if isHttps ∧ savedRecord.scheme ≠ .https then pure 0
  else if !isHttps ∧ savedRecord.scheme ≠ .http then pure 0
  else if !(← headerMatch env "HTTP_HOST" (ascii "Host") savedRequest) then pure 0
  else if !(← headerMatch env "HTTP_USER_AGENT" (ascii "User-Agent") savedRequest) then pure 0
  -- must match first line up to "?" at least
  else if stripQuery requestLine ≠ stripQuery savedRequest.firstLine then pure 0
  else pure (u32 (commonLength requestLine savedRequest.firstLine))

/-- The loop of `main` over the recordings: the best score so far, and the recording that had it first. -/
def bestMatch (env : Env) (requestLine : Bytes) (isHttps : Bool) :
    Nat × RequestResponse → List RequestResponse → Except Fault (Nat × RequestResponse)
  | best, [] => pure best
  | best, record :: records => do
    let score ← matchScore env record requestLine isHttps
    bestMatch env requestLine isHttps (if score > best.1 then (score, record) else best) records

/-- `main`, up to where it catches what was thrown; `recordings` reads the files of a directory after a
change to the working directory. -/
def main (recordings : Bytes → Bytes → Except Fault (List RequestResponse)) (env : Env) : Except Fault Bytes := do
  let workingDirectory ← safeGetenv env "MAHIMAHI_CHDIR"
  let recordingDirectory ← safeGetenv env "MAHIMAHI_RECORD_PATH"
  let requestLine := (← safeGetenv env "REQUEST_METHOD") ++ ascii " " ++ (← safeGetenv env "REQUEST_URI") ++
    ascii " " ++ (← safeGetenv env "SERVER_PROTOCOL")
  let isHttps := (env "HTTPS").isSome
  let (bestScore, best) ← bestMatch env requestLine isHttps (0, {}) (← recordings workingDirectory recordingDirectory)
  if bestScore > 0 then
    -- give client the best match
    HTTPMessage.str (ofProtobuf (S := ResponseMembers) best.response)
  else
    -- no acceptable matches for request
    pure (ascii "HTTP/1.1 404 Not Found" ++ crlf ++ ascii "Content-Type: text/plain" ++ crlf ++ crlf ++
      ascii "replayserver: could not find a match for " ++ requestLine ++ crlf)

end Replayserver

/-! ## The handler -/

namespace Deepcgi

/-- The configuration of the worker, and whether `ssl_is_https` is there to be called. -/
structure Config where
  workingDir : Bytes
  recordingDir : Bytes
  sslLoaded : Bool

/-- What the handler reads of a `request_rec`. -/
structure RequestRec where
  handler : Option Bytes
  method : Bytes
  unparsedUri : Bytes
  protocol : Bytes
  hostname : Option Bytes
  headersIn : List HTTPHeader
  https : Bool

/-- `setenv` was called with a null pointer. -/
inductive NullValue where
  | setenv (name : String)

/-- `apr_table_get`: the keys are compared without regard to case. -/
def aprTableGet (headers : List HTTPHeader) (key : Bytes) : Option Bytes :=
  (headers.find? fun header => header.key.map httpToLower = key.map httpToLower).map (·.value)

def RequestRec.userAgent (r : RequestRec) : Option Bytes := aprTableGet r.headersIn (ascii "User-Agent")

/-- The request is one for this handler. -/
def RequestRec.isOurs (r : RequestRec) : Bool := r.handler = some (ascii "deepcgi-handler")

/-- The connection is known to be HTTPS. -/
def Config.isHttps (config : Config) (r : RequestRec) : Bool := config.sslLoaded && r.https

/-- `deepcgi_handler` up to `popen`: the environment of the replay server it starts, if it does not
decline, and the environment of the worker. -/
def deepcgiHandler (config : Config) (env : Env) (r : RequestRec) : Except NullValue (Option Env × Env) :=
  if !r.isOurs then pure (none, env)
  else
    match r.hostname with
    | none => throw (.setenv "HTTP_HOST")
    | some httpHost =>
      let env := setenv "MAHIMAHI_CHDIR" config.workingDir env
      let env := setenv "MAHIMAHI_RECORD_PATH" config.recordingDir env
      let env := setenv "REQUEST_METHOD" r.method env
      let env := setenv "REQUEST_URI" r.unparsedUri env
      let env := setenv "SERVER_PROTOCOL" r.protocol env
      let env := setenv "HTTP_HOST" httpHost env
      let env := match r.userAgent with
        | some userAgent => setenv "HTTP_USER_AGENT" userAgent env
        | none => env
      -- check if connection is HTTPS
      let env := if config.isHttps r then setenv "HTTPS" (ascii "1") env else env
      pure (some env, env)

/-! ## What the replay server is started with -/

/-- The variables that say which request it is. -/
def requestVariables : List String :=
  ["REQUEST_METHOD", "REQUEST_URI", "SERVER_PROTOCOL", "HTTP_HOST", "HTTP_USER_AGENT", "HTTPS"]

/-- The environment in which a request is replayed, given the one that the worker had before. -/
structure Started (config : Config) (env : Env) (r : RequestRec) (seen : Env) : Prop where
  workingDir : seen "MAHIMAHI_CHDIR" = some config.workingDir
  recordingDir : seen "MAHIMAHI_RECORD_PATH" = some config.recordingDir
  method : seen "REQUEST_METHOD" = some r.method
  uri : seen "REQUEST_URI" = some r.unparsedUri
  protocol : seen "SERVER_PROTOCOL" = some r.protocol
  host : seen "HTTP_HOST" = r.hostname
  userAgent : seen "HTTP_USER_AGENT" = (r.userAgent <|> env "HTTP_USER_AGENT")
  https : seen "HTTPS" = if config.isHttps r then some (ascii "1") else env "HTTPS"

theorem deepcgiHandler_ours {config : Config} {env env' : Env} {r : RequestRec} {seen : Option Env}
    (hours : r.isOurs = true) (h : deepcgiHandler config env r = .ok (seen, env')) :
    seen = some env' ∧ Started config env r env' := by
  unfold deepcgiHandler at h
  rw [hours, if_neg (by decide)] at h
  cases hhost : r.hostname with
  | none =>
    rw [hhost] at h
    cases h
  | some host =>
    rw [hhost] at h
    cases h
    refine ⟨rfl, ?_⟩
    cases hua : r.userAgent <;> cases hssl : config.isHttps r <;> constructor <;> simp [hhost, hua, hssl]

theorem deepcgiHandler_declined {config : Config} {env env' : Env} {r : RequestRec} {seen : Option Env}
    (hours : r.isOurs = false) (h : deepcgiHandler config env r = .ok (seen, env')) : seen = none ∧ env' = env := by
  unfold deepcgiHandler at h
  rw [hours, if_pos (by decide)] at h
  cases h
  exact ⟨rfl, rfl⟩

theorem isOurs_of_seen {config : Config} {env env' seen : Env} {r : RequestRec}
    (h : deepcgiHandler config env r = .ok (some seen, env')) : r.isOurs = true := by
  by_contra hdeclined
  obtain ⟨hnone, -⟩ := deepcgiHandler_declined (by simpa using hdeclined) h
  cases hnone

/-! ## What earlier requests leave behind -/

/-- The value of the last User-Agent header. -/
def lastUserAgent : List RequestRec → Option Bytes
  | [] => none
  | r :: rs => lastUserAgent rs <|> if r.isOurs then r.userAgent else none

/-- A request came over HTTPS. -/
def anyHttps (config : Config) (rs : List RequestRec) : Bool := rs.any fun r => r.isOurs && config.isHttps r

/-- The two variables that a request may leave alone, after a run. -/
theorem env_after {config : Config} : ∀ {rs : List RequestRec} {env env' : Env} {outs : List (Option Env)},
    Run.steps (deepcgiHandler config) env rs = .ok (outs, env') →
    env' "HTTP_USER_AGENT" = (lastUserAgent rs <|> env "HTTP_USER_AGENT") ∧
      env' "HTTPS" = if anyHttps config rs then some (ascii "1") else env "HTTPS"
  | [], env, env', outs, hrun => by
    cases hrun
    exact ⟨rfl, rfl⟩
  | r :: rs, env, env', outs, hrun => by
    obtain ⟨out, env₁, outs', h, hrest, rfl⟩ := Run.steps_cons_ok hrun
    obtain ⟨hua, hhttps⟩ := env_after hrest
    have hlast : lastUserAgent (r :: rs) = (lastUserAgent rs <|> if r.isOurs then r.userAgent else none) := rfl
    have hany : anyHttps config (r :: rs) = (r.isOurs && config.isHttps r || anyHttps config rs) := rfl
    rw [hua, hhttps, hlast, hany]
    cases hours : r.isOurs with
    | false =>
      obtain ⟨-, rfl⟩ := deepcgiHandler_declined hours h
      simp
    | true =>
      obtain ⟨-, hstarted⟩ := deepcgiHandler_ours hours h
      rw [hstarted.userAgent, hstarted.https]
      cases lastUserAgent rs <;> cases config.isHttps r <;> simp

/-! ## Isolation -/

/-- The replay server sees the same request, and replays the same. -/
structure Alike (seen first : Env) : Prop where
  values : ∀ v ∈ requestVariables, seen v = first v
  headerMatch : ∀ v ∈ requestVariables, ∀ headerName savedRequest,
    Replayserver.headerMatch seen v headerName savedRequest = Replayserver.headerMatch first v headerName savedRequest
  matchScore : ∀ savedRecord requestLine isHttps,
    Replayserver.matchScore seen savedRecord requestLine isHttps =
      Replayserver.matchScore first savedRecord requestLine isHttps
  main : ∀ recordings, Replayserver.main recordings seen = Replayserver.main recordings first

/-- What earlier requests left in the environment is overwritten, or was there before them. -/
structure Unaffected (config : Config) (env₀ : Env) (rs : List RequestRec) (r : RequestRec) : Prop where
  userAgent : r.userAgent = none → ∀ value, lastUserAgent rs = some value → env₀ "HTTP_USER_AGENT" = some value
  https : config.isHttps r = false → anyHttps config rs = true → env₀ "HTTPS" = some (ascii "1")

theorem alike_of_variables {seen first : Env} (hvariables : ∀ v ∈ requestVariables, seen v = first v)
    (hchdir : seen "MAHIMAHI_CHDIR" = first "MAHIMAHI_CHDIR")
    (hrecord : seen "MAHIMAHI_RECORD_PATH" = first "MAHIMAHI_RECORD_PATH") : Alike seen first := by
  have hheader : ∀ v ∈ requestVariables, ∀ headerName savedRequest,
      Replayserver.headerMatch seen v headerName savedRequest =
        Replayserver.headerMatch first v headerName savedRequest := by
    intro v hv headerName savedRequest
    unfold Replayserver.headerMatch
    rw [hvariables v hv]
  have hscore : ∀ savedRecord requestLine isHttps, Replayserver.matchScore seen savedRecord requestLine isHttps =
      Replayserver.matchScore first savedRecord requestLine isHttps := by
    intro savedRecord requestLine isHttps
    unfold Replayserver.matchScore
    dsimp only
    rw [hheader "HTTP_HOST" (by decide), hheader "HTTP_USER_AGENT" (by decide)]
  have hbest : ∀ requestLine isHttps records best, Replayserver.bestMatch seen requestLine isHttps best records =
      Replayserver.bestMatch first requestLine isHttps best records := by
    intro requestLine isHttps records
    induction records with
    | nil => exact fun _ => rfl
    | cons record records ih =>
      intro best
      unfold Replayserver.bestMatch
      rw [hscore]
      exact Run.bind_congr fun score _ => ih _
  refine ⟨hvariables, hheader, hscore, fun recordings => ?_⟩
  have hget : ∀ v, seen v = first v → Replayserver.safeGetenv seen v = Replayserver.safeGetenv first v := by
    intro v hv
    unfold Replayserver.safeGetenv
    rw [hv]
  unfold Replayserver.main
  rw [hget _ hchdir, hget _ hrecord, hget "REQUEST_METHOD" (hvariables _ (by decide)),
    hget "REQUEST_URI" (hvariables _ (by decide)), hget "SERVER_PROTOCOL" (hvariables _ (by decide)),
    hvariables "HTTPS" (by decide)]
  simp only [hbest]

/-- A request is replayed as if it were the worker's first one exactly when what the earlier ones left
of User-Agent headers and HTTPS is overwritten, or was in the environment from the start. -/
theorem alike_iff_unaffected {config : Config} {env₀ env env₁ env₁' seen first : Env} {rs : List RequestRec}
    {outs : List (Option Env)} {r : RequestRec} (hrun : Run.steps (deepcgiHandler config) env₀ rs = .ok (outs, env))
    (h : deepcgiHandler config env r = .ok (some seen, env₁))
    (h₀ : deepcgiHandler config env₀ r = .ok (some first, env₁')) :
    Alike seen first ↔ Unaffected config env₀ rs r := by
  have hours := isOurs_of_seen h
  obtain ⟨hseen, hlater⟩ := deepcgiHandler_ours hours h
  obtain ⟨hfirst, hfresh⟩ := deepcgiHandler_ours hours h₀
  cases hseen
  cases hfirst
  obtain ⟨hua, hhttps⟩ := env_after hrun
  constructor
  · intro halike
    refine ⟨fun hnone value hlast => ?_, fun hssl hany => ?_⟩
    · have heq := halike.values "HTTP_USER_AGENT" (by decide)
      rw [hlater.userAgent, hfresh.userAgent, hnone, hua, hlast] at heq
      exact heq.symm
    · have heq := halike.values "HTTPS" (by decide)
      rw [hlater.https, hfresh.https, hssl, hhttps, hany] at heq
      exact heq.symm
  · intro hunaffected
    have hua' : env₁ "HTTP_USER_AGENT" = env₁' "HTTP_USER_AGENT" := by
      rw [hlater.userAgent, hfresh.userAgent, hua]
      cases hown : r.userAgent with
      | some value => rfl
      | none =>
        cases hlast : lastUserAgent rs with
        | none => rfl
        | some value => exact (hunaffected.userAgent hown value hlast).symm
    have hhttps' : env₁ "HTTPS" = env₁' "HTTPS" := by
      rw [hlater.https, hfresh.https, hhttps]
      cases hssl : config.isHttps r with
      | true => rfl
      | false =>
        cases hany : anyHttps config rs with
        | false => rfl
        | true => exact (hunaffected.https hssl hany).symm
    refine alike_of_variables ?_ (by rw [hlater.workingDir, hfresh.workingDir])
      (by rw [hlater.recordingDir, hfresh.recordingDir])
    intro v hv
    simp only [requestVariables, List.mem_cons, List.not_mem_nil, or_false] at hv
    rcases hv with rfl | rfl | rfl | rfl | rfl | rfl
    · rw [hlater.method, hfresh.method]
    · rw [hlater.uri, hfresh.uri]
    · rw [hlater.protocol, hfresh.protocol]
    · rw [hlater.host, hfresh.host]
    · exact hua'
    · exact hhttps'

/-- A worker that starts with nothing of a request in its environment replays a request that is not affected for the
user agent and the connection of that request. -/
theorem Unaffected.own {config : Config} {env₀ env env' seen : Env} {rs : List RequestRec} {outs : List (Option Env)}
    {r : RequestRec} (hunaffected : Unaffected config env₀ rs r) (hagent : env₀ "HTTP_USER_AGENT" = none)
    (hhttps : env₀ "HTTPS" = none) (hrun : Run.steps (deepcgiHandler config) env₀ rs = .ok (outs, env))
    (h : deepcgiHandler config env r = .ok (some seen, env')) :
    seen "HTTP_USER_AGENT" = r.userAgent ∧ (seen "HTTPS").isSome = config.isHttps r := by
  obtain ⟨hseen, hstarted⟩ := deepcgiHandler_ours (isOurs_of_seen h) h
  cases hseen
  obtain ⟨hua, hssl⟩ := env_after hrun
  rw [hstarted.userAgent, hstarted.https, hua, hssl, hagent, hhttps]
  constructor
  · cases hown : r.userAgent with
    | some value => rfl
    | none =>
      cases hlast : lastUserAgent rs with
      | none => rfl
      | some value =>
        have hset := hunaffected.userAgent hown value hlast
        rw [hagent] at hset
        cases hset
  · cases hhttps' : config.isHttps r with
    | true => rfl
    | false =>
      cases hany : anyHttps config rs with
      | false => rfl
      | true =>
        have hset := hunaffected.https hhttps' hany
        rw [hhttps] at hset
        cases hset

/-! ## Two requests -/

/-- A worker of the replay shell, with nothing of a request in its environment. -/
def worker : Config := { workingDir := ascii "/", recordingDir := ascii "/recording/", sslLoaded := true }

/-- A request for the front page, with the headers and over the connection given. -/
def frontPage (headers : List HTTPHeader) (https : Bool) : RequestRec :=
  { handler := some (ascii "deepcgi-handler")
    method := ascii "GET"
    unparsedUri := ascii "/"
    protocol := ascii "HTTP/1.1"
    hostname := some (ascii "a.com")
    headersIn := headers
    https := https }

def userAgentHeader : HTTPHeader := ⟨ascii "User-Agent", ascii "curl"⟩

/-- Both come over HTTPS and the second has a User-Agent header of its own. -/
theorem alike_iff_unaffected_small : ∃ outs env seen env₁ first env₁',
    Run.steps (deepcgiHandler worker) (fun _ => none) [frontPage [userAgentHeader] true] = .ok (outs, env) ∧
    deepcgiHandler worker env (frontPage [⟨ascii "user-agent", ascii "wget"⟩] true) = .ok (some seen, env₁) ∧
    deepcgiHandler worker (fun _ => none) (frontPage [⟨ascii "user-agent", ascii "wget"⟩] true) =
      .ok (some first, env₁') ∧ Alike seen first := by
  obtain ⟨outs, env, hrun⟩ : ∃ outs env, Run.steps (deepcgiHandler worker) (fun _ => none)
      [frontPage [userAgentHeader] true] = .ok (outs, env) := ⟨_, _, rfl⟩
  obtain ⟨seen, env₁, h⟩ : ∃ seen env₁, deepcgiHandler worker env
      (frontPage [⟨ascii "user-agent", ascii "wget"⟩] true) = .ok (some seen, env₁) := ⟨_, _, rfl⟩
  obtain ⟨first, env₁', h₀⟩ : ∃ first env₁', deepcgiHandler worker (fun _ => none)
      (frontPage [⟨ascii "user-agent", ascii "wget"⟩] true) = .ok (some first, env₁') := ⟨_, _, rfl⟩
  refine ⟨outs, env, seen, env₁, first, env₁', hrun, h, h₀, (alike_iff_unaffected hrun h h₀).2 ⟨?_, ?_⟩⟩
  · intro hnone
    exact absurd hnone (by decide)
  · intro hssl
    exact absurd hssl (by decide)

/-- The front page was recorded over HTTP for a client that sent no User-Agent header. -/
def recorded : Replayserver.RequestResponse :=
  { request := { firstLine := ascii "GET / HTTP/1.1", headers := [⟨ascii "Host", ascii "a.com"⟩] } }

/-- The scores of a recording for the request, after the earlier ones. -/
def scoreAfter (rs : List RequestRec) (r : RequestRec) : Option Nat :=
  match Run.steps (deepcgiHandler worker) (fun _ => none) (rs ++ [r]) with
  | .ok (_, env) => (Replayserver.matchScore env recorded (ascii "GET / HTTP/1.1") (env "HTTPS").isSome).toOption
  | .error _ => none

/-- The recording is found for the first request of a worker, but not after a request with a User-Agent
header, nor after one over HTTPS. -/
theorem score_after_others :
    scoreAfter [] (frontPage [] false) = some 14 ∧
    scoreAfter [frontPage [userAgentHeader] false] (frontPage [] false) = some 0 ∧
    scoreAfter [frontPage [] true] (frontPage [] false) = some 0 := by
  decide +kernel

end Deepcgi

end AbcMahimahi.Frontend
