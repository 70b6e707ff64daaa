/-
The recorder and the replay server together (recordshell.cc, backing_store.cc, replayserver.cc). Each
connection through the HTTP proxy leaves its requests and responses in the recording folder; the replay
server finds them there and writes the responses out again.
-/
import AbcMahimahi.Frontend.BestMatch
import AbcMahimahi.Http.Recording

namespace AbcMahimahi.Frontend

open Bytes Http Replayserver Deepcgi Poller

/-! ## The disk store -/

structure Address where
  ip : Bytes
  port : Nat
  deriving DecidableEq

/-- `HTTPMessage::toprotobuf`. -/
def toProtobuf {S : Type} (m : HTTPMessage S) : Except Fault MessageRecord := do
  check "state_ == COMPLETE" (m.state = .complete)
  pure { firstLine := m.firstLine, headers := m.headers, body := m.body }

/-- A `MahimahiProtobufs::RequestResponse` with its address. -/
structure Recording where
  address : Address
  record : RequestResponse

/-- A file of the recording folder: all of a recording, or what there is of one that could not be saved. -/
inductive SavedFile where
  | whole (recording : Recording)
  | part (written : Bytes)

/-- What the system does in a call of `save`: the descriptor that `mkstemp` returns, if it does not fail, whether
`fcntl` succeeds, and whether `SerializeToFileDescriptor` does, and else what it has written. -/
structure Disk where
  mkstemp : Option Nat
  fcntl : Bool
  serialized : Bool
  written : Bytes

/-- The disk does what it is asked for. -/
def Disk.sound : Disk := { mkstemp := some 3, fcntl := true, serialized := true, written := [] }

/-- `HTTPDiskStore`, with the files in its folder and what the system will do, call by call. -/
structure HTTPDiskStore where
  disk : Nat → Disk
  folder : List SavedFile := []
  saves : Nat := 0

namespace HTTPDiskStore

/-- The protocol buffer for a response. -/
def output (serverAddress : Address) (response : HTTPResponse) : Except Fault Recording := do
  let scheme := if serverAddress.port = 443 then Scheme.https else Scheme.http
  let request ← toProtobuf response.members.request
  let answer ← toProtobuf response
  pure { address := serverAddress, record := { scheme := scheme, request := request, response := answer } }

def add (s : HTTPDiskStore) (file : SavedFile) : HTTPDiskStore := { s with folder := s.folder ++ [file] }

/-- `HTTPDiskStore::save`: how it ends, and the store then. A file that has been made stays. -/
def save (serverAddress : Address) (response : HTTPResponse) (s : HTTPDiskStore) : Except Fault Unit × HTTPDiskStore :=
  let disk := s.disk s.saves
  let s := { s with saves := s.saves + 1 }
  match disk.mkstemp with
  | none => (throw (.unixError "mkstemp"), s)
  | some fd =>
    if fd ≤ 2 then (throw (.unixError "FileDescriptor: fd <= 2"), s.add (.part []))
    else if !disk.fcntl then (throw (.unixError "fcntl FD_CLOEXEC"), s.add (.part []))
    else
      match output serverAddress response with
      | .error e => (throw e, s.add (.part []))
      | .ok recording =>
        if disk.serialized then (pure (), s.add (.whole recording))
        else
          (throw (.runtimeError (ascii "save_to_disk: failure to serialize HTTP request/response pair")),
            s.add (.part disk.written))

/-- The store for the loop of the proxy, which goes on after a call that returns. -/
def saved (serverAddress : Address) (response : HTTPResponse) (s : HTTPDiskStore) : Except Fault HTTPDiskStore :=
  match save serverAddress response s with
  | (.ok _, s') => pure s'
  | (.error e, _) => throw e

/-- The recordings in the folder. -/
def records (s : HTTPDiskStore) : List RequestResponse :=
  s.folder.filterMap fun
    | .whole recording => some recording.record
    | .part _ => none

end HTTPDiskStore

/-- What is saved for a response. -/
def Recording.of (serverAddress : Address) (m : HTTPResponse) : Recording where
  address := serverAddress
  record := {
    scheme := if serverAddress.port = 443 then .https else .http
    request := { firstLine := m.members.request.firstLine, headers := m.members.request.headers, body := m.members.request.body }
    response := { firstLine := m.firstLine, headers := m.headers, body := m.body } }

theorem toProtobuf_ok {S : Type} {m : HTTPMessage S} {proto : MessageRecord} (h : toProtobuf m = .ok proto) :
    m.state = .complete ∧ proto = { firstLine := m.firstLine, headers := m.headers, body := m.body } := by
  obtain ⟨_, hcheck, h⟩ := Run.bind_ok h
  cases h
  exact ⟨by simpa using check_ok hcheck, rfl⟩

theorem toProtobuf_of {S : Type} {m : HTTPMessage S} (h : m.state = .complete) :
    toProtobuf m = .ok { firstLine := m.firstLine, headers := m.headers, body := m.body } := by
  unfold toProtobuf
  rw [check_of (by simpa using h)]
  rfl

/-- What the system may do wrong in `save`. -/
inductive DiskFault : Fault → Prop
  | mkstemp : DiskFault (.unixError "mkstemp")
  | descriptor : DiskFault (.unixError "FileDescriptor: fd <= 2")
  | fcntl : DiskFault (.unixError "fcntl FD_CLOEXEC")
  | serialize : DiskFault (.runtimeError (ascii "save_to_disk: failure to serialize HTTP request/response pair"))

namespace HTTPDiskStore

variable {address : Address} {m : HTTPResponse} {s s' : HTTPDiskStore}

theorem output_ok {recording : Recording} (h : output address m = .ok recording) : recording = Recording.of address m := by
  obtain ⟨request, hrequest, h⟩ := Run.bind_ok h
  obtain ⟨answer, hanswer, h⟩ := Run.bind_ok h
  cases h
  rw [(toProtobuf_ok hrequest).2, (toProtobuf_ok hanswer).2]
  rfl

theorem output_of (hrequest : m.members.request.state = .complete) (hm : m.state = .complete) :
    output address m = .ok (Recording.of address m) := by
  unfold output
  rw [toProtobuf_of hrequest, Run.ok_bind, toProtobuf_of hm]
  rfl

/-- A response that is complete, as its request is, is saved, or the system fails and leaves a part of the file
at most. -/
theorem save_spec (hrequest : m.members.request.state = .complete) (hm : m.state = .complete) :
    save address m s = (.ok (), { s.add (.whole (Recording.of address m)) with saves := s.saves + 1 }) ∨
    ∃ e left, DiskFault e ∧ save address m s = (.error e, { s with folder := s.folder ++ left, saves := s.saves + 1 }) ∧
      (left = [] ∨ ∃ written, left = [.part written]) := by
  unfold save
  dsimp only
  rw [output_of hrequest hm]
  cases hmake : (s.disk s.saves).mkstemp with
  | none => exact Or.inr ⟨_, [], .mkstemp, by rw [List.append_nil]; rfl, Or.inl rfl⟩
  | some fd =>
    dsimp only
    by_cases hfd : fd ≤ 2
    · rw [if_pos hfd]
      exact Or.inr ⟨_, _, .descriptor, rfl, Or.inr ⟨[], rfl⟩⟩
    · rw [if_neg hfd]
      cases hfcntl : (s.disk s.saves).fcntl with
      | false => exact Or.inr ⟨_, _, .fcntl, rfl, Or.inr ⟨[], rfl⟩⟩
      | true =>
        cases hserialized : (s.disk s.saves).serialized with
        | false => exact Or.inr ⟨_, _, .serialize, rfl, Or.inr ⟨_, rfl⟩⟩
        | true => exact Or.inl rfl

theorem saved_ok (h : saved address m s = .ok s') : s'.folder = s.folder ++ [.whole (Recording.of address m)] := by
  unfold saved save at h
  dsimp only at h
  split at h
  · rename_i heq
    cases h
    split at heq
    · cases heq
    · split at heq
      · cases heq
      · split at heq
        · cases heq
        · split at heq
          · cases heq
          · rename_i hrecording
            rw [output_ok hrecording] at heq
            split at heq
            · cases heq
              rfl
            · cases heq
  · cases h

theorem saves_ok : ∀ {ms : List HTTPResponse} {s s' : HTTPDiskStore}, ms.foldlM (fun b m => saved address m b) s = .ok s' →
    s'.folder = s.folder ++ ms.map fun m => .whole (Recording.of address m)
  | [], s, s', h => by
    cases h
    exact (List.append_nil _).symm
  | m :: ms, s, s', h => by
    obtain ⟨next, hsave, hrest⟩ := Run.bind_ok (show (saved address m s >>= fun b => ms.foldlM (fun b m => saved address m b) b) = _ from h)
    rw [saves_ok hrest, saved_ok hsave, List.append_assoc]
    rfl

theorem records_of_whole {ms : List HTTPResponse} (h : s.folder = ms.map fun m => .whole (Recording.of address m)) :
    s.records = ms.map fun m => (Recording.of address m).record := by
  unfold records
  rw [h, List.filterMap_map]
  exact congrFun List.filterMap_eq_map ms

end HTTPDiskStore

/-! ## Connections through the recorder -/

/-- A connection through the proxy, which saves to the folder, and how far it has come. -/
structure Connection where
  address : Address
  disk : Nat → Disk
  rounds : List ProxyRound
  ended : Bool
  proxy : HTTPProxy HTTPDiskStore
  run : HTTPProxy.loop (HTTPDiskStore.saved address) { disk := disk } rounds = .ok (ended, proxy)

/-- Every request that the proxy has passed on was completed by its parser. -/
theorem forwarded_whole {B : Type} {save : HTTPResponse → B → Except Fault B} {start : B} {s : HTTPProxy B}
    (h : HTTPProxy.Records save start s) : ∀ r ∈ s.forwarded, r.Whole :=
  fun _ hr => whole_of_feed h.requests (List.mem_append_left _ hr)

/-- A request that a parser completed starts with the name of its method. -/
theorem starts_with_method {m : HTTPRequest} (h : m.Whole) : ∃ b bs, m.firstLine = b :: bs ∧ b ≠ 63 := by
  have hcalculate := h.calculate
  unfold HTTPRequest.calculateExpectedBodySize at hcalculate
  obtain ⟨_, -, hcalculate⟩ := Run.bind_ok hcalculate
  -- the method decides, and that is how the line begins
  have hfront : ∀ {n : Nat} {b : UInt8} {rest : Bytes}, b ≠ 63 → m.firstLine.take (n + 1) = b :: rest →
      ∃ b bs, m.firstLine = b :: bs ∧ b ≠ 63 := by
    intro n b rest hb htake
    cases hline : m.firstLine with
    | nil => rw [hline] at htake; cases htake
    | cons c cs =>
      rw [hline, List.take_succ_cons] at htake
      cases htake
      exact ⟨_, _, rfl, hb⟩
  have hline : m.bare.firstLine = m.firstLine := rfl
  rw [hline] at hcalculate
  split at hcalculate
  · rename_i hmethod
    rcases hmethod with hget | hhead
    · exact hfront (by decide) hget
    · exact hfront (by decide) hhead
  · split at hcalculate
    · rename_i hpost
      exact hfront (by decide) hpost
    · cases hcalculate

theorem request_forwarded {B : Type} {save : HTTPResponse → B → Except Fault B} {start : B} {s : HTTPProxy B}
    (h : HTTPProxy.Records save start s) {m : HTTPResponse} (hm : m ∈ s.answered ++ s.responseParser.completeMessages) :
    m.members.request ∈ s.forwarded :=
  (HTTPProxy.answered_prefix h).subset (List.mem_map.2 ⟨m, hm, rfl⟩)

/-- A recorder that fails does so in a system call, in a parser, in the disk store, or at a message of 4 GiB. Where the
disk store fails, the client has got the response already, and the folder does not hold it: it holds an unfinished file
at most besides the others. -/
inductive RecorderFails (address : Address) (s : HTTPProxy HTTPDiskStore) : Fault → Prop
  | io {e : Fault} (h : IoFault e) : RecorderFails address s e
  | request {e : Fault} {buf : Bytes} (h : s.requestParser.parse buf = .error e) : RecorderFails address s e
  | response {e : Fault} {buf : Bytes} (h : s.responseParser.parse buf = .error e) : RecorderFails address s e
  | disk {e : Fault} {m : HTTPResponse} {socket : Socket} {pieces : List Bytes} {client : FileDescriptor}
      {store : HTTPDiskStore} {left : List SavedFile} (hm : s.responseParser.front = some m)
      (hwrite : s.client.write socket.write m.serialized = .ok (pieces, client)) (hheard : pieces.flatten = m.serialized)
      (hsave : HTTPDiskStore.save address m s.backingStore = (.error e, store)) (h : DiskFault e)
      (hfolder : store.folder = s.backingStore.folder ++ left) (hleft : left = [] ∨ ∃ written, left = [.part written]) :
      RecorderFails address s e
  | hugeRequest {m : HTTPRequest} (hm : s.requestParser.front = some m) (h : 2 ^ 32 ≤ m.serialized.length) :
      RecorderFails address s busyWait
  | hugeResponse {m : HTTPResponse} {store : HTTPDiskStore} (hm : s.responseParser.front = some m)
      (hfolder : store.folder = s.backingStore.folder ++ [.whole (Recording.of address m)])
      (hsave : HTTPDiskStore.save address m s.backingStore = (.ok (), store)) (h : 2 ^ 32 ≤ m.serialized.length) :
      RecorderFails address s busyWait

/-- As long as the loop goes on, whatever the disk does, the folder holds exactly the responses that the proxy has
passed on, each with its request and the address of the server, in order. Saving never fails an assertion: what is
saved is complete, and so is its request. So a run ends otherwise only in the ways named, from a state in which the
folder holds just those responses. -/
theorem recorder_saves (address : Address) (disk : Nat → Disk) (rounds : List ProxyRound) :
    (∀ e, HTTPProxy.loop (HTTPDiskStore.saved address) { disk := disk } rounds = .error e →
      ∃ s, HTTPProxy.Records (HTTPDiskStore.saved address) { disk := disk } s ∧
        s.backingStore.folder = (s.answered.map fun m => .whole (Recording.of address m)) ∧ RecorderFails address s e) ∧
    ∀ ended s, HTTPProxy.loop (HTTPDiskStore.saved address) { disk := disk } rounds = .ok (ended, s) →
      s.backingStore.folder = (s.answered.map fun m => .whole (Recording.of address m)) ∧
      s.clientHeard = s.answered.flatMap HTTPMessage.serialized := by
  obtain ⟨herr, hok⟩ := HTTPProxy.loop_records (HTTPDiskStore.saved address) { disk := disk } rounds
  refine ⟨fun e he => ?_, fun ended s hs => ?_⟩
  · obtain ⟨s, hrecords, hfails⟩ := herr e he
    -- what is saved is a whole response to a whole request, so no assertion of `save` fails
    have hspec : ∀ {m}, s.responseParser.front = some m → _ := fun {m} hm =>
      @HTTPDiskStore.save_spec address m s.backingStore (forwarded_whole hrecords _
        (request_forwarded hrecords (List.mem_append_right _ (HTTPMessageSequence.front_mem hm)))).complete
        (hrecords.whole m (HTTPMessageSequence.front_mem hm))
    refine ⟨s, hrecords, HTTPDiskStore.saves_ok hrecords.store, ?_⟩
    cases hfails with
    | io h => exact .io h
    | request h _ => exact .request h
    | response h => exact .response h
    | save hm hwrite hheard h =>
      unfold HTTPDiskStore.saved at h
      rcases hspec hm with hsave | ⟨e', left, hfault, hsave, hleft⟩
      · rw [hsave] at h
        cases h
      · rw [hsave] at h
        cases h
        exact .disk hm hwrite hheard hsave hfault rfl hleft
    | hugeRequest hm h => exact .hugeRequest hm h
    | hugeResponse hm hsaved h =>
      rcases hspec hm with hsave | ⟨e', left, -, hsave, -⟩
      · exact .hugeResponse hm rfl hsave h
      · unfold HTTPDiskStore.saved at hsaved
        rw [hsave] at hsaved
        cases hsaved
  · obtain ⟨hrecords, -⟩ := hok ended s hs
    exact ⟨HTTPDiskStore.saves_ok hrecords.store, hrecords.clientHeard⟩

/-! ## The replay -/

/-- A request that asks again for what a response answered, over a connection of the same kind. -/
structure AsksAgain (config : Config) (address : Address) (m : HTTPResponse) (r : RequestRec) : Prop where
  line : m.members.request.firstLine = r.method ++ ascii " " ++ r.unparsedUri ++ ascii " " ++ r.protocol
  host : valueOf m.members.request.headers (ascii "Host") = r.hostname
  userAgent : valueOf m.members.request.headers (ascii "User-Agent") = r.userAgent
  https : config.isHttps r = decide (address.port = 443)

/-- Two responses that the replay server cannot tell apart by host, user agent and scheme, the second of which
answers a request line that begins with that of the first. -/
structure Serves (address address' : Address) (m m' : HTTPResponse) : Prop where
  line : m.members.request.firstLine <+: m'.members.request.firstLine
  host : valueOf m'.members.request.headers (ascii "Host") = valueOf m.members.request.headers (ascii "Host")
  userAgent : valueOf m'.members.request.headers (ascii "User-Agent") = valueOf m.members.request.headers (ascii "User-Agent")
  scheme : address'.port = 443 ↔ address.port = 443

theorem main_of_best (recordings : Bytes → Bytes → Except Fault (List RequestResponse)) {env : Env}
    {workingDirectory recordingDirectory method uri protocol : Bytes} {records : List RequestResponse} {best : Nat × RequestResponse}
    (hchdir : env "MAHIMAHI_CHDIR" = some workingDirectory) (hrecord : env "MAHIMAHI_RECORD_PATH" = some recordingDirectory)
    (hmethod : env "REQUEST_METHOD" = some method) (huri : env "REQUEST_URI" = some uri)
    (hprotocol : env "SERVER_PROTOCOL" = some protocol) (hrecordings : recordings workingDirectory recordingDirectory = .ok records)
    (hbest : bestMatch env (method ++ ascii " " ++ uri ++ ascii " " ++ protocol) (env "HTTPS").isSome (0, {}) records = .ok best)
    (hpos : 0 < best.1) : main recordings env = .ok (ofProtobuf best.2.response : HTTPResponse).serialized := by
  have hget : ∀ {key value}, env key = some value → safeGetenv env key = .ok value := by
    intro key value h
    unfold safeGetenv
    rw [h]
    rfl
  unfold main
  rw [hget hchdir, hget hrecord, hget hmethod, hget huri, hget hprotocol, Run.ok_bind, Run.ok_bind, Run.ok_bind, Run.ok_bind,
    Run.ok_bind, hrecordings, Run.ok_bind, hbest, Run.ok_bind]
  dsimp only
  rw [if_pos hpos]
  rfl

theorem commonLength_self : ∀ a : Bytes, commonLength a a = a.length
  | [] => rfl
  | b :: a => by
    unfold commonLength
    rw [if_neg (not_not.2 rfl), commonLength_self a, List.length_cons]

/-- Lines that agree for as long as the first of them is. -/
theorem prefix_of_commonLength : ∀ {a b : Bytes}, a.length ≤ commonLength a b → a <+: b
  | [], b, _ => List.nil_prefix
  | _ :: _, [], h => by simp [commonLength] at h
  | x :: a, y :: b, h => by
    unfold commonLength at h
    split at h
    · simp at h
    · rename_i heq
      obtain rfl := not_not.1 heq
      rw [List.length_cons] at h
      exact (List.prefix_cons_inj x).2 (prefix_of_commonLength (Nat.le_of_succ_le_succ h))

/-- What was recorded is replayed. When a request comes again that was answered through the recorder, over any of
its connections, and what the earlier requests of the worker left in its environment is overwritten, the replay
server writes byte for byte a response that a client of the recorder has got: to the same request line, or to one
that continues it, of the same host and user agent and over the same kind of connection. The files may come in any
order. -/
theorem recorded_replays (connections : List Connection) {records : List RequestResponse}
    (hrecords : records.Perm (connections.flatMap fun c => c.proxy.backingStore.records))
    (hfits : ∀ r ∈ records, r.request.firstLine.length < 2 ^ 32) {c : Connection} (hc : c ∈ connections) {m : HTTPResponse}
    (hm : m ∈ c.proxy.answered) {config : Config} {env₀ env env' seen : Env} {rs : List RequestRec}
    {outs : List (Option Env)} {r : RequestRec} (hagent : env₀ "HTTP_USER_AGENT" = none) (hhttps : env₀ "HTTPS" = none)
    (hworker : Run.steps (deepcgiHandler config) env₀ rs = .ok (outs, env))
    (hstart : deepcgiHandler config env r = .ok (some seen, env')) (hunaffected : Unaffected config env₀ rs r)
    (hagain : AsksAgain config c.address m r) (recordings : Bytes → Bytes → Except Fault (List RequestResponse))
    (hrecordings : recordings config.workingDir config.recordingDir = .ok records) :
    ∃ c' ∈ connections, ∃ m' ∈ c'.proxy.answered, Serves c.address c'.address m m' ∧
      main recordings seen = .ok m'.serialized ∧ m'.serialized <:+: c'.proxy.clientHeard := by
  obtain ⟨hownAgent, hownHttps⟩ := hunaffected.own hagent hhttps hworker hstart
  obtain ⟨hseen, hstarted⟩ := deepcgiHandler_ours (isOurs_of_seen hstart) hstart
  cases hseen
  have hinvariant : ∀ c : Connection,
      HTTPProxy.Records (HTTPDiskStore.saved c.address) { disk := c.disk } c.proxy := fun c =>
    ((HTTPProxy.loop_records _ _ _).2 _ _ c.run).1
  have hstore : ∀ c : Connection,
      c.proxy.backingStore.records = c.proxy.answered.map fun m => (Recording.of c.address m).record := fun c =>
    HTTPDiskStore.records_of_whole (HTTPDiskStore.saves_ok (hinvariant c).store)
  have hmember : ∀ {x}, x ∈ records ↔ ∃ c ∈ connections, ∃ m ∈ c.proxy.answered, (Recording.of c.address m).record = x := by
    intro x
    rw [hrecords.mem_iff, List.mem_flatMap]
    constructor
    · rintro ⟨c, hc, hx⟩
      rw [hstore c] at hx
      obtain ⟨m, hm, rfl⟩ := List.mem_map.1 hx
      exact ⟨c, hc, m, hm, rfl⟩
    · rintro ⟨c, hc, m, hm, rfl⟩
      refine ⟨c, hc, ?_⟩
      rw [hstore c]
      exact List.mem_map.2 ⟨m, hm, rfl⟩
  have hisHttps : ( env' "HTTPS").isSome = decide (c.address.port = 443) := hownHttps.trans hagain.https
  -- the recording of the request itself
  have heligible : Eligible env' m.members.request.firstLine ( env' "HTTPS").isSome (Recording.of c.address m).record := by
    refine ⟨?_, ?_, ?_, rfl⟩
    · rw [hisHttps]
      show (if c.address.port = 443 then Scheme.https else Scheme.http) = _
      by_cases hport : c.address.port = 443 <;> simp [hport]
    · exact hagain.host.trans hstarted.host.symm
    · exact hagain.userAgent.trans hownAgent.symm
  obtain ⟨b, bs, hline, hb⟩ := starts_with_method
    (forwarded_whole (hinvariant c) _ (request_forwarded (hinvariant c) (List.mem_append_left _ hm)))
  rw [hline] at heligible
  obtain ⟨best, hbest⟩ : ∃ best, Best env' (b :: bs) ( env' "HTTPS").isSome records best := ⟨_, bestMatch_best hb hfits⟩
  have hlongest := hbest.longest _ (hmember.2 ⟨c, hc, m, hm, rfl⟩) heligible
  have hself : commonLength (b :: bs) (Recording.of c.address m).record.request.firstLine = (b :: bs).length := by
    rw [show (Recording.of c.address m).record.request.firstLine = m.members.request.firstLine from rfl, hline]
    exact commonLength_self _
  rw [hself] at hlongest
  have hpos : 0 < best.1 := lt_of_lt_of_le (Nat.succ_pos _) hlongest
  obtain ⟨c', hc', m', hm', hrecord⟩ := hmember.1 (hbest.mem hpos)
  obtain ⟨hscheme, hhost, hua, -⟩ := hbest.eligible hpos
  obtain ⟨-, hhost₀, hua₀, -⟩ := heligible
  rw [hbest.score hpos, ← hrecord] at hlongest
  rw [← hrecord] at hscheme hhost hua
  refine ⟨c', hc', m', hm', ⟨?_, hhost.trans hhost₀.symm, hua.trans hua₀.symm, ?_⟩, ?_, ?_⟩
  · rw [hline]
    exact prefix_of_commonLength hlongest
  · have hport : (if c'.address.port = 443 then Scheme.https else Scheme.http) =
        if ( env' "HTTPS").isSome then Scheme.https else Scheme.http := hscheme
    rw [hisHttps] at hport
    by_cases h : c.address.port = 443 <;> by_cases h' : c'.address.port = 443 <;> simp [h, h'] at hport ⊢
  · have hrequestLine : r.method ++ ascii " " ++ r.unparsedUri ++ ascii " " ++ r.protocol = b :: bs := hagain.line.symm.trans hline
    have hmain := main_of_best recordings hstarted.workingDir hstarted.recordingDir hstarted.method hstarted.uri
      hstarted.protocol hrecordings (hrequestLine ▸ hbest.found) hpos
    rw [hmain, ← hrecord]
    rfl
  · rw [(hinvariant c').clientHeard]
    obtain ⟨before, after, hsplit⟩ := List.append_of_mem hm'
    rw [hsplit, List.flatMap_append, List.flatMap_cons, ← List.append_assoc]
    exact ⟨before.flatMap HTTPMessage.serialized, after.flatMap HTTPMessage.serialized, rfl⟩

/-- Two requests for the front page, by different user agents, the responses to them, and each passed on. -/
def recordedRounds : List ProxyRound :=
  [HTTPProxy.quickRound (· = 1) []
      (ascii "GET / HTTP/1.1\r\nHost: a.com\r\n\r\nGET / HTTP/1.1\r\nHost: a.com\r\nUser-Agent: wget\r\n\r\n"),
    HTTPProxy.quickRound (· = 2) [] [], HTTPProxy.quickRound (· = 2) [] [],
    HTTPProxy.quickRound (· = 0) (ascii "HTTP/1.1 204 No Content\r\n\r\nHTTP/1.1 200 OK\r\nContent-Length: 2\r\n\r\nok") [],
    HTTPProxy.quickRound (· = 3) [] [], HTTPProxy.quickRound (· = 3) [] []]

def recordedRequests : List HTTPRequest :=
  [⟨(true, 0), ascii "GET / HTTP/1.1", [⟨ascii "Host", ascii "a.com"⟩], [], .complete, {}⟩,
    ⟨(true, 0), ascii "GET / HTTP/1.1", [⟨ascii "Host", ascii "a.com"⟩, ⟨ascii "User-Agent", ascii "wget"⟩], [], .complete, {}⟩]

/-- The second of them comes again, to a worker that has served a request of another user agent. -/
theorem recorded_replays_small : ∃ c : Connection, ∃ m ∈ c.proxy.answered, ∃ outs env seen env',
    c.proxy.answered.map (·.members.request) = recordedRequests ∧
    Run.steps (deepcgiHandler worker) (fun _ => none) [Deepcgi.frontPage [userAgentHeader] false] = .ok (outs, env) ∧
    deepcgiHandler worker env (Deepcgi.frontPage [⟨ascii "user-agent", ascii "wget"⟩] false) = .ok (some seen, env') ∧
    main (fun _ _ => .ok c.proxy.backingStore.records) seen = .ok m.serialized := by
  obtain ⟨outs, env, hworker⟩ : ∃ outs env, Run.steps (deepcgiHandler worker) (fun _ => none)
      [Deepcgi.frontPage [userAgentHeader] false] = .ok (outs, env) := ⟨_, _, rfl⟩
  obtain ⟨seen, env', hstart⟩ : ∃ seen env', deepcgiHandler worker env
      (Deepcgi.frontPage [⟨ascii "user-agent", ascii "wget"⟩] false) = .ok (some seen, env') := ⟨_, _, rfl⟩
  have hrun : (fun r =>
        (r.1, r.2.answered.map fun m => m.members.request, r.2.backingStore.records.map fun f => f.request.firstLine)) <$>
      HTTPProxy.loop (HTTPDiskStore.saved ⟨ascii "1.2.3.4", 80⟩) { disk := fun _ => Disk.sound } recordedRounds =
      .ok (false, recordedRequests, [ascii "GET / HTTP/1.1", ascii "GET / HTTP/1.1"]) := by decide +kernel
  obtain ⟨⟨ended, s⟩, h, hvalues⟩ := Run.map_eq_ok hrun
  simp only [Prod.mk.injEq] at hvalues
  obtain ⟨rfl, hanswered, hstore⟩ := hvalues
  obtain ⟨m, hm, hrequest⟩ : ∃ m ∈ s.answered, m.members.request = ⟨(true, 0), ascii "GET / HTTP/1.1",
      [⟨ascii "Host", ascii "a.com"⟩, ⟨ascii "User-Agent", ascii "wget"⟩], [], .complete, {}⟩ :=
    List.mem_map.1 (by rw [hanswered]; exact List.mem_cons_of_mem _ (List.mem_singleton.2 rfl))
  have hfits : ∀ r ∈ s.backingStore.records, r.request.firstLine.length < 2 ^ 32 := by
    intro r hr
    have hline : r.request.firstLine ∈ s.backingStore.records.map fun f => f.request.firstLine := List.mem_map.2 ⟨r, hr, rfl⟩
    rw [hstore] at hline
    simp only [List.mem_cons, List.not_mem_nil, or_false, or_self] at hline
    rw [hline]
    decide
  have hunaffected : Unaffected worker (fun _ => none) [Deepcgi.frontPage [userAgentHeader] false]
      (Deepcgi.frontPage [⟨ascii "user-agent", ascii "wget"⟩] false) :=
    ⟨fun hnone => absurd hnone (by decide), fun _ hany => absurd hany (by decide)⟩
  have hagain : AsksAgain worker ⟨ascii "1.2.3.4", 80⟩ m (Deepcgi.frontPage [⟨ascii "user-agent", ascii "wget"⟩] false) :=
    ⟨by rw [hrequest]; decide, by rw [hrequest]; decide, by rw [hrequest]; decide, by decide⟩
  obtain ⟨c', hc', m', hm', -, hmain, -⟩ := recorded_replays [⟨_, _, _, _, s, h⟩] (by simp) hfits
    (List.mem_singleton.2 rfl) hm rfl rfl hworker hstart hunaffected hagain (fun _ _ => .ok s.backingStore.records) rfl
  obtain rfl := List.mem_singleton.1 hc'
  exact ⟨_, m', hm', outs, env, seen, env', hanswered, hworker, hstart, hmain⟩

end AbcMahimahi.Frontend
