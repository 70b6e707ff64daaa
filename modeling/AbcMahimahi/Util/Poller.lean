/-
`FileDescriptor` (file_descriptor.cc), as far as a poller looks at it, and `Poller` (poller.cc), around
any state that the callbacks work on. What the world does in a poll is a parameter of the callbacks; what
`::poll` returns is one of the poll.
-/
import AbcMahimahi.Util.EventLoop

namespace AbcMahimahi

open Bytes EventLoop

/-! ## Descriptors -/

/-- What a `FileDescriptor` keeps besides its number. -/
structure FileDescriptor where
  eof : Bool := false
  readCount : Nat := 0
  writeCount : Nat := 0
  deriving DecidableEq

namespace FileDescriptor

def registerRead (fd : FileDescriptor) : FileDescriptor := { fd with readCount := u32 (fd.readCount + 1) }

def registerWrite (fd : FileDescriptor) : FileDescriptor := { fd with writeCount := u32 (fd.writeCount + 1) }

/-- What a successful `read` does to the descriptor: one of nothing is the end of the file. -/
def read (fd : FileDescriptor) (got : Bytes) : FileDescriptor :=
  registerRead (if got.isEmpty then { fd with eof := true } else fd)

/-- `read( limit )`, of what the system call returned, if it did not fail. -/
def readSome (fd : FileDescriptor) : Option Bytes → Except Fault (Bytes × FileDescriptor)
  | none => throw (.unixError "read")
  | some got => pure (got, fd.read got)

/-- What `write` throws when it gets nothing to write. -/
def nothingToWrite : Fault := .runtimeError (ascii "nothing to write")

/-- `write( begin, end )`: how many of the bytes offered the system call took, if it did not fail. -/
def writeSome (fd : FileDescriptor) (offered : Bytes) (taken : Option Nat) : Except Fault (Nat × FileDescriptor) := do
  if offered.isEmpty then throw nothingToWrite
  match taken with
  | none => throw (.unixError "write")
  | some taken => do
    if taken = 0 then throw (.runtimeError (ascii "write returned 0"))
    pure (taken, fd.registerWrite)

/-- The loop of `write( buffer )`: the pieces written, in order. A turn writes a byte at least. -/
def writeLoop (kernel : Nat → Bytes → Option Nat) : Nat → Bytes → FileDescriptor → Except Fault (List Bytes × FileDescriptor)
  | 0, _, _ => throw .endless
  | turns + 1, offered, fd => do
    let (taken, fd) ← fd.writeSome offered (kernel turns offered)
    if (offered.drop taken).isEmpty then pure ([offered.take taken], fd)
    else do
      let (pieces, fd) ← writeLoop kernel turns (offered.drop taken) fd
      pure (offered.take taken :: pieces, fd)

/-- `write( buffer )`. -/
def write (fd : FileDescriptor) (kernel : Nat → Bytes → Option Nat) (buffer : Bytes) :
    Except Fault (List Bytes × FileDescriptor) :=
  writeLoop kernel (max 1 buffer.length) buffer fd

/-! ### The counters move -/

theorem registerWrite_count : ∀ (n : Nat) (fd : FileDescriptor),
    (registerWrite^[n + 1] fd).writeCount = u32 (fd.writeCount + (n + 1))
  | 0, fd => rfl
  | n + 1, fd => by
    rw [Function.iterate_succ_apply, registerWrite_count n]
    unfold registerWrite u32
    dsimp only
    omega

/-- The counter moves, unless it goes all the way around. -/
theorem writeCount_moves {n : Nat} (fd : FileDescriptor) (hpos : n ≠ 0) (hlt : n < 2 ^ 32) :
    fd.writeCount ≠ (registerWrite^[n] fd).writeCount := by
  obtain ⟨n, rfl⟩ := Nat.exists_eq_succ_of_ne_zero hpos
  rw [Nat.succ_eq_add_one, registerWrite_count]
  unfold u32
  omega

theorem readCount_moves (fd : FileDescriptor) (got : Bytes) : fd.readCount ≠ (fd.read got).readCount := by
  unfold read registerRead u32
  split <;> dsimp only <;> omega

theorem eof_read {fd : FileDescriptor} (h : fd.eof = true) (got : Bytes) : (fd.read got).eof = true := by
  unfold read registerRead
  split
  · rfl
  · exact h

theorem eof_registerWrite : ∀ (n : Nat) (fd : FileDescriptor), (registerWrite^[n] fd).eof = fd.eof
  | 0, _ => rfl
  | n + 1, fd => by
    rw [Function.iterate_succ_apply, eof_registerWrite n]
    rfl

end FileDescriptor

/-- What a socket does: the bytes that `::read` returns and the number that `::write` takes in each of its calls, or
nothing where the call fails. -/
structure Socket where
  read : Nat → Option Bytes
  write : Nat → Bytes → Option Nat
  read_le : ∀ limit got, read limit = some got → got.length ≤ limit
  write_le : ∀ turn offered taken, write turn offered = some taken → taken ≤ offered.length

/-- What a call of the system does wrong. -/
inductive IoFault : Fault → Prop
  | read : IoFault (.unixError "read")
  | write : IoFault (.unixError "write")
  | nothingWritten : IoFault (.runtimeError (ascii "write returned 0"))
  | poll : IoFault (.unixError "poll")

namespace FileDescriptor

/-! ### Writing -/

/-- What is written is part of what is offered, and not nothing. -/
theorem writeSome_spec (fd : FileDescriptor) {offered : Bytes} (taken : Option Nat) (hne : offered ≠ []) :
    (∀ e, fd.writeSome offered taken = .error e → IoFault e) ∧
    ∀ n fd', fd.writeSome offered taken = .ok (n, fd') → taken = some n ∧ 0 < n ∧ fd' = fd.registerWrite := by
  unfold writeSome
  rw [if_neg (by simpa using hne)]
  cases taken with
  | none =>
    refine ⟨fun e he => ?_, fun n fd' hs => (by cases hs)⟩
    cases he
    exact .write
  | some taken =>
    by_cases hzero : taken = 0
    · subst hzero
      refine ⟨fun e he => ?_, fun n fd' hs => (by cases hs)⟩
      cases he
      exact .nothingWritten
    · dsimp only
      rw [if_neg hzero]
      refine ⟨fun e he => (by cases he), fun n fd' hs => ?_⟩
      cases hs
      exact ⟨rfl, Nat.pos_of_ne_zero hzero, rfl⟩

/-- However the socket cuts it, a buffer is written whole and in order, each piece in a call of its own. -/
theorem writeLoop_spec {socket : Socket} : ∀ (turns : Nat) {offered : Bytes} (fd : FileDescriptor), offered ≠ [] →
    offered.length ≤ turns → (∀ e, writeLoop socket.write turns offered fd = .error e → IoFault e) ∧
    ∀ pieces fd', writeLoop socket.write turns offered fd = .ok (pieces, fd') → pieces.flatten = offered ∧ pieces ≠ [] ∧
      pieces.length ≤ offered.length ∧ fd' = registerWrite^[pieces.length] fd
  | 0, _, _, hne, hlen => absurd (List.eq_nil_of_length_eq_zero (Nat.le_zero.1 hlen)) hne
  | turns + 1, offered, fd, hne, hlen => by
    obtain ⟨herr, hok⟩ := writeSome_spec fd (socket.write turns offered) hne
    unfold writeLoop
    cases hsome : fd.writeSome offered (socket.write turns offered) with
    | error e =>
      refine ⟨fun e' he => ?_, fun pieces fd' hs => (by cases hs)⟩
      cases he
      exact herr e hsome
    | ok r =>
      obtain ⟨n, fd₁⟩ := r
      obtain ⟨htaken, hpos, rfl⟩ := hok n fd₁ hsome
      have hle := socket.write_le _ _ _ htaken
      rw [Run.ok_bind]
      dsimp only
      -- either the kernel has taken all, or what is left is offered in the next turn
      by_cases hrest : (offered.drop n).isEmpty = true
      · rw [if_pos hrest]
        rw [List.isEmpty_iff, List.drop_eq_nil_iff] at hrest
        refine ⟨fun e he => (by cases he), fun pieces fd' hs => ?_⟩
        cases hs
        refine ⟨?_, List.cons_ne_nil _ _, ?_, rfl⟩
        · rw [List.flatten_singleton, List.take_of_length_le hrest]
        · exact List.length_pos_iff.2 hne
      · rw [if_neg hrest]
        have hdrop : (offered.drop n).length = offered.length - n := List.length_drop
        have hsome' : offered.drop n ≠ [] := by simpa using hrest
        obtain ⟨herr', hok'⟩ := writeLoop_spec turns fd.registerWrite hsome' (by omega)
        refine ⟨fun e he => ?_, fun pieces fd' hs => ?_⟩
        · rcases Run.bind_error he with he | ⟨_, -, he⟩
          · exact herr' e he
          · cases he
        · obtain ⟨⟨pieces', fd₂⟩, hloop, hs⟩ := Run.bind_ok hs
          cases hs
          obtain ⟨hflat, -, hcount, rfl⟩ := hok' pieces' fd₂ hloop
          refine ⟨?_, List.cons_ne_nil _ _, ?_, rfl⟩
          · rw [List.flatten_cons, hflat, List.take_append_drop]
          · dsimp only
            rw [List.length_cons]
            omega

theorem write_spec (fd : FileDescriptor) (socket : Socket) {buffer : Bytes} (hne : buffer ≠ []) :
    (∀ e, fd.write socket.write buffer = .error e → IoFault e) ∧
    ∀ pieces fd', fd.write socket.write buffer = .ok (pieces, fd') → pieces.flatten = buffer ∧ pieces ≠ [] ∧
      pieces.length ≤ buffer.length ∧ fd' = registerWrite^[pieces.length] fd :=
  writeLoop_spec _ fd hne (le_max_right 1 _)

end FileDescriptor

/-! ## The poller -/

namespace Poller

inductive Direction where
  | input
  | output
  deriving DecidableEq

/-- `Poller::Action::Result`. -/
structure Reply where
  result : ResultType := .cont
  exitStatus : Nat := 0
  deriving DecidableEq

/-- `Poller::Action`. -/
structure Action (ε σ : Type) where
  fd : σ → FileDescriptor
  direction : Direction
  callback : ε → σ → Except Fault (Reply × σ)
  whenInterested : ε → σ → Bool := fun _ _ => true
  active : Bool := true

/-- The events that came for a descriptor; the last one is any of `POLLERR`, `POLLHUP` and `POLLNVAL`. -/
structure Revents where
  input : Bool := false
  output : Bool := false
  hangup : Bool := false
  deriving DecidableEq

def Revents.has (revents : Revents) : Direction → Bool
  | .input => revents.input
  | .output => revents.output

/-- What `::poll` does: it fails, it times out, or it returns the events of each descriptor. -/
inductive Kernel where
  | failure
  | timeout
  | ready (revents : Nat → Revents)

/-- A descriptor that the poller looks at is in trouble. -/
def Kernel.HangsUp (kernel : Kernel) : Prop := ∃ revents n, kernel = .ready revents ∧ (revents n).hangup = true

/-- `Poller::Result`. -/
inductive Result where
  | success
  | timeout
  | exit (status : Nat)
  deriving DecidableEq

/-- What `poll` throws when a callback has left its descriptor alone. -/
def busyWait : Fault := .runtimeError (ascii "Poller: busy wait detected: callback did not read/write fd")

/-- Not what is thrown when a callback is asked for and has nothing to do. -/
def NotIdle (e : Fault) : Prop := e ≠ busyWait ∧ e ≠ FileDescriptor.nothingToWrite

theorem notIdle_of_broken {e : Fault} (h : e.Broken) : NotIdle e := by
  cases h <;> exact ⟨nofun, nofun⟩

theorem notIdle_unixError (attempt : String) : NotIdle (.unixError attempt) := ⟨nofun, nofun⟩

/-- It is neither of the two messages. -/
theorem notIdle_message {what : Bytes} (h : what ∉ [ascii "Poller: busy wait detected: callback did not read/write fd",
    ascii "nothing to write"]) : NotIdle (.runtimeError what) := by
  rw [List.mem_pair, not_or] at h
  exact ⟨fun heq => h.1 (Fault.runtimeError.inj heq), fun heq => h.2 (Fault.runtimeError.inj heq)⟩

/-! ### The signal handler -/

theorem waitable_throws (p : ChildProcess) : Run.Throws NotIdle p.waitable :=
  ((throws_check _ _).imp fun _ => notIdle_of_broken).bind fun _ _ => Run.throws_ok _

theorem wait_throws (p : ChildProcess) : Run.Throws NotIdle p.wait := by
  refine ((throws_check _ _).imp fun _ => notIdle_of_broken).bind fun _ _ => ?_
  split
  · exact Run.throws_error (notIdle_message (by decide))
  · exact Run.throws_ok _

/-- The message about a child begins with a backquote. -/
theorem notIdle_exception (p : ChildProcess) : NotIdle p.exception := by
  refine notIdle_message fun h => ?_
  rcases List.mem_pair.1 h with h | h
  · cases congrArg List.head? h
  · cases congrArg List.head? h

theorem searchChildren_throws : ∀ (rest seen : List Managed), Run.Throws NotIdle (searchChildren seen rest)
  | [], _ => Run.throws_ok _
  | (status, proc) :: rest, seen => by
    unfold searchChildren
    refine Run.Throws.bind ?_ fun skip _ => ?_
    · split
      · exact Run.throws_ok _
      · exact (waitable_throws proc).bind fun _ _ => Run.throws_ok _
    · split
      · exact searchChildren_throws rest _
      · refine (wait_throws proc).bind fun proc' _ => ?_
        split
        · split
          · exact Run.throws_error (notIdle_exception proc')
          · dsimp only
            split
            · exact Run.throws_ok _
            · exact Run.throws_ok _
        · exact (searchChildren_throws rest _).bind fun _ _ => Run.throws_ok _

theorem handleSignal_throws (children : List Managed) (signal : Signal) : Run.Throws NotIdle (handleSignal children signal) := by
  cases signal with
  | chld =>
    simp only [handleSignal]
    split
    · exact Run.throws_error (notIdle_message (by decide))
    · exact searchChildren_throws children []
  | stop | other _ => exact Run.throws_error (notIdle_message (by decide))
  | cont | hup | term | quit | int => exact Run.throws_ok _

variable {ε σ : Type}

namespace Action

def serviceCount (a : Action ε σ) (s : σ) : Nat :=
  match a.direction with
  | .input => (a.fd s).readCount
  | .output => (a.fd s).writeCount

/-- Does the poller care about the descriptor of this action? -/
def events (a : Action ε σ) (env : ε) (s : σ) : Bool :=
  -- don't poll in on fds that have had EOF
  if a.direction = .input ∧ (a.fd s).eof then false else a.active && a.whenInterested env s

/-- The action after its callback. -/
def after (a : Action ε σ) (reply : Reply) : Action ε σ := if reply.result = .cancel then { a with active := false } else a

end Action

/-- The loop over the events that came; each action comes with whether the poller asked for its event. -/
def serve (env : ε) (revents : Nat → Revents) : Nat → List (Action ε σ × Bool) → σ →
    Except Fault (Result × List (Action ε σ) × σ)
  | _, [], s => pure (.success, [], s)
  | i, (a, asked) :: rest, s =>
    if (revents i).hangup then pure (.exit 0, a :: rest.map (·.1), s)
    else if (revents i).has a.direction && asked then do
      let (reply, s') ← a.callback env s
      if reply.result = .exit then pure (.exit reply.exitStatus, a :: rest.map (·.1), s')
      else if a.serviceCount s = a.serviceCount s' then throw busyWait
      else do
        let (result, actions, s'') ← serve env revents (i + 1) rest s'
        pure (result, a.after reply :: actions, s'')
    else do
      let (result, actions, s') ← serve env revents (i + 1) rest s
      pure (result, a :: actions, s')

/-- The actions, each with whether the poller asks for its event. -/
def asking (env : ε) (actions : List (Action ε σ)) (s : σ) : List (Action ε σ × Bool) :=
  actions.map fun a => (a, a.events env s)

/-- `poll`. -/
def poll (kernel : Kernel) (env : ε) (actions : List (Action ε σ)) (s : σ) : Except Fault (Result × List (Action ε σ) × σ) :=
  -- quit if no descriptor is of interest
  if !(asking env actions s).any (·.2) then pure (.exit 0, actions, s)
  else
    match kernel with
    | .failure => throw (.unixError "poll")
    | .timeout => pure (.timeout, actions, s)
    | .ready revents => serve env revents 0 (asking env actions s) s

/-! ## The rule of the loop -/

/-- The rule of the loop over the events: `I` holds between the actions that are through and those still to
come, a callback that was asked for keeps it, and what ends the loop early meets
`P`. An action is skipped where its event did not come or was not asked for. An error is one of a callback, or
comes of a callback that leaves its descriptor alone. -/
theorem serve_rule {env : ε} {revents : Nat → Revents} {I : List (Action ε σ) → List (Action ε σ × Bool) → σ → Prop}
    {P : Result → List (Action ε σ) → σ → Prop} {B : Fault → Prop}
    (hdone : ∀ done s, I done [] s → P .success done s)
    (hstop : ∀ done a asked rest s, I done ((a, asked) :: rest) s → (revents done.length).hangup = true →
      P (.exit 0) (done ++ a :: rest.map (·.1)) s)
    (hskip : ∀ done a asked rest s, I done ((a, asked) :: rest) s → (asked = true → (revents done.length).has a.direction = false) →
      I (done ++ [a]) rest s)
    (hbad : ∀ done a rest s e, I done ((a, true) :: rest) s → a.callback env s = .error e → B e)
    (hcall : ∀ done a rest s reply s', I done ((a, true) :: rest) s → a.callback env s = .ok (reply, s') →
      (reply.result = .exit → P (.exit reply.exitStatus) (done ++ a :: rest.map (·.1)) s') ∧
      (reply.result ≠ .exit → (a.serviceCount s = a.serviceCount s' → B busyWait) ∧ I (done ++ [a.after reply]) rest s')) :
    ∀ (rest : List (Action ε σ × Bool)) (done : List (Action ε σ)) (s : σ), I done rest s →
      (∀ e, serve env revents done.length rest s = .error e → B e) ∧
      ∀ result actions s', serve env revents done.length rest s = .ok (result, actions, s') → P result (done ++ actions) s'
  | [], done, s, h => by
    refine ⟨fun e he => (by cases he), fun result actions s' hs => ?_⟩
    cases hs
    rw [List.append_nil]
    exact hdone done s h
  | (a, asked) :: rest, done, s, h => by
    -- from the next descriptor on, with this one among those that are done
    have hnext : ∀ {a' : Action ε σ} {t : σ}, I (done ++ [a']) rest t →
        (∀ e, serve env revents (done.length + 1) rest t = .error e → B e) ∧
        ∀ result actions s', serve env revents (done.length + 1) rest t = .ok (result, actions, s') →
          P result (done ++ a' :: actions) s' := by
      intro a' t ht
      obtain ⟨herr, hok⟩ := serve_rule hdone hstop hskip hbad hcall rest (done ++ [a']) t ht
      rw [List.length_append, List.length_singleton] at herr hok
      refine ⟨herr, fun result actions s' hs => ?_⟩
      rw [List.append_cons]
      exact hok result actions s' hs
    unfold serve
    -- trouble comes first, then the call, then what its reply says
    by_cases hhangup : (revents done.length).hangup = true
    · rw [if_pos hhangup]
      refine ⟨fun e he => (by cases he), fun result actions s' hs => ?_⟩
      cases hs
      exact hstop done a asked rest s h hhangup
    rw [if_neg hhangup]
    by_cases hcalled : ((revents done.length).has a.direction && asked) = true
    · rw [if_pos hcalled]
      obtain ⟨-, rfl⟩ := Bool.and_eq_true_iff.1 hcalled
      cases hreply : a.callback env s with
      | error e =>
        refine ⟨fun e' he => ?_, fun result actions s' hs => (by cases hs)⟩
        cases he
        exact hbad done a rest s e h hreply
      | ok r =>
        obtain ⟨reply, t⟩ := r
        obtain ⟨hexit, hgo⟩ := hcall done a rest s reply t h hreply
        rw [Run.ok_bind]
        dsimp only
        by_cases hout : reply.result = .exit
        · rw [if_pos hout]
          refine ⟨fun e he => (by cases he), fun result actions s' hs => ?_⟩
          cases hs
          exact hexit hout
        · rw [if_neg hout]
          obtain ⟨hcount, hinv⟩ := hgo hout
          by_cases hstuck : a.serviceCount s = a.serviceCount t
          · rw [if_pos hstuck]
            refine ⟨fun e he => ?_, fun result actions s' hs => (by cases hs)⟩
            cases he
            exact hcount hstuck
          · rw [if_neg hstuck]
            obtain ⟨herr, hok⟩ := hnext hinv
            refine ⟨fun e he => ?_, fun result actions s' hs => ?_⟩
            · rcases Run.bind_error he with he | ⟨r, -, he⟩
              · exact herr e he
              · cases he
            · obtain ⟨⟨result', actions', s''⟩, hrest, hs⟩ := Run.bind_ok hs
              cases hs
              exact hok _ _ _ hrest
    · rw [if_neg hcalled]
      have hskipped : asked = true → (revents done.length).has a.direction = false := by
        rintro rfl
        rw [Bool.and_true, Bool.not_eq_true] at hcalled
        exact hcalled
      obtain ⟨herr, hok⟩ := hnext (hskip done a asked rest s h hskipped)
      refine ⟨fun e he => ?_, fun result actions s' hs => ?_⟩
      · rcases Run.bind_error he with he | ⟨r, -, he⟩
        · exact herr e he
        · cases he
      · obtain ⟨⟨result', actions', s''⟩, hrest, hs⟩ := Run.bind_ok hs
        cases hs
        exact hok _ _ _ hrest

/-- The rule of a whole poll. -/
theorem poll_rule {kernel : Kernel} {env : ε} {actions : List (Action ε σ)} {s : σ}
    {I : List (Action ε σ) → List (Action ε σ × Bool) → σ → Prop}
    {P : Result → List (Action ε σ) → σ → Prop} {B : Fault → Prop} (hstart : I [] (asking env actions s) s)
    (hquiet : (∀ a ∈ actions, a.events env s = false) → P (.exit 0) actions s) (htimeout : kernel = .timeout → P .timeout actions s)
    (hfailure : kernel = .failure → B (.unixError "poll"))
    (hdone : ∀ done s, I done [] s → P .success done s)
    (hstop : ∀ revents done a asked rest s, kernel = .ready revents → I done ((a, asked) :: rest) s →
      (revents done.length).hangup = true → P (.exit 0) (done ++ a :: rest.map (·.1)) s)
    (hskip : ∀ revents done a asked rest s, kernel = .ready revents → I done ((a, asked) :: rest) s →
      (asked = true → (revents done.length).has a.direction = false) → I (done ++ [a]) rest s)
    (hbad : ∀ done a rest s e, I done ((a, true) :: rest) s → a.callback env s = .error e → B e)
    (hcall : ∀ done a rest s reply s', I done ((a, true) :: rest) s → a.callback env s = .ok (reply, s') →
      (reply.result = .exit → P (.exit reply.exitStatus) (done ++ a :: rest.map (·.1)) s') ∧
      (reply.result ≠ .exit → (a.serviceCount s = a.serviceCount s' → B busyWait) ∧ I (done ++ [a.after reply]) rest s')) :
    (∀ e, poll kernel env actions s = .error e → B e) ∧
    ∀ result actions' s', poll kernel env actions s = .ok (result, actions', s') → P result actions' s' := by
  unfold poll
  by_cases hany : (asking env actions s).any (·.2) = true
  · rw [if_neg (by rw [hany]; exact Bool.false_ne_true)]
    -- somebody is interested, so the kernel is asked
    cases kernel with
    | failure =>
      refine ⟨fun e he => ?_, fun result actions' s' hs => (by cases hs)⟩
      cases he
      exact hfailure rfl
    | timeout =>
      refine ⟨fun e he => (by cases he), fun result actions' s' hs => ?_⟩
      cases hs
      exact htimeout rfl
    | ready revents =>
      exact serve_rule hdone (fun done a asked rest s => hstop revents done a asked rest s rfl)
        (fun done a asked rest s => hskip revents done a asked rest s rfl) hbad hcall (asking env actions s) [] s hstart
  · rw [Bool.not_eq_true] at hany
    -- nobody is interested, and nothing is asked of the kernel
    rw [hany]
    refine ⟨fun e he => (by cases he), fun result actions' s' hs => ?_⟩
    cases hs
    refine hquiet fun a ha => ?_
    rw [List.any_eq_false] at hany
    simpa using hany (a, a.events env s) (List.mem_map.2 ⟨a, ha, rfl⟩)

theorem asking_drop {env : ε} {actions : List (Action ε σ)} {s : σ} {n : Nat} {a : Action ε σ} {asked : Bool}
    {rest : List (Action ε σ × Bool)} (h : (a, asked) :: rest = (asking env actions s).drop n) :
    actions[n]? = some a ∧ asked = a.events env s ∧ rest = (asking env actions s).drop (n + 1) := by
  have hget : (asking env actions s)[n]? = some (a, asked) := by
    rw [← List.head?_drop, ← h, List.head?_cons]
  unfold asking at hget
  rw [List.getElem?_map, Option.map_eq_some_iff] at hget
  obtain ⟨b, hb, heq⟩ := hget
  cases heq
  refine ⟨hb, rfl, ?_⟩
  rw [← List.tail_drop, ← h, List.tail_cons]

theorem interested_of_events {env : ε} {a : Action ε σ} {s : σ} (h : a.events env s = true) : a.whenInterested env s = true := by
  unfold Action.events at h
  split at h
  · cases h
  · exact (Bool.and_eq_true_iff.1 h).2

/-- The rule for a poller whose flags are of no matter: `I n` holds before the `n`-th action. -/
theorem poll_steady {kernel : Kernel} {env : ε} {actions : List (Action ε σ)} {s : σ} {I : Nat → σ → Prop}
    {P : Result → σ → Prop} {B : Fault → Prop} (hstart : I 0 s)
    (hquiet : (∀ a ∈ actions, a.events env s = false) → P (.exit 0) s) (htimeout : kernel = .timeout → P .timeout s)
    (hfailure : kernel = .failure → B (.unixError "poll"))
    (hdone : ∀ t, I actions.length t → P .success t)
    (hstop : ∀ revents n t, kernel = .ready revents → I n t → (revents n).hangup = true → P (.exit 0) t)
    (hskip : ∀ revents n a t, kernel = .ready revents → actions[n]? = some a → I n t →
      (a.events env s = true → (revents n).has a.direction = false) → I (n + 1) t)
    (hcall : ∀ n a t, actions[n]? = some a → a.events env s = true → I n t →
      (∀ e, a.callback env t = .error e → B e) ∧
      ∀ reply t', a.callback env t = .ok (reply, t') →
        (reply.result = .exit → P (.exit reply.exitStatus) t') ∧
        (reply.result ≠ .exit → (a.serviceCount t = a.serviceCount t' → B busyWait) ∧ I (n + 1) t')) :
    (∀ e, poll kernel env actions s = .error e → B e) ∧
    ∀ result actions' s', poll kernel env actions s = .ok (result, actions', s') → P result s' := by
  refine poll_rule (I := fun done rest t => done.length ≤ actions.length ∧ rest = (asking env actions s).drop done.length ∧ I done.length t)
    (P := fun result _ t => P result t) ⟨Nat.zero_le _, rfl, hstart⟩ hquiet htimeout hfailure ?_ ?_ ?_ ?_ ?_
  · rintro done t ⟨hle, hn, ht⟩
    -- after the last descriptor so many are done as there are actions
    have hlen := List.drop_eq_nil_iff.1 hn.symm
    unfold asking at hlen
    rw [List.length_map] at hlen
    exact hdone t (le_antisymm hle hlen ▸ ht)
  · rintro revents done a asked rest t hkernel ⟨-, -, ht⟩ hhangup
    exact hstop revents done.length t hkernel ht hhangup
  · rintro revents done a asked rest t hkernel ⟨-, hn, ht⟩ hskipped
    obtain ⟨ha, rfl, hrest⟩ := asking_drop hn
    rw [List.length_append, List.length_singleton]
    exact ⟨(List.getElem?_eq_some_iff.1 ha).1, hrest, hskip revents done.length a t hkernel ha ht hskipped⟩
  · rintro done a rest t e ⟨-, hn, ht⟩ he
    obtain ⟨ha, hasked, -⟩ := asking_drop hn
    exact (hcall done.length a t ha hasked.symm ht).1 e he
  · rintro done a rest t reply t' ⟨-, hn, ht⟩ hreply
    obtain ⟨ha, hasked, hrest⟩ := asking_drop hn
    obtain ⟨hexit, hgo⟩ := (hcall done.length a t ha hasked.symm ht).2 reply t' hreply
    refine ⟨hexit, fun hne => ?_⟩
    obtain ⟨hcount, hnext⟩ := hgo hne
    rw [List.length_append, List.length_singleton]
    exact ⟨hcount, (List.getElem?_eq_some_iff.1 ha).1, hrest, hnext⟩

/-! ## Actions that cancel themselves -/

/-- An action as it was added, or cancelled after its descriptor has come to its end. -/
def Spent (s : σ) (added a : Action ε σ) : Prop :=
  a = { added with active := a.active } ∧ (a.active = false → added.direction = .input ∧ (added.fd s).eof = true)

/-- The actions of a poller are those that were added, and some of them are spent. -/
def Closing (added : List (Action ε σ)) (actions : List (Action ε σ)) (s : σ) : Prop :=
  List.Forall₂ (Spent s) added actions

/-- At the end of its file a descriptor stays. -/
def Stays (added : List (Action ε σ)) (s s' : σ) : Prop := ∀ a ∈ added, (a.fd s).eof = true → (a.fd s').eof = true

theorem Spent.events {added a : Action ε σ} {s : σ} (h : Spent s added a) (hactive : added.active = true) (env : ε) :
    a.events env s = added.events env s := by
  obtain ⟨heq, hspent⟩ := h
  by_cases ha : a.active = true
  · rw [heq, ha, ← hactive]
  · rw [Bool.not_eq_true] at ha
    obtain ⟨hdirection, heof⟩ := hspent ha
    rw [heq]
    unfold Action.events
    dsimp only
    rw [if_pos ⟨hdirection, heof⟩, if_pos ⟨hdirection, heof⟩]

theorem Spent.stays {added : List (Action ε σ)} {a b : Action ε σ} {s s' : σ} (h : Spent s b a) (hb : b ∈ added)
    (hstays : Stays added s s') : Spent s' b a :=
  ⟨h.1, fun hactive => ⟨(h.2 hactive).1, hstays b hb (h.2 hactive).2⟩⟩

theorem closing_self {added : List (Action ε σ)} (h : ∀ a ∈ added, a.active = true) (s : σ) : Closing added added s := by
  refine List.forall₂_same.2 fun a ha => ⟨rfl, fun hactive => ?_⟩
  rw [h a ha] at hactive
  cases hactive

theorem Closing.get {added actions : List (Action ε σ)} {s : σ} (h : Closing added actions s) {n : Nat} {a : Action ε σ}
    (ha : actions[n]? = some a) : ∃ b, added[n]? = some b ∧ Spent s b a := by
  obtain ⟨hlt, rfl⟩ := List.getElem?_eq_some_iff.1 ha
  have hlt' : n < added.length := h.length_eq ▸ hlt
  exact ⟨added[n], List.getElem?_eq_getElem hlt', List.Forall₂.get h hlt' hlt⟩

/-- One action is served, the rest stay as they are. -/
theorem Closing.serve {s s' : σ} {a a' : Action ε σ} {rest : List (Action ε σ)} : ∀ {done added : List (Action ε σ)},
    Closing added (done ++ a :: rest) s → Stays added s s' → (∀ b, added[done.length]? = some b → Spent s' b a') →
    Closing added (done ++ a' :: rest) s'
  | [], b :: added, .cons _ hrest, hstays, ha' => by
    have hmem : List.Forall₂ (fun x y => x ∈ added ∧ Spent s x y) added rest :=
      (List.forall₂_and_left added rest).2 ⟨fun _ hx => hx, hrest⟩
    exact .cons (ha' b rfl) (hmem.imp fun x _ hxy => hxy.2.stays (List.mem_cons_of_mem b hxy.1) hstays)
  | d :: done, b :: added, .cons hd hrest, hstays, ha' => by
    refine .cons (hd.stays (List.mem_cons_self ..) hstays) ?_
    exact Closing.serve hrest (fun x hx => hstays x (List.mem_cons_of_mem b hx)) ha'

/-- The rule for a poller whose actions are cancelled at the end of their files: a cancelled action would not
be asked for anyway. -/
theorem poll_closing {kernel : Kernel} {env : ε} {added actions : List (Action ε σ)} {s : σ} {I : Nat → σ → Prop}
    {P : Result → σ → Prop} {B : Fault → Prop} (hadded : ∀ a ∈ added, a.active = true) (hclosing : Closing added actions s)
    (hstart : I 0 s) (hquiet : (∀ a ∈ added, a.events env s = false) → P (.exit 0) s) (htimeout : kernel = .timeout → P .timeout s)
    (hfailure : kernel = .failure → B (.unixError "poll"))
    (hdone : ∀ t, I added.length t → P .success t)
    (hstop : ∀ revents n t, kernel = .ready revents → I n t → (revents n).hangup = true → P (.exit 0) t)
    (hskip : ∀ n t, I n t → I (n + 1) t)
    (hcall : ∀ n a t, added[n]? = some a → a.events env s = true → I n t →
      (∀ e, a.callback env t = .error e → B e) ∧
      ∀ reply t', a.callback env t = .ok (reply, t') →
        reply.result ≠ .exit ∧ (reply.result = .cancel → a.direction = .input ∧ (a.fd t').eof = true) ∧
        Stays added t t' ∧ (a.serviceCount t = a.serviceCount t' → B busyWait) ∧ I (n + 1) t') :
    (∀ e, poll kernel env actions s = .error e → B e) ∧
    ∀ result actions' s', poll kernel env actions s = .ok (result, actions', s') → P result s' ∧ Closing added actions' s' := by
  -- an action whose descriptor is at its end may be spent, and one that asks is the one that was added
  have hsame : ∀ {n : Nat} {a : Action ε σ}, actions[n]? = some a → ∃ b, added[n]? = some b ∧ b.active = true ∧ a.events env s = b.events env s ∧
      Spent s b a := by
    intro n a ha
    obtain ⟨b, hb, hspent⟩ := hclosing.get ha
    have hactive := hadded b (List.mem_of_getElem? hb)
    exact ⟨b, hb, hactive, hspent.events hactive env, hspent⟩
  refine poll_rule (I := fun done rest t => done.length ≤ actions.length ∧ rest = (asking env actions s).drop done.length ∧
      Closing added (done ++ rest.map (·.1)) t ∧ I done.length t)
    (P := fun result acts t => P result t ∧ Closing added acts t) ⟨Nat.zero_le _, rfl, ?_, hstart⟩ ?_
    (fun hkernel => ⟨htimeout hkernel, hclosing⟩) hfailure ?_ ?_ ?_ ?_ ?_
  · have hmap : (asking env actions s).map (·.1) = actions := by
      unfold asking
      rw [List.map_map]
      exact List.map_id actions
    show Closing added ((asking env actions s).map (·.1)) s
    rw [hmap]
    exact hclosing
  · intro hall
    refine ⟨hquiet fun b hb => ?_, hclosing⟩
    obtain ⟨n, hn⟩ := List.getElem?_of_mem hb
    obtain ⟨hlt, -⟩ := List.getElem?_eq_some_iff.1 hn
    have hfits : n < actions.length := hclosing.length_eq ▸ hlt
    have hget : actions[n]? = some actions[n] := List.getElem?_eq_getElem hfits
    obtain ⟨b', hb', -, hevents, -⟩ := hsame hget
    rw [hn] at hb'
    cases hb'
    rw [← hevents]
    exact hall _ (List.getElem_mem _)
  · rintro done t ⟨hle, hn, hflags, ht⟩
    have hlen := List.drop_eq_nil_iff.1 hn.symm
    unfold asking at hlen
    rw [List.length_map] at hlen
    rw [List.map_nil, List.append_nil] at hflags
    have hall : done.length = added.length := (le_antisymm hle hlen).trans hclosing.length_eq.symm
    exact ⟨hdone t (hall ▸ ht), hflags⟩
  · rintro revents done a asked rest t hkernel ⟨-, -, hflags, ht⟩ hhangup
    exact ⟨hstop revents done.length t hkernel ht hhangup, hflags⟩
  · rintro revents done a asked rest t - ⟨-, hn, hflags, ht⟩ -
    obtain ⟨ha, -, hrest⟩ := asking_drop hn
    rw [List.length_append, List.length_singleton, List.append_assoc]
    exact ⟨(List.getElem?_eq_some_iff.1 ha).1, hrest, hflags, hskip done.length t ht⟩
  · rintro done a rest t e ⟨-, hn, -, ht⟩ he
    obtain ⟨ha, hasked, -⟩ := asking_drop hn
    obtain ⟨b, hb, -, hevents, hspent⟩ := hsame ha
    rw [hspent.1] at he
    exact (hcall done.length b t hb (hevents ▸ hasked.symm) ht).1 e he
  · rintro done a rest t reply t' ⟨-, hn, hflags, ht⟩ hreply
    obtain ⟨ha, hasked, hrest⟩ := asking_drop hn
    obtain ⟨b, hb, -, hevents, hspent⟩ := hsame ha
    have hcallback : b.callback env t = .ok (reply, t') := by
      rw [hspent.1] at hreply
      exact hreply
    obtain ⟨hgoes, hcancel, hstays, hcount, hnext⟩ := (hcall done.length b t hb (hevents ▸ hasked.symm) ht).2 reply t' hcallback
    refine ⟨fun hexit => absurd hexit hgoes, fun _ => ⟨?_, ?_⟩⟩
    · intro heq
      rw [hspent.1] at heq
      exact hcount heq
    rw [List.length_append, List.length_singleton, List.append_assoc]
    refine ⟨(List.getElem?_eq_some_iff.1 ha).1, hrest, hflags.serve hstays fun x hx => ?_, hnext⟩
    rw [hb] at hx
    cases hx
    unfold Action.after
    by_cases hc : reply.result = .cancel
    · rw [if_pos hc]
      refine ⟨?_, fun _ => hcancel hc⟩
      rw [hspent.1]
    · rw [if_neg hc]
      obtain ⟨b', hb', hspent'⟩ := hflags.get (n := done.length) (a := a) (by simp)
      rw [hb] at hb'
      cases hb'
      exact hspent'.stays (List.mem_of_getElem? hb) hstays

/-! ## Polling on and on -/

/-- Poll until it is time to exit, as far as the rounds go: is it? -/
def loop (kernel : ε → Kernel) (actions : List (Action ε σ)) (s : σ) : List ε → Except Fault (Bool × σ)
  | [] => pure (false, s)
  | env :: rounds => do
    let (result, actions, s) ← poll (kernel env) env actions s
    match result with
    | .exit _ => pure (true, s)
    | _ => loop kernel actions s rounds

/-- The rule of the loop: what each poll keeps, and what holds where one exits. Where none does, the loop can be
taken up again. -/
theorem loop_rule {kernel : ε → Kernel} {J : List (Action ε σ) → σ → Prop} {D : σ → Prop} {B : Fault → Prop} :
    ∀ {rounds : List ε} {actions : List (Action ε σ)} {s : σ},
    (∀ env ∈ rounds, ∀ actions s, J actions s → (∀ e, poll (kernel env) env actions s = .error e → B e) ∧
      ∀ result actions' s', poll (kernel env) env actions s = .ok (result, actions', s') →
        J actions' s' ∧ ∀ status, result = .exit status → D s') → J actions s →
    (∀ e, loop kernel actions s rounds = .error e → B e) ∧
    ∀ ended s', loop kernel actions s rounds = .ok (ended, s') → (ended = true → D s') ∧
      ∃ actions', J actions' s' ∧ (ended = false → ∀ more, loop kernel actions s (rounds ++ more) = loop kernel actions' s' more)
  | [], actions, s, _, h => by
    refine ⟨fun e he => (by cases he), fun ended s' hs => ?_⟩
    cases hs
    exact ⟨fun hended => (by cases hended), actions, h, fun _ more => rfl⟩
  | env :: rounds, actions, s, hpoll, h => by
    obtain ⟨herr, hok⟩ := hpoll env (List.mem_cons_self ..) actions s h
    have hrest := fun env henv => hpoll env (List.mem_cons_of_mem _ henv)
    have hnext : ∀ {more : List ε} {result : Result} {actions' : List (Action ε σ)} {s₁ : σ},
        poll (kernel env) env actions s = .ok (result, actions', s₁) → (∀ status, result ≠ .exit status) →
        loop kernel actions s (env :: rounds ++ more) = loop kernel actions' s₁ (rounds ++ more) := by
      intro more result actions' s₁ hs₁ hgoes
      rw [List.cons_append]
      conv_lhs => unfold loop
      rw [hs₁, Run.ok_bind]
      cases result with
      | exit status => exact absurd rfl (hgoes status)
      | success => rfl
      | timeout => rfl
    cases hs₁ : poll (kernel env) env actions s with
    | error e =>
      have hloop : loop kernel actions s (env :: rounds) = .error e := by
        unfold loop
        rw [hs₁]
        rfl
      refine ⟨fun e' he => ?_, fun ended s' hs => (by cases hloop.symm.trans hs)⟩
      cases hloop.symm.trans he
      exact herr e hs₁
    | ok r =>
      obtain ⟨result, actions', s₁⟩ := r
      obtain ⟨hinv, hexit⟩ := hok _ _ _ hs₁
      by_cases hgoes : ∀ status, result ≠ .exit status
      · obtain ⟨herr', hok'⟩ := loop_rule hrest hinv
        have hloop := @hnext [] _ _ _ hs₁ hgoes
        rw [List.append_nil, List.append_nil] at hloop
        refine ⟨fun e he => herr' e (hloop ▸ he), fun ended s' hs => ?_⟩
        obtain ⟨hend, acts, hacts, hmore⟩ := hok' ended s' (hloop ▸ hs)
        exact ⟨hend, acts, hacts, fun hended more => (hnext hs₁ hgoes).trans (hmore hended more)⟩
      · obtain ⟨status, hstatus⟩ := not_forall.1 hgoes
        obtain rfl := not_not.1 hstatus
        have hloop : loop kernel actions s (env :: rounds) = .ok (true, s₁) := by
          unfold loop
          rw [hs₁]
          rfl
        refine ⟨fun e he => (by cases hloop.symm.trans he), fun ended s' hs => ?_⟩
        cases hloop.symm.trans hs
        exact ⟨fun _ => hexit status rfl, actions', hinv, fun hended => (by cases hended)⟩

/-- A poll that asks for nothing is over. -/
theorem poll_quiet {kernel : Kernel} {env : ε} {actions : List (Action ε σ)} {s : σ} (h : ∀ a ∈ actions, a.events env s = false) :
    poll kernel env actions s = .ok (.exit 0, actions, s) := by
  have hany : (asking env actions s).any (·.2) = false := by
    rw [List.any_eq_false]
    intro x hx
    obtain ⟨a, ha, rfl⟩ := List.mem_map.1 hx
    rw [h a ha]
    exact Bool.false_ne_true
  unfold poll
  rw [hany]
  rfl

/-- A poller that would ask for nothing has come to its end. -/
theorem Closing.loop_quiet {kernel : ε → Kernel} {added actions : List (Action ε σ)} {env : ε} {s : σ} (h : Closing added actions s)
    (hadded : ∀ a ∈ added, a.active = true) (hquiet : ∀ a ∈ added, a.events env s = false) :
    loop kernel actions s [env] = .ok (true, s) := by
  unfold loop
  rw [poll_quiet fun a ha => ?_]
  · rfl
  obtain ⟨n, hn⟩ := List.getElem?_of_mem ha
  obtain ⟨b, hb, hspent⟩ := h.get hn
  rw [hspent.events (hadded b (List.mem_of_getElem? hb)) env]
  exact hquiet b (List.mem_of_getElem? hb)

end Poller

end AbcMahimahi
