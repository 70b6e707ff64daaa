/-
`ChildProcess` (child_process.cc) and the signals of `EventLoop` (event_loop.cc). A child carries
the change of state that the kernel has not reported yet; a SIGCHLD may stand for any number of
them. The flag of a moved-from object is left out: no managed child has it.
-/
import AbcMahimahi.Lib.Run
import AbcMahimahi.Util.Fault

namespace AbcMahimahi

open Bytes

/-! ## Children -/

/-- What `waitid` reports of a child, with its `si_status`. -/
inductive Change where
  | exited (status : Int)
  | killed (signal : Int)
  | dumped (signal : Int)
  | stopped
  | continued
  deriving DecidableEq

/-- The process has come to its end. -/
def Change.ends : Change → Bool
  | .exited _ | .killed _ | .dumped _ => true
  | .stopped | .continued => false

structure ChildProcess where
  name : Bytes
  pid : Nat
  running : Bool := true
  terminated : Bool := false
  exitStatus : Int := 0
  diedOnSignal : Bool := false
  /-- The change of state that the kernel has still to report. -/
  pending : Option Change := none
  deriving DecidableEq

inductive Signal where
  | cont
  | chld
  | hup
  | term
  | quit
  | int
  | stop
  | other (signo : Nat)
  deriving DecidableEq

/-- What a handler does to processes. -/
inductive Effect where
  | kill (pid : Nat) (sig : Signal)
  | raise (sig : Signal)
  deriving DecidableEq

namespace ChildProcess

/-- `waitable`; `waitid` is asked not to wait and to leave the report there. -/
def waitable (p : ChildProcess) : Except Fault Bool := do
  check "!terminated_" !p.terminated
  pure p.pending.isSome

/-- What `wait` notes of a change of state. -/
def note (p : ChildProcess) : Change → ChildProcess
  | .exited status => { p with terminated := true, exitStatus := status }
  | .killed signal | .dumped signal => { p with terminated := true, exitStatus := signal, diedOnSignal := true }
  | .stopped => { p with running := false }
  | .continued => { p with running := true }

/-- `wait( true )`. -/
def wait (p : ChildProcess) : Except Fault ChildProcess := do
  check "!terminated_" !p.terminated
  match p.pending with
  | none => throw (.runtimeError (ascii "nonblocking wait: process was not waitable"))
  | some c => pure ({ p with pending := none }.note c)

/-- `signal`. -/
def signal (p : ChildProcess) (sig : Signal) : List Effect := if !p.terminated then [.kill p.pid sig] else []

/-- `resume`: if the child was suspended, resume it. -/
def resume (p : ChildProcess) : List Effect := if !p.running then p.signal .cont else []

/-- What `throw_exception` throws. -/
def exception (p : ChildProcess) : Fault :=
  .runtimeError (ascii "`" ++ p.name ++ ascii "': process " ++
    (if p.diedOnSignal then ascii "died on signal " else ascii "exited with failure status ") ++
    ascii (toString p.exitStatus))

end ChildProcess

/-! ## The signal handler -/

namespace EventLoop

/-- `Poller::Action::Result::Type`. -/
inductive ResultType where
  | cont
  | exit
  | cancel
  deriving DecidableEq

/-- A managed child, and the exit status with which the parent goes on (`-1` for none). -/
abbrev Managed : Type := Int × ChildProcess

/-- The loop over the children for a SIGCHLD: those it has seen, and those it has still to see. -/
def searchChildren (seen : List Managed) : List Managed → Except Fault (ResultType × List Effect × List Managed)
  | [] => pure (.cont, [], seen)
  | (status, proc) :: rest => do
    let skip ← (if proc.terminated then pure true else do pure !(← proc.waitable))
    if skip then searchChildren (seen ++ [(status, proc)]) rest
    else
      let proc ← proc.wait
      if proc.terminated then
        if proc.exitStatus ≠ 0 ∧ proc.exitStatus ≠ status then throw proc.exception
        else
          let children := seen ++ (status, proc) :: rest
          -- quit if all children have quit
          if children.all (·.2.terminated) then pure (.exit, [], children)
          else pure (if proc.exitStatus = status then .cont else .exit, [], children)
      else do
        let (result, effects, children) ← searchChildren (seen ++ [(status, proc)]) rest
        -- a child that has stopped suspends the parent too
        pure (result, if !proc.running then .raise .stop :: effects else effects, children)

/-- `handle_signal`. -/
def handleSignal (children : List Managed) : Signal → Except Fault (ResultType × List Effect × List Managed)
  | .cont => pure (.cont, children.flatMap (·.2.resume), children)
  | .chld =>
    if children.isEmpty then throw (.runtimeError (ascii "received SIGCHLD without any managed children"))
    else searchChildren [] children
  | .hup | .term | .quit | .int => pure (.exit, [], children)
  | .stop | .other _ => throw (.runtimeError (ascii "EventLoop: unknown signal"))

/-! ## Finished children -/

end EventLoop

namespace ChildProcess

/-- The child has ended and has not been waited for. -/
def finished (p : ChildProcess) : Bool := !p.terminated && p.pending.any Change.ends

/-- What the loop makes of a child that has not just ended. -/
def caughtUp (p : ChildProcess) : ChildProcess :=
  match p.terminated, p.pending with
  | false, some .stopped => { p with pending := none, running := false }
  | false, some .continued => { p with pending := none, running := true }
  | _, _ => p

/-- What the loop makes of a child that has just ended. -/
def ended (p : ChildProcess) : ChildProcess :=
  match p.pending with
  | some c => { p with pending := none }.note c
  | none => p

theorem caughtUp_terminated (p : ChildProcess) : p.caughtUp.terminated = p.terminated := by
  unfold caughtUp
  split <;> rfl

theorem caughtUp_finished {p : ChildProcess} (h : p.finished = false) : p.caughtUp.finished = false := by
  unfold caughtUp
  split
  · simp [finished]
  · simp [finished]
  · exact h

theorem pending_of_finished {p : ChildProcess} (h : p.finished = true) :
    p.terminated = false ∧ ∃ c, p.pending = some c ∧ c.ends = true := by
  unfold finished at h
  rw [Bool.and_eq_true, Option.any_eq_true] at h
  exact ⟨by simpa using h.1, h.2⟩

theorem ended_terminated {p : ChildProcess} (h : p.finished = true) : p.ended.terminated = true := by
  obtain ⟨-, c, hc, hends⟩ := pending_of_finished h
  unfold ended
  rw [hc]
  cases c with
  | exited status => rfl
  | killed signal => rfl
  | dumped signal => rfl
  | stopped => cases hends
  | continued => cases hends

theorem finished_of_terminated {p : ChildProcess} (h : p.terminated = true) : p.finished = false := by
  simp [finished, h]

end ChildProcess

namespace EventLoop

/-- A child that the loop passes. -/
def pass (c : Managed) : Managed := (c.1, c.2.caughtUp)

/-- What passing a child does to the parent. -/
def passing (c : Managed) : List Effect :=
  if !c.2.terminated ∧ c.2.pending = some .stopped then [.raise .stop] else []

/-- The loop passes a child that has not just ended. -/
theorem searchChildren_pass {c : Managed} (h : c.2.finished = false) (seen rest : List Managed) :
    searchChildren seen (c :: rest) =
      (fun r => (r.1, passing c ++ r.2.1, r.2.2)) <$> searchChildren (seen ++ [pass c]) rest := by
  obtain ⟨status, proc⟩ := c
  rw [searchChildren]
  by_cases hterm : proc.terminated = true
  · have hsame : proc.caughtUp = proc := by simp [ChildProcess.caughtUp, hterm]
    simp only [hterm, if_true, Run.pure_ok, Run.ok_bind, pass, passing, hsame, Bool.not_true, Bool.false_eq_true,
      false_and, if_false, List.nil_append]
    cases searchChildren (seen ++ [(status, proc)]) rest <;> rfl
  · rw [Bool.not_eq_true] at hterm
    cases hpending : proc.pending with
    | none =>
      have hsame : proc.caughtUp = proc := by simp [ChildProcess.caughtUp, hpending]
      simp only [ChildProcess.waitable, hterm, hpending, pass, passing, hsame]
      cases searchChildren (seen ++ [(status, proc)]) rest <;> rfl
    | some c =>
      have hends : c.ends = false := by simpa [ChildProcess.finished, hterm, hpending] using h
      cases c with
      | exited status => cases hends
      | killed signal => cases hends
      | dumped signal => cases hends
      | stopped => 
        simp only [ChildProcess.waitable, ChildProcess.wait, ChildProcess.note, ChildProcess.caughtUp, hterm, hpending, pass, passing]
        cases searchChildren (seen ++ [(status, { proc with pending := none, running := false })]) rest <;> rfl
      | continued =>
        simp only [ChildProcess.waitable, ChildProcess.wait, ChildProcess.note, ChildProcess.caughtUp, hterm, hpending, pass, passing]
        cases searchChildren (seen ++ [(status, { proc with pending := none, running := true })]) rest <;> rfl

theorem searchChildren_passes : ∀ (before seen rest : List Managed), (∀ c ∈ before, c.2.finished = false) →
    searchChildren seen (before ++ rest) =
      (fun r => (r.1, before.flatMap passing ++ r.2.1, r.2.2)) <$> searchChildren (seen ++ before.map pass) rest
  | [], seen, rest, _ => by
    rw [List.nil_append, List.map_nil, List.append_nil]
    cases searchChildren seen rest <;> rfl
  | c :: before, seen, rest, h => by
    rw [List.cons_append, searchChildren_pass (h c (List.mem_cons_self ..)),
      searchChildren_passes before _ rest fun d hd => h d (List.mem_cons_of_mem _ hd), List.map_cons, List.flatMap_cons,
      ← List.append_cons]
    cases searchChildren (seen ++ pass c :: before.map pass) rest with
    | error e => rfl
    | ok r => simp only [Run.map_ok, List.append_assoc]

/-- The exit status of the child is neither zero nor the one with which the parent goes on. -/
def Failed (c : Managed) : Prop := c.2.ended.exitStatus ≠ 0 ∧ c.2.ended.exitStatus ≠ c.1

instance (c : Managed) : Decidable (Failed c) := inferInstanceAs (Decidable (_ ∧ _))

/-- The parent goes on after the child has ended. -/
def GoesOn (c : Managed) : Prop := c.2.ended.exitStatus = c.1

instance (c : Managed) : Decidable (GoesOn c) := inferInstanceAs (Decidable (_ = _))

def waitedFor (c : Managed) : Managed := (c.1, c.2.ended)

/-- At the first child that has ended the loop is over. -/
theorem searchChildren_end {c : Managed} (h : c.2.finished = true) (seen rest : List Managed) :
    searchChildren seen (c :: rest) =
      if Failed c then .error c.2.ended.exception
      else .ok (if (seen ++ waitedFor c :: rest).all (·.2.terminated) ∨ ¬ GoesOn c then .exit else .cont, [],
        seen ++ waitedFor c :: rest) := by
  obtain ⟨status, proc⟩ := c
  have hterm : proc.terminated = false := (ChildProcess.pending_of_finished h).1
  obtain ⟨c, hpending, -⟩ : ∃ c, proc.pending = some c ∧ c.ends = true := (ChildProcess.pending_of_finished h).2
  have hwait : proc.wait = .ok proc.ended := by
    simp only [ChildProcess.wait, ChildProcess.ended, hterm, hpending]
    rfl
  rw [searchChildren, hterm, if_neg Bool.false_ne_true]
  simp only [ChildProcess.waitable, hterm, hpending, Bool.not_false, check_true, Run.ok_bind, Run.pure_ok,
    Option.isSome_some, Bool.not_true, Bool.false_eq_true, if_false, hwait, Run.throw_error]
  rw [if_pos (ChildProcess.ended_terminated h)]
  by_cases hfailed : Failed (status, proc)
  · rw [if_pos hfailed, if_pos (show proc.ended.exitStatus ≠ 0 ∧ proc.ended.exitStatus ≠ status from hfailed)]
  · rw [if_neg hfailed, if_neg (show ¬(proc.ended.exitStatus ≠ 0 ∧ proc.ended.exitStatus ≠ status) from hfailed)]
    unfold GoesOn waitedFor
    by_cases hall : (seen ++ (status, proc.ended) :: rest).all (·.2.terminated) = true
    · rw [if_pos hall, if_pos (Or.inl hall)]
    · rw [if_neg hall]
      by_cases hgoes : proc.ended.exitStatus = status
      · rw [if_pos hgoes, if_neg (not_or.2 ⟨hall, not_not.2 hgoes⟩)]
      · rw [if_neg hgoes, if_pos (Or.inr hgoes)]

/-! ## Who is noticed -/

/-- The first of the children that have ended lets the parent go on, and it is not the only one. -/
def Overlooks (children : List Managed) : Prop :=
  ∃ c other rest, children.filter (·.2.finished) = c :: other :: rest ∧ GoesOn c

/-- The exit status does not make the parent fail. -/
def Acceptable (c : Managed) : Prop := ¬ Failed c

/-- When the handler goes on after a SIGCHLD every child that has ended has been waited for; and once
they all have ended, as they should, it leaves. -/
structure Notices (children : List Managed) : Prop where
  noneLeft : ∀ effects children', handleSignal children .chld = .ok (.cont, effects, children') →
    ∀ c ∈ children', c.2.finished = false
  last : (∀ c ∈ children, c.2.terminated = true ∨ c.2.finished = true ∧ Acceptable c) →
    (∃ c ∈ children, c.2.finished = true) →
    ∃ effects children', handleSignal children .chld = .ok (.exit, effects, children')

/-- The first child that has ended, with those before and after it. -/
theorem none_or_first (children : List Managed) : (∀ c ∈ children, c.2.finished = false) ∨
    ∃ before c rest, children = before ++ c :: rest ∧ (∀ d ∈ before, d.2.finished = false) ∧ c.2.finished = true := by
  cases hfilter : children.filter (·.2.finished) with
  | nil => exact Or.inl (by simpa using hfilter)
  | cons c others =>
    obtain ⟨before, rest, rfl, hbefore, hc, -⟩ := List.filter_eq_cons_iff.1 hfilter
    exact Or.inr ⟨before, c, rest, rfl, by simpa using hbefore, hc⟩

theorem finished_pass {before : List Managed} (h : ∀ c ∈ before, c.2.finished = false) :
    ∀ c ∈ before.map pass, c.2.finished = false := by
  intro c hc
  obtain ⟨d, hd, rfl⟩ := List.mem_map.1 hc
  exact ChildProcess.caughtUp_finished (h d hd)

theorem all_pass (before : List Managed) :
    (before.map pass).all (·.2.terminated) = before.all (·.2.terminated) := by
  rw [List.all_map]
  exact congrArg (fun f => before.all f) (funext fun c => c.2.caughtUp_terminated)

/-- The handler when no child has ended. -/
theorem handleSignal_none {children : List Managed} (hne : children ≠ []) (h : ∀ c ∈ children, c.2.finished = false) :
    handleSignal children .chld = .ok (.cont, children.flatMap passing, children.map pass) := by
  unfold handleSignal
  dsimp only
  rw [if_neg (by simpa using hne)]
  have hpass := searchChildren_passes children [] [] h
  rw [List.append_nil, List.nil_append] at hpass
  rw [hpass]
  unfold searchChildren
  rw [Run.pure_ok, Run.map_ok, List.append_nil]

/-- The handler when `c` is the first child that has ended. -/
theorem handleSignal_end {before rest : List Managed} {c : Managed} (h : ∀ d ∈ before, d.2.finished = false)
    (hc : c.2.finished = true) :
    handleSignal (before ++ c :: rest) .chld =
      if Failed c then .error c.2.ended.exception
      else .ok (if (before ++ waitedFor c :: rest).all (·.2.terminated) ∨ ¬ GoesOn c then .exit else .cont,
        before.flatMap passing, before.map pass ++ waitedFor c :: rest) := by
  unfold handleSignal
  dsimp only
  rw [if_neg (by simp), searchChildren_passes before [] _ h, List.nil_append, searchChildren_end hc,
    List.all_append, List.all_append, all_pass]
  by_cases hfailed : Failed c
  · rw [if_pos hfailed, if_pos hfailed]
    rfl
  · rw [if_neg hfailed, if_neg hfailed, Run.map_ok, List.append_nil]

theorem overlooks_end {before rest : List Managed} {c : Managed} (h : ∀ d ∈ before, d.2.finished = false)
    (hc : c.2.finished = true) : Overlooks (before ++ c :: rest) ↔ GoesOn c ∧ ∃ d ∈ rest, d.2.finished = true := by
  have hnil : before.filter (·.2.finished) = [] := by simpa using h
  have hfilter : (before ++ c :: rest).filter (·.2.finished) = c :: rest.filter (·.2.finished) := by
    rw [List.filter_append, hnil, List.nil_append]
    exact List.filter_cons_of_pos hc
  unfold Overlooks
  rw [hfilter]
  constructor
  · rintro ⟨c', other, others, heq, hgoes⟩
    obtain ⟨rfl, hrest⟩ := List.cons.inj heq
    have hother : other ∈ rest.filter (·.2.finished) := by
      rw [hrest]
      exact List.mem_cons_self ..
    exact ⟨hgoes, other, List.mem_filter.1 hother⟩
  · rintro ⟨hgoes, d, hd⟩
    have hmem : d ∈ rest.filter (·.2.finished) := List.mem_filter.2 hd
    obtain ⟨other, others, hrest⟩ := List.exists_cons_of_ne_nil (List.ne_nil_of_mem hmem)
    exact ⟨c, other, others, by rw [hrest], hgoes⟩

/-- With no child that has ended there is nothing to overlook. -/
theorem notices_none {children : List Managed} (h : ∀ c ∈ children, c.2.finished = false) : Notices children := by
  constructor
  · intro effects children' hret
    by_cases hne : children = []
    · subst hne
      cases hret
    · rw [handleSignal_none hne h] at hret
      cases hret
      exact finished_pass h
  · rintro - ⟨c, hc, hfinished⟩
    rw [h c hc] at hfinished
    cases hfinished

/-- A child that has ended is waited for, and so are the others if there are none. -/
theorem notices_end {before rest : List Managed} {c : Managed} (h : ∀ d ∈ before, d.2.finished = false)
    (hc : c.2.finished = true) (hover : ¬ Overlooks (before ++ c :: rest)) : Notices (before ++ c :: rest) := by
  rw [overlooks_end h hc, not_and] at hover
  have halone : GoesOn c → ∀ d ∈ rest, d.2.finished = false := by
    intro hgoes d hd
    by_contra hfinished
    exact hover hgoes ⟨d, hd, by simpa using hfinished⟩
  have hwaited : (waitedFor c).2.terminated = true := ChildProcess.ended_terminated hc
  constructor
  · intro effects children' hret d hd
    rw [handleSignal_end h hc] at hret
    by_cases hfailed : Failed c
    · rw [if_pos hfailed] at hret
      cases hret
    · rw [if_neg hfailed] at hret
      by_cases hexit : (before ++ waitedFor c :: rest).all (·.2.terminated) ∨ ¬ GoesOn c
      · rw [if_pos hexit] at hret
        cases hret
      · rw [if_neg hexit] at hret
        cases hret
        rcases List.mem_append.1 hd with hd | hd
        · exact finished_pass h d hd
        · rcases List.mem_cons.1 hd with rfl | hd
          · exact ChildProcess.finished_of_terminated hwaited
          · exact halone (not_not.1 (not_or.1 hexit).2) d hd
  · intro hend _
    have hnot : ∀ d ∈ before ++ c :: rest, d.2.finished = false → d.2.terminated = true := by
      intro d hd hunfinished
      rcases hend d hd with hterm | hfinished
      · exact hterm
      · rw [hunfinished] at hfinished
        cases hfinished.1
    have hgood : ¬ Failed c := by
      rcases hend c (by simp) with hterm | hfinished
      · rw [ChildProcess.finished_of_terminated hterm] at hc
        cases hc
      · exact hfinished.2
    refine ⟨before.flatMap passing, before.map pass ++ waitedFor c :: rest, ?_⟩
    rw [handleSignal_end h hc, if_neg hgood, if_pos]
    by_contra hexit
    obtain ⟨hall, hgoes⟩ := not_or.1 hexit
    refine hall (List.all_eq_true.2 fun d hd => ?_)
    rcases List.mem_append.1 hd with hd | hd
    · exact hnot d (by simp [hd]) (h d hd)
    · rcases List.mem_cons.1 hd with rfl | hd
      · exact hwaited
      · exact hnot d (by simp [hd]) (halone (not_not.1 hgoes) d hd)

theorem notices_of_not_overlooks {children : List Managed} (h : ¬ Overlooks children) : Notices children := by
  rcases none_or_first children with hnone | ⟨before, c, rest, rfl, hbefore, hc⟩
  · exact notices_none hnone
  · exact notices_end hbefore hc h

/-- The handler notices every child that has ended exactly when there is at most one, or the first of
them does not let the parent go on. -/
theorem notices_iff (children : List Managed) : Notices children ↔ ¬ Overlooks children := by
  rcases none_or_first children with hnone | ⟨before, c, rest, rfl, hbefore, hc⟩
  · refine ⟨fun _ => ?_, notices_of_not_overlooks⟩
    rintro ⟨c, other, rest, h, -⟩
    have hmem : c ∈ children.filter (·.2.finished) := by
      rw [h]
      exact List.mem_cons_self ..
    obtain ⟨hc, hfinished⟩ := List.mem_filter.1 hmem
    rw [hnone c hc] at hfinished
    cases hfinished
  · refine ⟨fun hnotices hover => ?_, notices_of_not_overlooks⟩
    obtain ⟨hgoes, other, hother, hfinished⟩ := (overlooks_end hbefore hc).1 hover
    -- the other child is still to be waited for, so they have not all terminated
    have hall : ¬ (before ++ waitedFor c :: rest).all (·.2.terminated) = true := by
      intro hall
      have hterm := List.all_eq_true.1 hall other (by simp [hother])
      rw [ChildProcess.finished_of_terminated hterm] at hfinished
      cases hfinished
    have hret : handleSignal (before ++ c :: rest) .chld = _ := handleSignal_end hbefore hc
    rw [if_neg (fun hfailed => hfailed.2 hgoes), if_neg (not_or.2 ⟨hall, not_not.2 hgoes⟩)] at hret
    have hleft := hnotices.noneLeft _ _ hret other (by simp [hother])
    rw [hleft] at hfinished
    cases hfinished

/-- The packet shell's own children, both gone with the status of a ferry that has finished. -/
def ferries : List Managed :=
  [(77, { name := ascii "packetshell", pid := 101, pending := some (.exited 77) }),
   (77, { name := ascii "downlink", pid := 102, pending := some (.exited 77) })]

/-- One SIGCHLD for both: the second is still to be waited for when the handler goes on, and no signal
will come for it any more. -/
theorem ferries_overlooked :
    handleSignal ferries .chld = .ok (.cont, [],
      [(77, { name := ascii "packetshell", pid := 101, terminated := true, exitStatus := 77 }),
       (77, { name := ascii "downlink", pid := 102, pending := some (.exited 77) })]) ∧ ¬ Notices ferries := by
  refine ⟨by rfl, fun h => ?_⟩
  have hleft := h.noneLeft [] _ (by rfl) (77, { name := ascii "downlink", pid := 102, pending := some (.exited 77) })
    (by decide)
  cases hleft

/-! ## Runs -/

/-- The managed children, and whether a SIGCHLD is there to be read. -/
structure Loop where
  children : List Managed
  signalled : Bool
  deriving DecidableEq

/-- A child changes its state, or the loop reads a SIGCHLD. -/
inductive Event where
  | change (i : Nat) (c : Change)
  | chld

/-- A process that has not come to its end changes its state. -/
def become (c : Change) (child : Managed) : Managed :=
  if child.2.terminated ∨ child.2.finished then child else (child.1, { child.2 with pending := some c })

/-- A change of state sends a SIGCHLD, or is covered by the one that is there already. -/
def Loop.step (l : Loop) : Event → Except Fault (ResultType × Loop)
  | .change i c => pure (.cont, ⟨l.children.modify i (become c), true⟩)
  | .chld =>
    if l.signalled then do
      let (result, _, children) ← handleSignal l.children .chld
      pure (result, ⟨children, false⟩)
    else pure (.cont, l)

/-- The handler does not go on because of one of several children that have ended. -/
def Attentive (l : Loop) : Event → Prop
  | .change _ _ => True
  | .chld => ¬ Overlooks l.children

/-- While the loop goes on, a child is still to be waited for only if a SIGCHLD is there, and the
children have not all been waited for. -/
structure Watching (l : Loop) : Prop where
  noticed : l.signalled = false → ∀ c ∈ l.children, c.2.finished = false
  alive : ∃ c ∈ l.children, c.2.terminated = false

theorem become_terminated (c : Change) (child : Managed) : (become c child).2.terminated = child.2.terminated := by
  unfold become
  split <;> rfl

/-- When the handler goes on, not every child has terminated. -/
theorem handleSignal_alive {children children' : List Managed} {effects : List Effect}
    (halive : ∃ c ∈ children, c.2.terminated = false)
    (h : handleSignal children .chld = .ok (.cont, effects, children')) : ∃ c ∈ children', c.2.terminated = false := by
  have hpass : ∀ {l : List Managed}, (∃ c ∈ l, c.2.terminated = false) → ∃ c ∈ l.map pass, c.2.terminated = false := by
    rintro l ⟨c, hc, hterm⟩
    exact ⟨pass c, List.mem_map_of_mem hc, by rw [← hterm]; exact c.2.caughtUp_terminated⟩
  rcases none_or_first children with hnone | ⟨before, c, rest, rfl, hbefore, hc⟩
  · have hne : children ≠ [] := by
      rintro rfl
      cases h
    rw [handleSignal_none hne hnone] at h
    cases h
    exact hpass halive
  · rw [handleSignal_end hbefore hc] at h
    by_cases hfailed : Failed c
    · rw [if_pos hfailed] at h
      cases h
    · rw [if_neg hfailed] at h
      by_cases hexit : (before ++ waitedFor c :: rest).all (·.2.terminated) ∨ ¬ GoesOn c
      · rw [if_pos hexit] at h
        cases h
      · rw [if_neg hexit] at h
        cases h
        have hall := (not_or.1 hexit).1
        rw [List.all_eq_true] at hall
        push Not at hall
        obtain ⟨d, hd, hterm⟩ := hall
        rw [ne_eq, Bool.not_eq_true] at hterm
        rcases List.mem_append.1 hd with hd | hd
        · obtain ⟨d', hd', hterm'⟩ := hpass ⟨d, hd, hterm⟩
          exact ⟨d', List.mem_append_left _ hd', hterm'⟩
        · exact ⟨d, List.mem_append_right _ hd, hterm⟩

theorem Watching.step {l l' : Loop} {e : Event} (h : Watching l) (he : Attentive l e)
    (hs : l.step e = .ok (.cont, l')) : Watching l' := by
  cases e with
  | change i c =>
    cases hs
    refine ⟨fun hquiet => (by cases hquiet), ?_⟩
    obtain ⟨d, hd, hterm⟩ := h.alive
    obtain ⟨j, hj, rfl⟩ := List.mem_iff_getElem.1 hd
    refine ⟨_, List.getElem_mem (by rwa [List.length_modify]), ?_⟩
    rw [List.getElem_modify]
    split
    · rw [become_terminated]
      exact hterm
    · exact hterm
  | chld =>
    unfold Loop.step at hs
    dsimp only at hs
    by_cases hsignal : l.signalled = true
    · rw [if_pos hsignal] at hs
      obtain ⟨⟨result, effects, children'⟩, hret, hs⟩ := Run.bind_ok hs
      cases hs
      exact ⟨fun _ => (notices_of_not_overlooks he).noneLeft _ _ hret, handleSignal_alive h.alive hret⟩
    · rw [if_neg hsignal] at hs
      cases hs
      exact h

theorem Watching.steps : ∀ {events : List Event} {l l' : Loop} {results : List ResultType}, Watching l →
    Run.Along Loop.step Attentive l events → Run.steps Loop.step l events = .ok (results, l') →
    (∀ r ∈ results, r = .cont) → Watching l'
  | [], _, _, _, h, _, hrun, _ => by
    cases hrun
    exact h
  | e :: events, l, l', results, h, hattentive, hrun, hcont => by
    obtain ⟨result, l₁, results', hs, hrest, rfl⟩ := Run.steps_cons_ok hrun
    obtain rfl := hcont result (List.mem_cons_self ..)
    exact (h.step hattentive.1 hs).steps (hattentive.2 _ _ hs) hrest fun r hr => hcont r (List.mem_cons_of_mem _ hr)

/-- The parent does not hang: as long as it goes on with no SIGCHLD to read, one of its children has not
come to its end. -/
theorem no_hang {children : List Managed} {events : List Event} {results : List ResultType} {l : Loop}
    (hne : children ≠ []) (halive : ∀ c ∈ children, c.2.terminated = false ∧ c.2.pending = none)
    (hattentive : Run.Along Loop.step Attentive ⟨children, false⟩ events)
    (hrun : Run.steps Loop.step ⟨children, false⟩ events = .ok (results, l)) (hcont : ∀ r ∈ results, r = .cont)
    (hquiet : l.signalled = false) : ∃ c ∈ l.children, c.2.terminated = false ∧ c.2.finished = false := by
  have hstart : Watching ⟨children, false⟩ := by
    obtain ⟨c, rest, rfl⟩ := List.exists_cons_of_ne_nil hne
    refine ⟨fun _ d hd => ?_, c, List.mem_cons_self .., (halive c (List.mem_cons_self ..)).1⟩
    simp [ChildProcess.finished, (halive d hd).2]
  have hend := hstart.steps hattentive hrun hcont
  obtain ⟨c, hc, hterm⟩ := hend.alive
  exact ⟨c, hc, hterm, hend.noticed hquiet c hc⟩

end EventLoop

end AbcMahimahi
