/-
The socket the two congestion modules run on: the fields of `struct sock`,
`inet_connection_sock` and `tcp_sock` that tcp_abc.c or tcp_abccubic.c reads or writes, and the
code the two files share word for word: `struct abc` (repeated inside `struct bictcp`), the
receiver's CE state machine and the window arithmetic of `abc_in_ack`.
-/
import Mathlib.Tactic

namespace AbcMahimahi.Tcp

/-- `enum tcp_ca_event`. -/
inductive CaEvent where
  | txStart
  | cwndRestart
  | completeCwr
  | loss
  | ecnNoCe
  | ecnIsCe
  | delayedAck
  | nonDelayedAck
  deriving DecidableEq, Repr

/-- The values of `sk_state` that matter here. -/
inductive SkState where
  | listen
  | close
  | other
  deriving DecidableEq, Repr

/-- `sk_pacing_status`. -/
inductive Pacing where
  | none
  | needed
  | fq
  deriving DecidableEq, Repr

/-- `icsk_ca_ops`: the module's own table, or `abc_reno`. -/
inductive CaOps where
  | module
  | abcReno
  deriving DecidableEq, Repr

def tcpEcnOk : UInt8 := 1
def tcpEcnDemandCwr : UInt8 := 4
def caAckWinUpdate : UInt32 := 2
def caAckEce : UInt32 := 4
def tcpInfiniteSsthresh : UInt32 := 0x7fffffff

/-- `struct abc`. -/
structure Abc where
  priorSndUna : UInt32
  priorRcvNxt : UInt32
  ceState : UInt32
  delayedAckReserved : UInt32
  lossCwnd : UInt32
  aiCwnd : UInt32
  deriving DecidableEq, Repr, Inhabited

/-- A socket whose congestion module keeps the state `ca` (`inet_csk_ca`); `acks` are the ACKs
handed to the network by `tcp_send_ack`, as `(ack number, ECE)`. -/
structure Sock (CA : Type) where
  ca : CA
  caOps : CaOps
  skState : SkState
  pacingStatus : Pacing
  pacingRate : UInt32
  ecnXmit : Bool
  ecnFlags : UInt8
  rcvMss : UInt16
  rcvNxt : UInt32
  sndUna : UInt32
  sndNxt : UInt32
  sndCwnd : UInt32
  sndCwndCnt : UInt32
  sndCwndClamp : UInt32
  sndSsthresh : UInt32
  maxPacketsOut : UInt32
  packetsInFlight : UInt32
  isCwndLimited : Bool
  lsndtime : UInt32
  acks : List (UInt32 × Bool)

/-- An idle ECN-capable connection with window `cwnd`, before the module's init. -/
def Sock.established {CA : Type} (ca : CA) (cwnd : UInt32) : Sock CA where
  ca := ca
  caOps := .module
  skState := .other
  pacingStatus := .none
  pacingRate := 0
  ecnXmit := true
  ecnFlags := tcpEcnOk
  rcvMss := 1448
  rcvNxt := 0
  sndUna := 0
  sndNxt := 0
  sndCwnd := cwnd
  sndCwndCnt := 0
  sndCwndClamp := 0xffffffff
  sndSsthresh := tcpInfiniteSsthresh
  maxPacketsOut := 0
  packetsInFlight := 0
  isCwndLimited := false
  lsndtime := 0
  acks := []

/-- A module's private state that holds the fields of `struct abc`. -/
class AbcFields (CA : Type) where
  abc : CA → Abc
  setAbc : CA → Abc → CA
  abc_setAbc : ∀ c a, abc (setAbc c a) = a

instance : AbcFields Abc := ⟨id, fun _ a => a, fun _ _ => rfl⟩

namespace Sock

variable {CA : Type} [AbcFields CA]

/-- The fields of `struct abc` in the module's state. -/
def abc (s : Sock CA) : Abc := AbcFields.abc s.ca

def setAbc (s : Sock CA) (a : Abc) : Sock CA := { s with ca := AbcFields.setAbc s.ca a }

@[simp] theorem abc_ca (s : Sock CA) : AbcFields.abc s.ca = s.abc := rfl

@[simp] theorem abc_mk (ca : CA) (co sk ps pr ex ef rm rn su sn sc cc cl st mp pf lim ls acks) :
    Sock.abc ⟨ca, co, sk, ps, pr, ex, ef, rm, rn, su, sn, sc, cc, cl, st, mp, pf, lim, ls, acks⟩ = AbcFields.abc ca :=
  rfl

@[simp] theorem abc_setAbc (s : Sock CA) (a : Abc) : (s.setAbc a).abc = a := AbcFields.abc_setAbc _ _
@[simp] theorem rcvNxt_setAbc (s : Sock CA) (a : Abc) : (s.setAbc a).rcvNxt = s.rcvNxt := rfl
@[simp] theorem ecnFlags_setAbc (s : Sock CA) (a : Abc) : (s.setAbc a).ecnFlags = s.ecnFlags := rfl
@[simp] theorem acks_setAbc (s : Sock CA) (a : Abc) : (s.setAbc a).acks = s.acks := rfl

/-! ## The receiver's code -/

/-- `abc_update_ack_reserved`. -/
def abcUpdateAckReserved (s : Sock CA) (ev : CaEvent) : Sock CA :=
  match ev with
  | .delayedAck =>
    if s.abc.delayedAckReserved = 0 then s.setAbc { s.abc with delayedAckReserved := 1 } else s
  | .nonDelayedAck =>
    if s.abc.delayedAckReserved ≠ 0 then s.setAbc { s.abc with delayedAckReserved := 0 } else s
  | _ => s

/-- The ECE bit the next ACK carries. -/
def demandsCwr (s : Sock CA) : Bool := s.ecnFlags &&& tcpEcnDemandCwr != 0

/-- The kernel's `tcp_send_ack`: emit `rcv_nxt` with the ECE flag and raise
`CA_EVENT_NON_DELAYED_ACK`, which both modules hand to `abc_update_ack_reserved`. -/
def tcpSendAck (s : Sock CA) : Sock CA :=
  { s with acks := s.acks ++ [(s.rcvNxt, s.demandsCwr)] }.abcUpdateAckReserved .nonDelayedAck

/-- `abc_ce_state_0_to_1`. -/
def abcCeState0To1 (s : Sock CA) : Sock CA :=
  let s :=
    if s.abc.ceState = 0 ∧ s.abc.delayedAckReserved ≠ 0 then
      let tmpRcvNxt := s.rcvNxt
      -- generate the previous ACK with CE=0
      let s := { s with ecnFlags := s.ecnFlags &&& ~~~tcpEcnDemandCwr, rcvNxt := s.abc.priorRcvNxt }
      let s := s.tcpSendAck
      { s with rcvNxt := tmpRcvNxt }
    else s
  let s := s.setAbc { s.abc with priorRcvNxt := s.rcvNxt, ceState := 1 }
  { s with ecnFlags := s.ecnFlags ||| tcpEcnDemandCwr }

/-- `abc_ce_state_1_to_0`. -/
def abcCeState1To0 (s : Sock CA) : Sock CA :=
  let s :=
    if s.abc.ceState ≠ 0 ∧ s.abc.delayedAckReserved ≠ 0 then
      let tmpRcvNxt := s.rcvNxt
      -- generate the previous ACK with CE=1
      let s := { s with ecnFlags := s.ecnFlags ||| tcpEcnDemandCwr, rcvNxt := s.abc.priorRcvNxt }
      let s := s.tcpSendAck
      { s with rcvNxt := tmpRcvNxt }
    else s
  let s := s.setAbc { s.abc with priorRcvNxt := s.rcvNxt, ceState := 0 }
  { s with ecnFlags := s.ecnFlags &&& ~~~tcpEcnDemandCwr }

/-- `abc_cwnd_event`. -/
def abcCwndEvent (s : Sock CA) (ev : CaEvent) : Sock CA :=
  match ev with
  | .ecnIsCe => s.abcCeState0To1
  | .ecnNoCe => s.abcCeState1To0
  | .delayedAck => s.abcUpdateAckReserved ev
  | .nonDelayedAck => s.abcUpdateAckReserved ev
  | _ => s

/-- The part of `abc_init` both files share: set up `struct abc` on an ECN-capable socket, fall
back to Reno on any other. -/
def abcInit (s : Sock CA) : Sock CA :=
  if s.ecnFlags &&& tcpEcnOk ≠ 0 ∨ s.skState = .listen ∨ s.skState = .close then
    let s := s.setAbc
      { priorSndUna := s.sndUna, priorRcvNxt := s.rcvNxt, delayedAckReserved := 0,
        lossCwnd := s.sndCwnd, ceState := 0, aiCwnd := 0 }
    { s with pacingStatus := if s.pacingStatus = .none then .needed else s.pacingStatus }
  else
    { s with caOps := .abcReno, ecnXmit := false }

/-! ## The sender's code -/

/-- `acked_bytes` of `abc_in_ack`: the advance of `snd_una`, a full MSS for a duplicate, nothing
for a pure window update. -/
def ackedBytes (s : Sock CA) (flags : UInt32) : UInt32 :=
  let acked := s.sndUna - s.abc.priorSndUna
  if acked = 0 ∧ flags &&& caAckWinUpdate = 0 then s.rcvMss.toUInt32 else acked

end Sock

/-- The window arithmetic of `abc_in_ack` for one counted ACK: additive increase, then brake or
accelerate by the number of full segments acknowledged. -/
def Abc.countAck (ca : Abc) (ackedBytes : UInt32) (ece : Bool) : Abc :=
  let aiCwnd := ca.aiCwnd + 1
  let ca :=
    if aiCwnd > ca.lossCwnd then
      { ca with aiCwnd := aiCwnd - ca.lossCwnd, lossCwnd := ca.lossCwnd + 1 }
    else { ca with aiCwnd := aiCwnd }
  if ece then
    if ca.lossCwnd > 5 + ackedBytes / 1448 then { ca with lossCwnd := ca.lossCwnd - ackedBytes / 1448 } else ca
  else { ca with lossCwnd := ca.lossCwnd + ackedBytes / 1448 }

end AbcMahimahi.Tcp
