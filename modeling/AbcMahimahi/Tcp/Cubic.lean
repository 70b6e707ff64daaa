/-
tcp_abccubic.c: ABC's window next to a CUBIC window, the smaller of the two in force. The
kernel's part is a parameter: `HZ`, `msecs_to_jiffies`, and for each callback what
`tcp_jiffies32` reads (each time it is read) and what the kernel wrote into the socket since the
last one. A division by zero, an index outside `v` and a loop that never ends are faults.
-/
import Mathlib.Data.UInt
import AbcMahimahi.Lib.Run
import AbcMahimahi.Tcp.Sock

namespace AbcMahimahi.Tcp.TcpAbcCubic

/-- What stops the kernel inside a callback. -/
inductive Oops where
  | divideError
  | indexOutOfRange
  | softLockup
  deriving DecidableEq, Repr

/-- The kernel build. -/
structure Kernel where
  hz : UInt32
  hz_pos : hz ≠ 0
  msecsToJiffies : UInt32 → UInt64

/-! ## Module parameters and constants -/

def bictcpBetaScale : UInt32 := 1024
def bictcpHz : UInt64 := 10
def hystartAckTrain : UInt8 := 1
def hystartDelay : UInt8 := 2
def hystartMinSamples : UInt8 := 8
def hystartDelayMin : UInt32 := 32
def hystartDelayMax : UInt32 := 128

def fastConvergence : Bool := true
def beta : UInt32 := 717
def initialSsthresh : UInt32 := 0
def bicScale : UInt32 := 41
def tcpFriendliness : Bool := true
def hystart : Bool := true
def hystartDetect : UInt8 := hystartAckTrain ||| hystartDelay
def hystartLowWindow : UInt32 := 16
def hystartAckDelta : Int := 2

/-- Computed once by `abccubic_register`. -/
def betaScale : UInt32 := 8 * (bictcpBetaScale + beta) / 3 / (bictcpBetaScale - beta)
def cubeRttScale : UInt64 := (bicScale * 10).toUInt64
def cubeFactor : UInt64 := 2 ^ 40 / (bicScale * 10).toUInt64

/-- `struct bictcp`; the fields of `struct abc` stand at its end. -/
structure Bictcp extends Abc where
  cnt : UInt32
  lastMaxCwnd : UInt32
  lastCwnd : UInt32
  lastTime : UInt32
  bicOriginPoint : UInt32
  bicK : UInt32
  delayMin : UInt32
  epochStart : UInt32
  ackCnt : UInt32
  tcpCwnd : UInt32
  sampleCnt : UInt8
  found : UInt8
  roundStart : UInt32
  endSeq : UInt32
  lastAck : UInt32
  currRtt : UInt32
  cubicSndCwnd : UInt32
  deriving Inhabited

instance : AbcFields Bictcp := ⟨Bictcp.toAbc, fun c a => { c with toAbc := a }, fun _ _ => rfl⟩

/-- The integer division instruction. -/
def divU32 (a b : UInt32) : Except Oops UInt32 := if b = 0 then throw .divideError else pure (a / b)

/-- The kernel's `div64_u64`. -/
def div64U64 (a b : UInt64) : Except Oops UInt64 := if b = 0 then throw .divideError else pure (a / b)

/-- `(s32)x`. -/
def s32 (x : UInt32) : Int := x.toInt32.toInt

/-- The kernel's `after( seq1, seq2 )`. -/
def after (seq1 seq2 : UInt32) : Bool := s32 (seq2 - seq1) < 0

/-- The kernel's `fls64`: the number of the highest bit set, from 1, or 0. -/
def fls64 (a : UInt64) : Nat := if a = 0 then 0 else a.toNat.log2 + 1

/-! ## The cube root -/

/-- The table `v` of `cubic_root`. -/
def cbrtTable : List UInt8 :=
  [0, 54, 54, 54, 118, 118, 118, 118, 123, 129, 134, 138, 143, 147, 151, 156,
    157, 161, 164, 168, 170, 173, 176, 179, 181, 185, 187, 190, 192, 194, 197, 199,
    200, 202, 204, 206, 209, 211, 213, 215, 217, 219, 221, 222, 224, 225, 227, 229,
    231, 232, 234, 236, 237, 239, 240, 242, 244, 245, 246, 248, 250, 251, 252, 254]

/-- `v[i]`. -/
def cbrtAt (i : UInt32) : Except Oops UInt32 :=
  match cbrtTable[i.toNat]? with
  | some x => pure x.toUInt32
  | none => throw .indexOutOfRange

/-- `cubic_root`: a table lookup followed by one Newton-Raphson iteration. -/
def cubicRoot (a : UInt64) : Except Oops UInt32 := do
  if fls64 a < 7 then
    pure (((← cbrtAt a.toUInt32) + 35) >>> 6)
  else
    let b : Nat := (fls64 a * 84) / 256 - 1
    let shift := (a >>> UInt64.ofNat (b * 3)).toUInt32
    let x := (((← cbrtAt shift) + 10) <<< UInt32.ofNat b) >>> 6
    let x := 2 * x + (← div64U64 a (x.toUInt64 * (x - 1).toUInt64)).toUInt32
    pure ((x * 341) >>> 10)

/-! ## CUBIC's window -/

/-- `bictcp_reset`. -/
def bictcpReset (ca : Bictcp) : Bictcp :=
  { ca with
    cnt := 0, lastMaxCwnd := 0, lastCwnd := 0, lastTime := 0, bicOriginPoint := 0, bicK := 0,
    delayMin := 0, epochStart := 0, ackCnt := 0, tcpCwnd := 0, found := 0 }

/-- `bictcp_hystart_reset`; `clock` is what `bictcp_clock()` reads. -/
def bictcpHystartReset (s : Sock Bictcp) (clock : UInt32) : Sock Bictcp :=
  { s with ca := { s.ca with roundStart := clock, lastAck := clock, endSeq := s.sndNxt, currRtt := 0, sampleCnt := 0 } }

/-- `bictcp_init`. -/
def bictcpInit (s : Sock Bictcp) (clock : UInt32) : Sock Bictcp :=
  let s := s.abcInit
  let s := { s with ca := bictcpReset s.ca }
  let s := if hystart then bictcpHystartReset s clock else s
  let s := if !hystart ∧ initialSsthresh ≠ 0 then { s with sndSsthresh := initialSsthresh } else s
  { s with ca := { s.ca with cubicSndCwnd := 10 } }

/-- The part of `bictcp_update` that starts an epoch: `K` and the origin of the cubic. -/
def startEpoch (ca : Bictcp) (cwnd acked now : UInt32) : Except Oops Bictcp := do
  let ca := { ca with epochStart := now, ackCnt := acked, tcpCwnd := cwnd }
  if ca.lastMaxCwnd ≤ cwnd then
    pure { ca with bicK := 0, bicOriginPoint := cwnd }
  else
    pure { ca with
      bicK := ← cubicRoot (cubeFactor * (ca.lastMaxCwnd - cwnd).toUInt64)
      bicOriginPoint := ca.lastMaxCwnd }

/-- The time since the epoch began, in units of `2 ^ BICTCP_HZ` to the second. -/
def epochTime (k : Kernel) (ca : Bictcp) (now : UInt32) : UInt64 :=
  let t := (now - ca.epochStart).toInt32.toInt64.toUInt64
  let t := t + k.msecsToJiffies (ca.delayMin >>> 3)
  (t <<< bictcpHz) / k.hz.toUInt64

/-- `c/rtt * (t-K)^3` and the target it leads to. -/
def bicTarget (ca : Bictcp) (t : UInt64) : UInt32 :=
  let K := ca.bicK.toUInt64
  let offs := if t < K then K - t else t - K
  let delta := ((cubeRttScale * offs * offs * offs) >>> (10 + 3 * bictcpHz)).toUInt32
  if t < K then ca.bicOriginPoint - delta else ca.bicOriginPoint + delta

/-- The part of `bictcp_update` that computes `cnt` from the cubic function. -/
def cubicCnt (ca : Bictcp) (cwnd target : UInt32) : Except Oops Bictcp := do
  let ca := { ca with cnt := ← if target > cwnd then divU32 cwnd (target - cwnd) else pure (100 * cwnd) }
  pure (if ca.lastMaxCwnd = 0 ∧ ca.cnt > 20 then { ca with cnt := 20 } else ca)

/-- The loop that advances `tcp_cwnd`, while `ack_cnt > delta`. One turn takes `delta` off
`ack_cnt`, so running out of `ack_cnt` turns means that it never ends. -/
def tcpCwndLoop (delta : UInt32) : Nat → UInt32 → UInt32 → Except Oops (UInt32 × UInt32)
  | 0, ackCnt, tcpCwnd => if ackCnt > delta then throw .softLockup else pure (ackCnt, tcpCwnd)
  | fuel + 1, ackCnt, tcpCwnd =>
    if ackCnt > delta then tcpCwndLoop delta fuel (ackCnt - delta) (tcpCwnd + 1) else pure (ackCnt, tcpCwnd)

/-- The part of `bictcp_update` from the label `tcp_friendliness` on. -/
def friendlyCnt (ca : Bictcp) (cwnd : UInt32) : Except Oops Bictcp := do
  let ca ←
    if tcpFriendliness then do
      let delta := (cwnd * betaScale) >>> 3
      let (ackCnt, tcpCwnd) ← tcpCwndLoop delta ca.ackCnt.toNat ca.ackCnt ca.tcpCwnd
      let ca := { ca with ackCnt := ackCnt, tcpCwnd := tcpCwnd }
      if ca.tcpCwnd > cwnd then
        let maxCnt ← divU32 cwnd (ca.tcpCwnd - cwnd)
        pure (if ca.cnt > maxCnt then { ca with cnt := maxCnt } else ca)
      else pure ca
    else pure ca
  pure { ca with cnt := max ca.cnt 2 }

/-- `bictcp_update`; `j i` is what `tcp_jiffies32` reads the `i`-th time. -/
def bictcpUpdate (k : Kernel) (j : Nat → UInt32) (ca : Bictcp) (cwnd acked : UInt32) : Except Oops Bictcp := do
  let ca := { ca with ackCnt := ca.ackCnt + acked }
  if ca.lastCwnd = cwnd ∧ s32 (j 0 - ca.lastTime) ≤ k.hz.toNat / 32 then
    pure ca
  else if ca.epochStart ≠ 0 ∧ j 1 = ca.lastTime then
    friendlyCnt ca cwnd
  else
    let ca := { ca with lastCwnd := cwnd, lastTime := j 2 }
    let ca ← if ca.epochStart = 0 then startEpoch ca cwnd acked (j 3) else pure ca
    let ca ← cubicCnt ca cwnd (bicTarget ca (epochTime k ca (j 4)))
    friendlyCnt ca cwnd

/-- Credits accumulated at a higher `w`, applied gently. -/
def applyOldCredit (s : Sock Bictcp) (w : UInt32) : Sock Bictcp :=
  if s.sndCwndCnt ≥ w then
    { s with sndCwndCnt := 0, ca := { s.ca with cubicSndCwnd := s.ca.cubicSndCwnd + 1 } }
  else s

/-- One packet of window for each `w` packets of credit. -/
def takeCredit (s : Sock Bictcp) (w : UInt32) : Except Oops (Sock Bictcp) :=
  if s.sndCwndCnt ≥ w then do
    let delta ← divU32 s.sndCwndCnt w
    pure { s with
      sndCwndCnt := s.sndCwndCnt - delta * w
      ca := { s.ca with cubicSndCwnd := s.ca.cubicSndCwnd + delta } }
  else pure s

/-- `cubictcp_tcp_cong_avoid_ai`. -/
def cubictcpTcpCongAvoidAi (s : Sock Bictcp) (w acked : UInt32) : Except Oops (Sock Bictcp) := do
  let s := applyOldCredit s w
  let s ← takeCredit { s with sndCwndCnt := s.sndCwndCnt + acked } w
  pure { s with ca := { s.ca with cubicSndCwnd := min s.ca.cubicSndCwnd s.sndCwndClamp } }

/-- `cubictcp_in_slow_start`. -/
def cubictcpInSlowStart (s : Sock Bictcp) : Bool := s.ca.cubicSndCwnd < s.sndSsthresh

/-- `cubictcp_is_cwnd_limited`. -/
def cubictcpIsCwndLimited (s : Sock Bictcp) : Bool :=
  if cubictcpInSlowStart s then s.ca.cubicSndCwnd < 2 * s.maxPacketsOut else s.isCwndLimited

/-- `cubictcp_slow_start`: the packets left over and the socket. -/
def cubictcpSlowStart (s : Sock Bictcp) (acked : UInt32) : UInt32 × Sock Bictcp :=
  let cwnd := min (s.ca.cubicSndCwnd + acked) s.sndSsthresh
  (acked - (cwnd - s.ca.cubicSndCwnd), { s with ca := { s.ca with cubicSndCwnd := min cwnd s.sndCwndClamp } })

/-- Both windows capped at `2 * tcp_packets_in_flight + 5`, and the smaller one in force. -/
def capWindows (s : Sock Bictcp) : Sock Bictcp :=
  let cap := 2 * s.packetsInFlight + 5
  let ca := { s.ca with cubicSndCwnd := min s.ca.cubicSndCwnd cap, lossCwnd := min s.ca.lossCwnd cap }
  { s with ca := ca, sndCwnd := min ca.lossCwnd ca.cubicSndCwnd }

/-- The slow start of `bictcp_cong_avoid`: the packets left over and the socket. The argument `ack`
of the kernel's hook is gone, so `end_seq` is compared with zero. -/
def slowStartPhase (clock : UInt32) (s : Sock Bictcp) (acked : UInt32) : UInt32 × Sock Bictcp :=
  let ack : UInt32 := 0
  let s := if hystart ∧ after ack s.ca.endSeq then bictcpHystartReset s clock else s
  let (acked, s) := cubictcpSlowStart s acked
  (acked, { s with sndCwnd := min s.ca.lossCwnd s.ca.cubicSndCwnd })

/-- The rest of `bictcp_cong_avoid`: update, additive increase, cap. -/
def updateWindow (k : Kernel) (j : Nat → UInt32) (s : Sock Bictcp) (acked : UInt32) : Except Oops (Sock Bictcp) := do
  let ca ← bictcpUpdate k j s.ca s.ca.cubicSndCwnd acked
  let s ← cubictcpTcpCongAvoidAi { s with ca := ca } ca.cnt acked
  pure (capWindows s)

/-- `bictcp_cong_avoid`, the `cong_control` callback; `acked` is `rs->acked_sacked`. -/
def bictcpCongAvoid (k : Kernel) (j : Nat → UInt32) (clock : UInt32) (s : Sock Bictcp) (acked : UInt32) :
    Except Oops (Sock Bictcp) :=
  if !cubictcpIsCwndLimited s then
    pure s
  else if cubictcpInSlowStart s then
    let (acked, s) := slowStartPhase clock s acked
    if acked = 0 then pure s else updateWindow k j s acked
  else
    updateWindow k j s acked

/-- `bictcp_recalc_ssthresh`. -/
def bictcpRecalcSsthresh (s : Sock Bictcp) : Sock Bictcp :=
  let ca := { s.ca with epochStart := 0 }
  let ca :=
    if ca.cubicSndCwnd < ca.lastMaxCwnd ∧ fastConvergence then
      { ca with lastMaxCwnd := ca.cubicSndCwnd * (bictcpBetaScale + beta) / (2 * bictcpBetaScale) }
    else { ca with lastMaxCwnd := ca.cubicSndCwnd }
  let ca := { ca with cubicSndCwnd := max (ca.cubicSndCwnd * beta / bictcpBetaScale) 2 }
  capWindows { s with ca := ca, sndSsthresh := ca.cubicSndCwnd }

/-- The states `bictcp_state` tells apart. -/
inductive CaState where
  | recovery
  | loss
  | cwr
  | other
  deriving DecidableEq, Repr

/-- `bictcp_state`. -/
def bictcpState (s : Sock Bictcp) (clock : UInt32) (newState : CaState) : Sock Bictcp :=
  match newState with
  | .recovery => bictcpRecalcSsthresh s
  | .loss => bictcpHystartReset { s with ca := bictcpReset s.ca } clock
  | .cwr => s
  | .other => s

/-- `bictcp_cwnd_event`. -/
def bictcpCwndEvent (j : Nat → UInt32) (s : Sock Bictcp) (ev : CaEvent) : Sock Bictcp :=
  let s := s.abcCwndEvent ev
  if ev = .txStart then
    let now := j 0
    let delta := now - s.lsndtime
    if s.ca.epochStart ≠ 0 ∧ s32 delta > 0 then
      let epochStart := s.ca.epochStart + delta
      { s with ca := { s.ca with epochStart := if after epochStart now then now else epochStart } }
    else s
  else s

/-! ## RTT samples -/

/-- First detection parameter of `hystart_update`: ACK-train detection. -/
def detectAckTrain (s : Sock Bictcp) (clock : UInt32) : Sock Bictcp :=
  if hystartDetect &&& hystartAckTrain ≠ 0 ∧ s32 (clock - s.ca.lastAck) ≤ hystartAckDelta then
    let s := { s with ca := { s.ca with lastAck := clock } }
    -- the signed difference is compared with an unsigned value, as unsigned
    if clock - s.ca.roundStart > s.ca.delayMin >>> (4 : UInt32) then
      { s with ca := { s.ca with found := s.ca.found ||| hystartAckTrain }, sndSsthresh := s.ca.cubicSndCwnd }
    else s
  else s

/-- Second detection parameter: the smallest delay of more than enough samples. -/
def detectDelay (s : Sock Bictcp) (delay : UInt32) : Sock Bictcp :=
  if hystartDetect &&& hystartDelay ≠ 0 then
    if s.ca.sampleCnt < hystartMinSamples then
      let currRtt := if s.ca.currRtt = 0 ∨ s.ca.currRtt > delay then delay else s.ca.currRtt
      { s with ca := { s.ca with currRtt := currRtt, sampleCnt := s.ca.sampleCnt + 1 } }
    else
      let thresh := min (max (s.ca.delayMin >>> 3) hystartDelayMin) hystartDelayMax
      if s.ca.currRtt > s.ca.delayMin + thresh then
        { s with ca := { s.ca with found := s.ca.found ||| hystartDelay }, sndSsthresh := s.ca.cubicSndCwnd }
      else s
  else s

/-- `hystart_update`. -/
def hystartUpdate (s : Sock Bictcp) (clock delay : UInt32) : Sock Bictcp :=
  if s.ca.found &&& hystartDetect ≠ 0 then s else detectDelay (detectAckTrain s clock) delay

/-- `abc_pkts_acked`. -/
def abcPktsAcked (s : Sock Bictcp) (rttUs : Int32) : Sock Bictcp :=
  if rttUs > 0 then { s with pacingRate := (s.sndCwnd * 100) * (29000000 / rttUs).toUInt32 } else s

/-- `bictcp_acked`. -/
def bictcpAcked (k : Kernel) (j : Nat → UInt32) (clock : UInt32) (s : Sock Bictcp) (rttUs : Int32) : Sock Bictcp :=
  if rttUs < 0 then s
  else if s.ca.epochStart ≠ 0 ∧ s32 (j 0 - s.ca.epochStart) < k.hz.toNat then s
  else
    let delay := ((rttUs <<< 3).toInt64 / 1000).toUInt64.toUInt32
    let delay := if delay = 0 then 1 else delay
    let delayMin := if s.ca.delayMin = 0 ∨ s.ca.delayMin > delay then delay else s.ca.delayMin
    let s := { s with ca := { s.ca with delayMin := delayMin } }
    let s :=
      if hystart ∧ s.sndCwnd < s.sndSsthresh ∧ s.ca.cubicSndCwnd ≥ hystartLowWindow then hystartUpdate s clock delay
      else s
    abcPktsAcked s rttUs

/-- `abc_in_ack`. -/
def abcInAck (s : Sock Bictcp) (flags : UInt32) : Sock Bictcp :=
  let ackedBytes := s.ackedBytes flags
  if ackedBytes ≠ 0 then
    let abc := { s.ca.toAbc.countAck ackedBytes (flags &&& caAckEce != 0) with priorSndUna := s.sndUna }
    let ca := { s.ca with toAbc := abc }
    { s with ca := ca, sndCwnd := min ca.lossCwnd ca.cubicSndCwnd }
  else s

end AbcMahimahi.Tcp.TcpAbcCubic
