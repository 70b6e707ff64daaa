/-
tcp_abc.c: the Accelerate-Brake-Control sender. The receiver's handlers are those of
`Tcp/Sock.lean` on `struct abc` itself.
-/
import AbcMahimahi.Tcp.Sock

namespace AbcMahimahi.Tcp.TcpAbc

/-- `abc_init`. -/
def abcInit (s : Sock Abc) : Sock Abc := { s with sndSsthresh := tcpInfiniteSsthresh }.abcInit

/-- `abc_in_ack`. -/
def abcInAck (s : Sock Abc) (flags : UInt32) : Sock Abc :=
  let ackedBytes := s.ackedBytes flags
  if ackedBytes ≠ 0 then
    let ca := { s.ca.countAck ackedBytes (flags &&& caAckEce != 0) with priorSndUna := s.sndUna }
    { s with ca := ca, sndCwnd := ca.lossCwnd }
  else s

/-- `abc_cwnd_event`. -/
def abcCwndEvent (s : Sock Abc) (ev : CaEvent) : Sock Abc := s.abcCwndEvent ev

/-- `abc_pkts_acked`. -/
def abcPktsAcked (s : Sock Abc) (rttUs : Int32) : Sock Abc :=
  if rttUs > 0 then { s with pacingRate := (s.ca.lossCwnd * 100) * (29000000 / rttUs).toUInt32 } else s

/-- The kernel moves `snd_una` forward by `bytes` past what the module last saw and raises the
ACK event. -/
def ack (s : Sock Abc) (bytes flags : UInt32) : Sock Abc :=
  abcInAck { s with sndUna := s.ca.priorSndUna + bytes } flags

end AbcMahimahi.Tcp.TcpAbc
