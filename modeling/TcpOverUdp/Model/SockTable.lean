import TcpOverUdp.Model.Congestion
import TcpOverUdp.Model.RingBuf
import TcpOverUdp.Model.Header
import TcpOverUdp.Foundations.MinHeap

/-! # The socket table entry (`tou_sock_table.cpp`)

`sport` and `sip` are left out: they are only stored and logged. Fields that the constructor leaves
unassigned start at zero, `sockstate` at `closed`.
-/
namespace TcpOverUdp
open MachineInt
set_option autoImplicit false

/-- `MinPktHeapType`, ordered by `heap_pkt_comp`. -/
abbrev PktHeap := MinHeap (fun p : TouPkg => p.t.seq)

/-- The type of `cb_send` and `cb_recv`: both are given `TOU_MAX_CIRCULAR_BUF` bytes. -/
abbrev SockBuf := RingBuf touMaxCircularBuf

structure SockTb where
  sockd : ℕ
  sockstate : SockState
  runstate : RunState
  /-- `dip` and `dport`. -/
  dst : Addr
  tc : TouCb
  cbSend : SockBuf
  cbRecv : SockBuf
  minhpRecv : PktHeap

namespace SockTb

/-- The constructor followed by `sockd = sockfd`, as `addSocketTable` does. -/
def init (sockfd : ℕ) : SockTb :=
  { sockd := sockfd
    sockstate := .closed
    runstate := .getPkt
    dst := ⟨0, 0⟩
    tc := TouCb.ssca
      { ccState := .ss, tDelackState := .xmit, tRto := touInitTimeo, tRtoBeta := touInitRtoBeta,
        tRtt := touInitTimeo, sndUna := 0, sndNxt := 0, rcvNxt := 0, dupackcount := 0, sndCwnd := 0,
        sndAwnd := 0, sndSsthresh := 0 }
    cbSend := RingBuf.ofSize touMaxCircularBuf (by decide) (by decide)
    cbRecv := RingBuf.ofSize touMaxCircularBuf (by decide) (by decide)
    minhpRecv := MinHeap.empty }

/-- `setSocketTable(.., SOCKTB_SET_DST_TUPLE)`. -/
def setDst (s : SockTb) (dst : Addr) : SockTb := { s with dst := dst }

def setSocketState (s : SockTb) (state : SockState) : SockTb := { s with sockstate := state }

def setTCB (s : SockTb) (sndNxt sndUna : ℕ) : SockTb :=
  { s with tc := { s.tc with sndNxt := sndNxt, sndUna := sndUna } }

def setTCBRcv (s : SockTb) (seq : ℕ) : SockTb := { s with tc := { s.tc with rcvNxt := seq } }

def setTCBCwnd (s : SockTb) (winsize : ℕ) : SockTb := { s with tc := { s.tc with sndCwnd := winsize } }

def setTCBAwnd (s : SockTb) (winsize : ℕ) : SockTb := { s with tc := { s.tc with sndAwnd := winsize } }

def setTCBState (s : SockTb) (state : CcState) : SockTb := { s with tc := { s.tc with ccState := state } }

def setRunstate (s : SockTb) (state : RunState) : SockTb := { s with runstate := state }

def setAckState (s : SockTb) (state : DelackState) : SockTb :=
  { s with tc := { s.tc with tDelackState := state } }

def setCbData (s : SockTb) (buf : List Byte) (len : ℤ) : ℤ × SockTb :=
  ((s.cbRecv.insert buf len).1, { s with cbRecv := (s.cbRecv.insert buf len).2 })

def pushHpRecvBuf (s : SockTb) (pkt : TouPkg) : SockTb :=
  { s with minhpRecv := s.minhpRecv.push pkt.copy.copy }

def ckNumDupack (s : SockTb) : Bool := s.tc.dupackcount == tcpRexmtThresh

end SockTb
end TcpOverUdp
