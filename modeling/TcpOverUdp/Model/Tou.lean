import TcpOverUdp.Model.ProcessTou

/-! # The application interface and the timer thread (`tou.cpp`, `timer.cpp`)

`touConnect` and `touAccept` block in one `recvfrom` each; the part before it and the part after it
are definitions of their own, and the datagram it delivers is an argument of the second. A call of
`sendto` answers the number of bytes it was given. The close path is in `TcpOverUdp.Model.Close`.
-/
namespace TcpOverUdp
open MachineInt
set_option autoImplicit false

namespace Process

def touListen (p : Process) : Process := p.setTable (p.stb.setSocketState .listen)

/-! ## Data -/

/-- `pushsndq`. -/
def pushsndq (p : Process) (sendbuf : List Byte) (len : ℤ) : ℤ × Process :=
  ((p.stb.cbSend.insert sendbuf len).1,
    p.setTable { p.stb with cbSend := (p.stb.cbSend.insert sendbuf len).2 })

def touSend (now : ℕ) (p : Process) (sendBufer : List Byte) (len : ℤ) : Except Halt (ℤ × Process) := do
  let pushed := pushsndq p sendBufer len
  let p ← send now pushed.2
  return (pushed.1, p)

/-- `touRecv`: the answer and the bytes it copied to `recvBuffer`. -/
def touRecv (p : Process) (bufferLength : ℤ) : ℤ × List Byte × Process :=
  let readsize := (p.stb.cbRecv.getAt bufferLength).1
  let data := (p.stb.cbRecv.getAt bufferLength).2
  let clearrs := (p.stb.cbRecv.remove readsize).1
  let readsize' := if clearrs ≠ readsize then -1 else readsize
  (if p.stb.sockstate = .closeWait then 0 else readsize', data,
    p.setTable { p.stb with cbRecv := (p.stb.cbRecv.remove readsize).2 })

/-! ## The handshake -/

/-- The window that both ends set from the size of the socket's receive buffer. -/
def initAwnd (rcvbuf : ℤ) : ℕ := u32 (s32 (rcvbuf - 300000))

/-- The packet as decoded from what a blocking `recvfrom` delivered. -/
def recvPkg (d : Datagram) : TouPkg := TouPkg.ofString TouHeader.blank (d.bytes.take recvBufSize)

/-- `ackpkt`, cleaned. -/
def ackpkt : TouPkg := (TouPkg.ofSize TouHeader.blank 0).clean

/-- `touConnect` up to its `recvfrom`. -/
def touConnectSyn (p : Process) (sockDst : Addr) (rcvbuf : ℤ) : Except Halt Process :=
  let syn := (ackpkt.putHeaderSeq 0 0).setSyn true
  let stb := ((((p.stb.setDst sockDst).setSocketState .synSent).setTCBState .ss).setTCB
    (u32 ((syn.t.seq : ℤ) + 1)) syn.t.seq).setTCBRcv 0
  let stb := stb.setTCBCwnd (touMss * 2)
  if rcvbuf > 0 then
    .ok ((p.setTable (stb.setTCBAwnd (initAwnd rcvbuf))).sendto
      [{ site := .touConnect, dst := sockDst, pkt := syn }])
  else .error (.assertFail .rcvbuf)

/-- `touConnect` after its `recvfrom`. An empty datagram leaves the packet pointer unassigned. -/
def touConnectAck (p : Process) (sockDst : Addr) (d : Datagram) : Except Halt (Bool × Process) :=
  if d.bytes.length = 0 then .error .unassignedRead
  else
    let tp := recvPkg d
    let stb := (p.stb.setTCBRcv tp.t.seq).setTCBRcv (u32 ((tp.t.seq : ℤ) + 1))
    let stb := stb.setTCB stb.tc.sndNxt tp.t.ackSeq
    let ack := ((ackpkt.putHeaderSeq stb.tc.sndNxt stb.tc.rcvNxt).setSyn false).setAck true
    let p := p.sendto [{ site := .touConnect, dst := sockDst, pkt := ack }]
    if ack.toString.length > 1 then .ok (true, p.setTable (stb.setSocketState .established))
    else .ok (false, p.setTable stb)

/-- `touConnect`, whose `recvfrom` delivers `d`. -/
def touConnect (p : Process) (sockDst : Addr) (rcvbuf : ℤ) (d : Datagram) :
    Except Halt (Bool × Process) := do
  let p ← touConnectSyn p sockDst rcvbuf
  touConnectAck p sockDst d

/-- `touAccept` up to its `recvfrom`; the flag says whether it gets there. -/
def touAcceptSynAck (p : Process) (rand : ℕ) (rcvbuf : ℤ) : Except Halt (Bool × Process) :=
  let randnum := rand % 65535
  let stb := ((p.stb.setTCBState .ss).setTCB randnum randnum).setTCBCwnd (touMss * 2)
  if rcvbuf > 0 then
    let stb := stb.setTCBAwnd (initAwnd rcvbuf)
    if stb.sockstate = .synReceived then
      let synack := ((ackpkt.putHeaderSeq stb.tc.sndNxt stb.tc.rcvNxt).setSyn true).setAck true
      .ok (true, (p.setTable (stb.setTCB (u32 ((stb.tc.sndNxt : ℤ) + 1)) stb.tc.sndUna)).sendto
        [{ site := .touAccept, dst := stb.dst, pkt := synack }])
    else .ok (false, p.setTable stb)
  else .error (.assertFail .rcvbuf)

/-- `touAccept` after its `recvfrom`. -/
def touAcceptAck (p : Process) (d : Datagram) : Process :=
  let tpAck := recvPkg d
  let stb := if u32 ((p.stb.tc.sndUna : ℤ) + 1) = tpAck.t.ackSeq then
      p.stb.setTCB p.stb.tc.sndNxt (u32 ((p.stb.tc.sndUna : ℤ) + 1)) else p.stb
  let stb := if stb.tc.rcvNxt = tpAck.t.seq then stb.setTCBRcv tpAck.t.seq else stb
  p.setTable (stb.setSocketState .established)

/-- `touAccept`, whose `recvfrom` delivers `d` if it is reached. -/
def touAccept (p : Process) (rand : ℕ) (rcvbuf : ℤ) (d : Datagram) :
    Except Halt (Bool × Process) := do
  let r ← touAcceptSynAck p rand rcvbuf
  if r.1 then return (true, touAcceptAck r.2 d) else return (false, r.2)

/-! ## The passes of the timer thread -/

/-- `timerCk::proc_delack`. -/
def timerProcDelack (now : ℕ) (p : Process) : Except Halt Process := do
  let r ← Timer.procDelackLoop now p.stb p.ackdeque
  return { p with stb := r.1, ackdeque := r.2.1, sent := p.sent ++ r.2.2 }

/-- `timerCk::proc_sndpkt`. -/
def timerProcSndpkt (now : ℕ) (p : Process) : Except Halt Process := do
  let r ← Timer.procSndpkt p.table now p.timerheap
  match r.2 with
  | none => return { p with timerheap := r.1 }
  | some fired => return { p with
      stb := { p.stb with tc := p.stb.tc.settwnd.2 }
      timerheap := r.1
      sent := p.sent ++ [fired.2] }

/-- The loop of `timerCk::doit` that drains the socket, between two turns. -/
structure DrainSt where
  turn : ℕ
  pr : Process
  pending : List Datagram

/-- One turn: `run` for the descriptor in `timerheap.top()`, which is that of the one connection. The
lock is free, as no other thread acts. -/
def drainStep (clock : ℕ → ℕ) (s : DrainSt) : Except Halt (Turn DrainSt RunRes) := do
  let r ← run (clock s.turn) s.pr s.pending
  if r.rv ≥ 0 then return .next { turn := s.turn + 1, pr := r.pr, pending := r.pending }
  else return .done r

/-- At most `fuel` turns of the loop. -/
def drain (clock : ℕ → ℕ) (fuel : ℕ) (p : Process) (pending : List Datagram) : Except Halt RunRes :=
  fuelLoop .outOfFuel (drainStep clock) fuel { turn := 0, pr := p, pending := pending }

end Process
end TcpOverUdp
