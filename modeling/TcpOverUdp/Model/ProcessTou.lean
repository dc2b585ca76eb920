import TcpOverUdp.Model.Process

/-! # The receive automaton (`processTou::run`)

`RunSt` is the automaton between two turns of its `while` loop: `tp` is the packet the pointer
`tp` points to, if one was assigned, and `pending` the datagrams the socket holds. Deleting a
pointer that was never assigned has no effect here; reading it halts.
-/
namespace TcpOverUdp
open MachineInt
set_option autoImplicit false

namespace Process

/-- `processGetPktState`. -/
def processGetPktState (stb : SockTb) (tp : TouPkg) : Except Halt ProcState :=
  if tp.t.syn then .ok .procSyn
  else if tp.t.fin then .ok .procFin
  else if tp.t.ack ∧ stb.sockstate = .established ∧ tp.buf.length = 0 ∧
      stb.tc.sndNxt ≥ tp.t.ackSeq then .ok .ackWithoutData
  else if tp.t.ack ∧ 0 < tp.buf.length ∧ tp.t.seq = stb.tc.rcvNxt ∧
      stb.sockstate = .established then .ok .ackWithDataMatchExpectedSeq
  else if tp.t.ack ∧ 0 < tp.buf.length ∧ tp.t.seq < stb.tc.rcvNxt ∧
      stb.sockstate = .established then .ok .ackWithDataLessExpectedSeq
  else if tp.t.ack ∧ 0 < tp.buf.length ∧ tp.t.seq > stb.tc.rcvNxt ∧
      stb.sockstate = .established then .ok .ackWithDataMoreExpectedSeq
  else .error (.exit .processGetPktState)

/-- `pendPacketLen`: the size of the next pending datagram, 0 if there is none. -/
def pendPacketLen (pending : List Datagram) : ℕ := ((pending.head?).map (·.bytes.length)).getD 0

structure RunSt where
  pr : Process
  state : ProcState
  tp : Option TouPkg
  sockaddrs : Addr
  rv : ℤ
  pending : List Datagram

/-- What `run` answers, the process it leaves and the datagrams it did not take. -/
structure RunRes where
  rv : ℤ
  pr : Process
  pending : List Datagram

/-- `run_recvfrom`, and `run`'s `return -1` when it received nothing. -/
def runRecvfrom (s : RunSt) : Turn RunSt RunRes :=
  match s.pending with
  | [] => .done { rv := -1, pr := s.pr, pending := [] }
  | d :: rest =>
    let content := d.bytes.take recvBufSize
    if content.length = 0 then .done { rv := -1, pr := s.pr, pending := rest }
    else .next { s with
      tp := some (TouPkg.ofString TouHeader.blank content)
      sockaddrs := d.src
      rv := content.length
      pending := rest }

/-- `run_recvfrom` followed by the classification of the packet. -/
def getPkt (s : RunSt) : Except Halt (Turn RunSt RunRes) :=
  match runRecvfrom s with
  | .done r => .ok (.done r)
  | .next s' =>
    match s'.tp with
    | none => .error .unassignedRead
    | some tp => do
      let state ← processGetPktState s'.pr.stb tp
      return .next { s' with state := state }

/-- The packet behind `tp`. -/
def readTp (s : RunSt) : Except Halt TouPkg :=
  match s.tp with
  | none => .error .unassignedRead
  | some tp => .ok tp

/-- `PROCESS_ACK_WITHOUT_DATA` up to the call of `send`. -/
def handleAck (now : ℕ) (p : Process) (tp : TouPkg) : Except Halt Process :=
  let acked := procAck p.stb tp
  match acked.1 with
  | .bigthanUna => do
    let cleared ← Timer.deleteTimer acked.2.sockd timerIdSndpkt tp.t.ackSeq p.timerheap
    return { p with
      stb := match cleared.2 with
        | none => acked.2
        | some nt => Timer.calRto acked.2 nt now
      timerheap := cleared.1 }
  | .smlthanUna => .ok (p.setTable acked.2)
  | .equaltoUna =>
    let stb := { acked.2 with tc := (acked.2.tc.setdwnd tp.t.ackSeq).2 }
    if stb.ckNumDupack then do
      let rex ← Timer.rexmitForDupAck (fun _ => stb) stb.sockd timerIdSndpkt tp.t.ackSeq now
        p.timerheap
      return { p with stb := stb, timerheap := rex.2.1, sent := p.sent ++ rex.2.2 }
    else .ok (p.setTable stb)

/-- `PROCESS_ACK_DATARECSUCC_NO_SENDBACK_ACK`, also the end of `.._SENDBACK_ACK`. -/
def noSendback (s : RunSt) : RunSt :=
  if pendPacketLen s.pending > 0 ∧ s.pr.stb.cbRecv.getAvSize ≥ recvBufSize ∧
      s.pr.stb.runstate = .getPkt then { s with state := .clearGetPkt }
  else { s with state := .procEnd }

/-- One turn of the loop. -/
def runStep (now : ℕ) (s : RunSt) : Except Halt (Turn RunSt RunRes) :=
  match s.state with
  | .procEnd => .ok (.done { rv := s.rv, pr := s.pr, pending := s.pending })
  | .getPkt => getPkt s
  | .clearGetPkt => getPkt { s with tp := none }
  | .procSyn => do
    let tp ← readTp s
    let stb := ((s.pr.stb.setDst s.sockaddrs).setSocketState .synReceived).setTCBRcv
      (u32 ((tp.t.seq : ℤ) + 1))
    return .next { s with pr := s.pr.setTable stb, state := .procEnd }
  | .procFin =>
    .ok (.next { s with pr := s.pr.setTable (s.pr.stb.setSocketState .closeWait), state := .procEnd })
  | .ackWithoutData => do
    let tp ← readTp s
    let p ← handleAck now s.pr tp
    let p ← send now p
    return .next { s with pr := p, state := .procEnd }
  | .pktRecovery => do
    let r ← procPktRec s.pr.stb
    if r.1 = 0 then
      return .next { s with pr := s.pr.setTable (r.2.setRunstate .getPkt)
                            state := .ackDatarecsuccSendbackAck }
    else
      return .next { s with pr := s.pr.setTable (r.2.setRunstate .pktRecovery)
                            state := .ackDatarecsuccNoSendbackAck }
  | .ackWithDataMatchExpectedSeq => do
    let tp ← readTp s
    let stb := s.pr.stb.setTCBRcv (u32 ((tp.t.seq : ℤ) + tp.buf.length))
    return .next { s with pr := s.pr.setTable (putcircbuf stb tp.buf tp.buf.length).2
                          state := .pktRecovery }
  | .ackWithDataLessExpectedSeq =>
    if pendPacketLen s.pending > 0 ∧ s.pr.stb.cbRecv.getAvSize ≥ recvBufSize then
      .ok (.next { s with state := .clearGetPkt })
    else .ok (.next { s with state := .procEnd })
  | .ackWithDataMoreExpectedSeq => do
    let tp ← readTp s
    let stb := (s.pr.stb.pushHpRecvBuf tp).setAckState .immedUpdateXmit
    return .next { s with pr := s.pr.setTable stb, state := .ackDatarecsuccSendbackAck }
  | .ackDatarecsuccSendbackAck => do
    let p ← procDelack now s.pr
    return .next (noSendback { s with pr := p })
  | .ackDatarecsuccNoSendbackAck => .ok (.next (noSendback s))

/-- A datagram leads to at most five turns, and at most four more follow the last. -/
def runFuel (pending : List Datagram) : ℕ := 6 * pending.length + 8

def runSt (p : Process) (pending : List Datagram) : RunSt :=
  { pr := p, state := p.stb.runstate.toProcState, tp := none, sockaddrs := p.stb.dst, rv := 0
    pending := pending }

/-- `processTou::run`, for a caller that got the lock `run_t_mtx`. -/
def run (now : ℕ) (p : Process) (pending : List Datagram) : Except Halt RunRes :=
  fuelLoop .outOfFuel (runStep now) (runFuel pending) (runSt p pending)

end Process
end TcpOverUdp
