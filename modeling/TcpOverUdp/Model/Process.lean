import TcpOverUdp.Model.Timer

/-! # Sending and acknowledging (`processtou.cpp`)

A `Process` has one connection: the table entry of its socket, the timer queues, and `sent`, the
calls of `sendto` it made so far. A call holds the locks it takes for its whole duration, so it is
one function from processes to processes. `now` is what `getTimeMs` returns during the call.
-/
namespace TcpOverUdp
open MachineInt
set_option autoImplicit false

structure Process where
  stb : SockTb
  /-- The address of `stb`, which timer nodes point to. -/
  stp : SockPtr
  timerheap : TimerHeap
  ackdeque : List Node
  sent : List Tx

namespace Process

/-- What `touSocket` leaves. -/
def init (sockfd : ℕ) (stp : SockPtr) : Process :=
  { stb := SockTb.init sockfd, stp := stp, timerheap := MinHeap.empty, ackdeque := [], sent := [] }

/-- One socket is open, so every node's table is `stb`. -/
def table (p : Process) : SockPtr → SockTb := fun _ => p.stb

def setTable (p : Process) (stb : SockTb) : Process := { p with stb := stb }

def sendto (p : Process) (txs : List Tx) : Process := { p with sent := p.sent ++ txs }

def calNumCaxmit (sndSz : ℤ) : ℤ :=
  let xmitCnt := sndSz.tdiv touSmss
  if xmitCnt.tmod 2 = 1 then
    if sndSz.tmod touSmss ≠ 0 then xmitCnt + 1 else xmitCnt - 1
  else xmitCnt

def procAck (stb : SockTb) (tp : TouPkg) : AckOrder × SockTb :=
  if tp.t.ackSeq > stb.tc.sndUna then
    (.bigthanUna, { stb with tc := { stb.tc.addwnd.2 with sndUna := tp.t.ackSeq } })
  else if tp.t.ackSeq = stb.tc.sndUna then (.equaltoUna, stb)
  else (.smlthanUna, { stb with tc := stb.tc.addwnd.2 })

/-! ## Sending -/

def getSendSize (stb : SockTb) : ℕ :=
  let curwnd := stb.tc.getwnd
  if u32 ((stb.tc.sndUna : ℤ) + curwnd) ≥ stb.tc.sndNxt then
    u32 ((u32 ((stb.tc.sndUna : ℤ) + curwnd) : ℤ) - stb.tc.sndNxt)
  else 0

/-- `popsndq`: the answer, `sendbuf` and the table. -/
def popsndq (stb : SockTb) (len : ℤ) : ℤ × List Byte × SockTb :=
  let bread := (stb.cbSend.getAt len).1
  let data := (stb.cbSend.getAt len).2
  let sendbuf := data ++ List.replicate (touMss - data.length) 0
  if 0 < bread then
    let dread := (stb.cbSend.remove bread).1
    (if bread ≠ dread then -1 else bread, sendbuf,
      { stb with cbSend := (stb.cbSend.remove bread).2 })
  else (bread, sendbuf, stb)

/-- `gen_pkt` for a data packet. -/
def genPkt (stb : SockTb) (buf : List Byte) (len : ℤ) : Except Halt TouPkg :=
  if len < 0 then .error .lengthError
  else .ok (((TouPkg.ofBuf TouHeader.blank buf len.toNat).putHeaderSeq stb.tc.sndNxt
    stb.tc.rcvNxt).setAck true)

/-- `gen_pkt` for an ACK packet. -/
def genPktAck (stb : SockTb) : TouPkg :=
  ((TouPkg.ofSize TouHeader.blank 0).clean.putHeaderSeq stb.tc.sndNxt stb.tc.rcvNxt).setAck true

/-- The loop of `send` between two turns. -/
structure SendSt where
  pr : Process
  xmitCnt : ℤ

/-- The body of the loop behind its two stop rules, for the window `sndsize`. -/
def sendSegment (now : ℕ) (p : Process) (sndsize : ℤ) : Except Halt Process := do
  let popped := popsndq p.stb (if sndsize ≥ touSmss then touSmss else sndsize)
  let pkt ← genPkt popped.2.2 popped.2.1 popped.1
  let stb := popped.2.2.setTCB (u32 ((popped.2.2.tc.sndNxt : ℤ) + popped.1)) popped.2.2.tc.sndUna
  return { p with
    stb := stb
    sent := p.sent ++ [{ site := .send, dst := stb.dst, pkt := pkt }]
    timerheap := Timer.add p.timerheap stb.sockd timerIdSndpkt (u32 ((pkt.t.seq : ℤ) + popped.1))
      p.stp stb pkt.buf now }

def sendStep (now : ℕ) (s : SendSt) : Except Halt (Turn SendSt Process) :=
  if 0 < s.pr.stb.cbSend.getTotalElements then
    let sndsize := s32 (getSendSize s.pr.stb)
    if s.pr.stb.tc.ccState = .ca then
      if s.xmitCnt ≤ 0 then .ok (.done s.pr)
      else do
        let p ← sendSegment now s.pr sndsize
        return .next { pr := p, xmitCnt := s.xmitCnt - 1 }
    else if minSendSize > sndsize then .ok (.done s.pr)
    else do
      let p ← sendSegment now s.pr sndsize
      return .next { pr := p, xmitCnt := s.xmitCnt }
  else .ok (.done s.pr)

/-- `send`. Each turn takes bytes out of `cb_send` or counts `xmit_cnt` down, which bounds the
number of turns. -/
def send (now : ℕ) (p : Process) : Except Halt Process :=
  let xmitCnt := calNumCaxmit (s32 (getSendSize p.stb))
  fuelLoop .outOfFuel (sendStep now) (p.stb.cbSend.getTotalElements.toNat + xmitCnt.toNat + 1)
    { pr := p, xmitCnt := xmitCnt }

/-! ## Acknowledging received data -/

/-- `putcircbuf`. -/
def putcircbuf (stb : SockTb) (str : List Byte) (len : ℤ) : ℤ × SockTb := stb.setCbData str len

/-- `processTou::proc_delack`. -/
def procDelack (now : ℕ) (p : Process) : Except Halt Process :=
  match p.stb.tc.tDelackState with
  | .immedUpdateXmit | .quexmit | .expxmit | .xmit => do
    let deque ← Timer.updateAck p.ackdeque p.stb.sockd timerIdDelack .xmit p.stp p.stb now
    return { p with
      stb := p.stb.setAckState .que
      ackdeque := deque
      sent := p.sent ++ [{ site := .procDelack, dst := p.stb.dst, pkt := genPktAck p.stb }] }
  | .que => do
    let deque ← Timer.updateAck p.ackdeque p.stb.sockd timerIdDelack .que p.stp p.stb now
    return { p with stb := p.stb.setAckState .xmit, ackdeque := deque }
  | .err => .error (.exit .procDelack)

/-! ## Recovery of out-of-order packets -/

/-- The loop of `do_proc_pkt_rec`; every turn but the last pops a packet. -/
def doProcPktRecLoop : ℕ → SockTb → Except Halt (ℤ × SockTb)
  | 0, stb => .ok (0, stb)
  | k + 1, stb =>
    match stb.minhpRecv.top? with
    | none => .ok (0, stb)
    | some top =>
      if top.t.seq ≥ stb.tc.rcvNxt then
        if top.t.seq = stb.tc.rcvNxt then
          let datasz : ℤ := top.buf.length
          let put := putcircbuf stb top.buf datasz
          if put.1 > 0 then
            let stb := put.2.setTCBRcv (u32 ((top.t.seq : ℤ) + datasz))
            doProcPktRecLoop k { stb with minhpRecv := stb.minhpRecv.pop }
          else .ok (-1, put.2)
        else .ok (0, stb)
      else .error (.assertFail .doProcPktRec)

def doProcPktRec (stb : SockTb) : Except Halt (ℤ × SockTb) :=
  doProcPktRecLoop stb.minhpRecv.size stb

def procPktRec (stb : SockTb) : Except Halt (ℤ × SockTb) :=
  if stb.minhpRecv.isEmpty then .ok (0, stb)
  else do
    let r ← doProcPktRec stb
    return (r.1, r.2.setAckState .immedUpdateXmit)

end Process
end TcpOverUdp
