import TcpOverUdp.Model.SockTable
import Mathlib.Data.Prod.Lex

/-! # Timer nodes and the timer heap (`timer_node.cpp`, `timer.cpp`, `timer_mng.cpp`)

The heap functions work for nodes of any number of connections: a node points to its socket table,
and `tb` reads the table behind a pointer. `now` is what `getTimeMs` returns during the call. A
queue takes its elements by copy, so each `push` of a node is a push of its `Node.copy`.
-/
namespace TcpOverUdp
open MachineInt
set_option autoImplicit false

/-- What `gettimeofday` stores. -/
structure Timeval where
  tvSec : ℕ
  tvUsec : ℕ
  deriving DecidableEq, Repr

def getTimeMs (tv : Timeval) : ℕ := tv.tvSec % 1000000 * 1000 + tv.tvUsec / 1000

/-- The address of a `sockTb`. -/
abbrev SockPtr := ℕ

/-- The calls of `sendto`, by the function they stand in. -/
inductive TxSite where
  | send | procDelack | sendack | sendpkt | touConnect | touAccept
  deriving DecidableEq, Repr

/-- One call of `sendto`: the bytes on the wire are `pkt.toString`. -/
structure Tx where
  site : TxSite
  dst : Addr
  pkt : TouPkg
  deriving DecidableEq, Repr

/-- `std::string(const char *)`: the bytes up to the first NUL. -/
def cstr (s : List Byte) : List Byte := s.takeWhile (· ≠ 0)

structure Node where
  cId : ℕ
  tId : ℕ
  pId : ℕ
  st : SockPtr
  payload : Option (List Byte)
  ms : ℤ
  xmitms : ℤ
  pushAckms : ℤ
  nagleAckms : ℤ
  deriving DecidableEq, Repr

namespace Node

/-- The copy constructor, also `operator=`: the payload goes through `payload->data()`. -/
def copy (nt : Node) : Node := { nt with payload := nt.payload.map cstr }

/-- The constructor of a transmitted segment's node. -/
def ofPayload (c t p : ℕ) (st : SockPtr) (stb : SockTb) (pl : List Byte) (now : ℕ) : Node :=
  { cId := c, tId := t, pId := p, st := st, payload := some pl
    ms := s32 (u32 (s32 now + stb.tc.tRto)), xmitms := s32 now, pushAckms := 0, nagleAckms := 0 }

/-- The constructor used in `rexmit_for_dup_ack`. -/
def ofRexmit (c t p : ℕ) (st : SockPtr) (stb : SockTb) (pl : List Byte) (xmitT : ℤ) (now : ℕ) : Node :=
  { cId := c, tId := t, pId := p, st := st, payload := some pl
    ms := s32 (u32 ((now : ℤ) + stb.tc.tRto)), xmitms := xmitT, pushAckms := 0, nagleAckms := 0 }

/-- The constructor used with the ACK deque. -/
def ofAck (c t p : ℕ) (pms nms : ℤ) (st : SockPtr) : Node :=
  { cId := c, tId := t, pId := p, st := st, payload := none
    ms := 0, xmitms := 0, pushAckms := pms, nagleAckms := nms }

/-- The order of `heapComp`: by connection, then by sequence number. -/
def key (n : Node) : ℕ ×ₗ ℕ := toLex (n.cId, n.pId)

/-- `payload->size()`, for a node whose payload is not `NULL`. -/
def payloadSize (n : Node) : ℕ := (n.payload.getD []).length

end Node

/-- `minTmHeapType`. -/
abbrev TimerHeap := MinHeap Node.key

namespace Timer

/-- `timerMng::add`. -/
def add (h : TimerHeap) (cid tid pid : ℕ) (st : SockPtr) (stb : SockTb) (payload : List Byte)
    (now : ℕ) : TimerHeap :=
  h.push (Node.ofPayload cid tid pid st stb payload now).copy

def calRto (stb : SockTb) (nt : Node) (recvT : ℕ) : SockTb :=
  if nt.xmitms < 0 then stb
  else
    let curRtt := s32 (u32 ((recvT : ℤ) - nt.xmitms))
    let curRtt := if curRtt < 10 then 10 else curRtt
    let rtt := u32 ((stb.tc.tRtt / 8 : ℕ) + curRtt * 7 / 8)
    { stb with tc := { stb.tc with tRtt := rtt, tRto := u32 ((stb.tc.tRtoBeta : ℤ) * rtt) } }

def sendpkt (stb : SockTb) (nt : Node) : Tx :=
  let pkt := (TouPkg.ofBuf TouHeader.blank (nt.payload.getD []) nt.payloadSize).putHeaderSeq
    (u32 ((nt.pId : ℤ) - nt.payloadSize)) stb.tc.rcvNxt
  { site := .sendpkt, dst := stb.dst, pkt := pkt.setAck true }

def sendack (stb : SockTb) (nt : Node) : Except Halt Tx :=
  if stb.tc.rcvNxt ≥ nt.pId then
    .ok { site := .sendack, dst := stb.dst
          pkt := ((TouPkg.ofSize TouHeader.blank 0).clean.putHeaderSeq stb.tc.sndNxt
            stb.tc.rcvNxt).setAck true }
  else .error (.assertFail .sendack)

/-! ## The heap -/

/-- The loop of `proc_clear_ackedpkt(cid, tid, una_seq, recv_t)`. The second part of the answer is
the node whose round trip `cal_rto` is given, if the loop meets one. -/
def procClearAckedpktLoop (cid tid una : ℕ) : ℕ → TimerHeap → Except Halt (TimerHeap × Option Node)
  | 0, h => .ok (h, none)
  | k + 1, h =>
    match h.top? with
    | none => .ok (h, none)
    | some n =>
      if n.tId = tid ∧ n.cId = cid ∧ n.pId < una then procClearAckedpktLoop cid tid una k h.pop
      else if n.tId = tid ∧ n.cId = cid ∧ n.pId = una then .ok (h.pop, some n)
      else if n.tId = tid ∧ n.cId = cid ∧ n.pId > una then .ok (h, none)
      else .error (.exit .procClearAckedpkt)

/-- `timerMng::delete_timer`: each turn pops a node, so the heap's size is fuel enough. -/
def deleteTimer (cid tid una : ℕ) (h : TimerHeap) : Except Halt (TimerHeap × Option Node) :=
  procClearAckedpktLoop cid tid una h.size h

/-- The loop of `rexmit_for_dup_ack`. -/
def rexmitForDupAckLoop (tb : SockPtr → SockTb) (cid tid pid now : ℕ) :
    ℕ → TimerHeap → Except Halt (Bool × TimerHeap × List Tx)
  | 0, h => .ok (false, h, [])
  | k + 1, h =>
    match h.top? with
    | none => .ok (false, h, [])
    | some n =>
      let thPid := u32 ((n.pId : ℤ) - n.payloadSize)
      if n.cId = cid ∧ n.tId = tid ∧ thPid = pid then
        let nt := Node.ofRexmit cid tid n.pId n.st (tb n.st) (n.payload.getD []) (-1) now
        .ok (true, h.pop.push nt.copy, [sendpkt (tb n.st) n])
      else if n.cId = cid ∧ n.tId = tid ∧ thPid < pid then
        rexmitForDupAckLoop tb cid tid pid now k h.pop
      else .error (.exit .rexmitForDupAck)

def rexmitForDupAck (tb : SockPtr → SockTb) (cid tid pid now : ℕ) (h : TimerHeap) :
    Except Halt (Bool × TimerHeap × List Tx) :=
  rexmitForDupAckLoop tb cid tid pid now h.size h

/-- The loop of `proc_clear_ackedpkt()`, with the `snd_una` fetched before it. -/
def clearAckedTopLoop (una : ℕ) : ℕ → TimerHeap → TimerHeap
  | 0, h => h
  | k + 1, h =>
    match h.top? with
    | none => h
    | some n => if n.pId ≤ una then clearAckedTopLoop una k h.pop else h

def clearAckedTop (tb : SockPtr → SockTb) (h : TimerHeap) : TimerHeap :=
  match h.top? with
  | none => h
  | some n => clearAckedTopLoop (tb n.st).tc.sndUna h.size h

/-- The first loop of `postpone_timer`, from `timerheap` into `tempheap`. -/
def postponeLoop (thConn timerId thSeq curRto : ℕ) :
    ℕ → TimerHeap → TimerHeap → Except Halt TimerHeap
  | 0, _, temp => .ok temp
  | k + 1, h, temp =>
    match h.top? with
    | none => .ok temp
    | some n =>
      if n.cId ≠ thConn ∨ n.tId ≠ timerId then
        postponeLoop thConn timerId thSeq curRto k h.pop (temp.push n.copy)
      else if n.pId > thSeq then
        if n.xmitms > 0 then
          let nt := { n.copy with ms := s32 (u32 (n.xmitms + curRto)) }
          postponeLoop thConn timerId thSeq curRto k h.pop (temp.push nt.copy)
        else .error (.assertFail .postponeTimer)
      else if n.pId < thSeq then postponeLoop thConn timerId thSeq curRto k h.pop temp
      else if n.pId = thSeq then
        postponeLoop thConn timerId thSeq curRto k h.pop (temp.push n.copy)
      else .error (.exit .postponeTimer)

/-- The second loop of `postpone_timer`, back from `tempheap`. -/
def restoreLoop : ℕ → TimerHeap → TimerHeap → TimerHeap
  | 0, _, h => h
  | k + 1, temp, h =>
    match temp.top? with
    | none => h
    | some n => restoreLoop k temp.pop (h.push n.copy)

def postponeTimer (thConn timerId thSeq curRto : ℕ) (h : TimerHeap) : Except Halt TimerHeap := do
  let temp ← postponeLoop thConn timerId thSeq curRto h.size h MinHeap.empty
  return restoreLoop temp.size temp MinHeap.empty

/-- `proc_sndpkt`: the heap, and when a timer fired the table to pass to `settwnd` and the segment
retransmitted. -/
def procSndpkt (tb : SockPtr → SockTb) (now : ℕ) (h : TimerHeap) :
    Except Halt (TimerHeap × Option (SockPtr × Tx)) :=
  let h := clearAckedTop tb h
  match h.top? with
  | none => .ok (h, none)
  | some n =>
    if u32 n.ms < now then do
      let rto2 := u32 ((tb n.st).tc.tRto * 2)
      let nt := { n.copy with xmitms := -1, ms := s32 (u32 ((rto2 : ℤ) + now)) }
      let h1 := h.pop.push nt.copy
      let h2 ←
        match h1.top? with
        | none => .ok h1
        | some top => if h1.size < 8 then postponeTimer top.cId top.tId top.pId rto2 h1 else .ok h1
      return (h2, some (n.st, sendpkt (tb n.st) n))
    else .ok (h, none)

/-! ## The ACK deque -/

/-- The three assignments with which both `update_ack`s refresh a node. -/
def refreshAck (n : Node) (stb : SockTb) (curT : ℕ) : Node :=
  { n with pId := stb.tc.rcvNxt
           pushAckms := s32 (u32 ((curT : ℤ) + timerPromptAckTime))
           nagleAckms := s32 (u32 ((curT : ℤ) + timerDelayedAckTime)) }

/-- `get_ack_node` and the assignments through the pointer it returns; `none` for `NULL`. -/
def refreshAckNode (cid tid : ℕ) (stb : SockTb) (curT : ℕ) : List Node → Option (List Node)
  | [] => none
  | n :: rest =>
    if n.cId = cid ∧ n.tId = tid then some (refreshAck n stb curT :: rest)
    else (refreshAckNode cid tid stb curT rest).map (n :: ·)

def addAck (deque : List Node) (cid tid : ℕ) (st : SockPtr) (stb : SockTb) (curT : ℕ) : List Node :=
  deque ++ [(Node.ofAck cid tid stb.tc.rcvNxt (s32 (u32 ((curT : ℤ) + timerPromptAckTime)))
    (s32 (u32 ((curT : ℤ) + timerDelayedAckTime))) st).copy]

/-- `timerMng::update_ack`. -/
def updateAck (deque : List Node) (cid tid : ℕ) (state : DelackState) (st : SockPtr) (stb : SockTb)
    (curT : ℕ) : Except Halt (List Node) :=
  match refreshAckNode cid tid stb curT deque with
  | some deque' => .ok deque'
  | none => if state = .xmit then .ok (addAck deque cid tid st stb curT) else .error (.exit .updateAck)

def procDelackXmit (stb : SockTb) (n : Node) (t : ℕ) : Except Halt (SockTb × Node × List Tx) :=
  match stb.tc.tDelackState with
  | .immedUpdateXmit => .ok (stb, n, [])
  | .xmit =>
    if u32 n.nagleAckms < t then do
      let tx ← sendack stb n
      return (stb.setAckState .quexmit, refreshAck n stb t, [tx])
    else .ok (stb, n, [])
  | .quexmit | .expxmit | .que =>
    if u32 n.pushAckms < t then do
      let tx ← sendack stb n
      return (stb.setAckState .expxmit, refreshAck n stb t, [tx])
    else .ok (stb, n, [])
  | .err => .error (.exit .procDelackXmit)

/-- The loop of `timerCk::proc_delack`, for nodes that all point to the table `stb`. -/
def procDelackLoop (t : ℕ) : SockTb → List Node → Except Halt (SockTb × List Node × List Tx)
  | stb, [] => .ok (stb, [], [])
  | stb, n :: rest => do
    let (stb1, n1, tx1) ← procDelackXmit stb n t
    let (stb2, rest2, tx2) ← procDelackLoop t stb1 rest
    return (stb2, n1 :: rest2, tx1 ++ tx2)

end Timer
end TcpOverUdp
