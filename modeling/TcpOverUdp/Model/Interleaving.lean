import TcpOverUdp.Model.Network

/-! # The threads of a process, step by step

`send_mtx` lets one thread into `send`, `run_t_mtx` one into `run`; the timer thread makes its passes and
one thread of the application reads. What each of them does next is its program counter. A step is one
critical section, or one access to the shared table outside of any, and the threads' steps come in any
order. What only `run` writes, `rcv_nxt`, `minhp_recv` and `runstate`, it reads within the step that comes
next; the other threads read `dst` with the access beside it.

`timer_heap_mtx` is held through a pass of `proc_sndpkt`, `ack_mtx` and `ack_deque_mtx` through one of
`timerCk::proc_delack`, `stb_tc_ack_mtx` through the part of that pass that sends, `stb_mtx` through `proc_ack`
and `stb_minhp_recv_mtx`, which nobody else takes, through `proc_pkt_rec`. The other mutexes are held within
one step only.
-/
namespace TcpOverUdp
open MachineInt
set_option autoImplicit false

namespace Timer

/-- `proc_sndpkt` behind its call of `proc_clear_ackedpkt`. -/
def fireTop (tb : SockPtr → SockTb) (now : ℕ) (h : TimerHeap) :
    Except Halt (TimerHeap × Option (SockPtr × Tx)) :=
  match h.top? with
  | none => .ok (h, none)
  | some n =>
    if u32 n.ms < now then do
      let rto2 := u32 ((tb n.st).tc.tRto * 2)
      let nt := { n.copy with xmitms := -1, ms := s32 (u32 ((rto2 : ℤ) + now)) }
      let h1 := h.pop.push nt.copy
      let h2 ←
        match h1.top? with
        | none => .ok h1
        | some top => if h1.size < 8 then postponeTimer top.cId top.tId top.pId rto2 h1 else .ok h1
      return (h2, some (n.st, sendpkt (tb n.st) n))
    else .ok (h, none)

end Timer

namespace Process

/-! ## In `send` -/

/-- The variables of `send` that are set in front of its loop. -/
structure SendVars where
  sockaddrs : Addr
  xmitCnt : ℤ
  deriving DecidableEq, Repr

/-- What a thread in `send` does next. During the first `getSendSize` the variables are not set yet. -/
inductive SendAt where
  | getwnd (v : Option SendVars)
  | compare (v : Option SendVars) (curwnd : ℕ)
  | subtract (v : Option SendVars) (curwnd : ℕ)
  | sized (v : Option SendVars) (sndsize : ℤ)
  | test (v : SendVars)
  | getAt (v : SendVars) (len : ℤ)
  | remove (v : SendVars) (bread : ℤ) (sendbuf : List Byte)
  | genPkt (v : SendVars) (len : ℤ) (sendbuf : List Byte)
  | advance (v : SendVars) (len : ℤ) (pkt : TouPkg)
  | sendto (v : SendVars) (len : ℤ) (pkt : TouPkg)
  | newNode (v : SendVars) (len : ℤ) (pkt : TouPkg)
  | push (v : SendVars) (timernode : Node)
  deriving DecidableEq, Repr

/-- One step of `send`; it answers `none` when it returns. `getSendSize` reads `snd_una` twice. -/
def sendMicro (now : ℕ) (p : Process) : SendAt → Except Halt (Process × Option SendAt)
  | .getwnd v => .ok (p, some (.compare v p.stb.tc.getwnd))
  | .compare v curwnd =>
    if u32 ((p.stb.tc.sndUna : ℤ) + curwnd) ≥ p.stb.tc.sndNxt then .ok (p, some (.subtract v curwnd))
    else .ok (p, some (.sized v 0))
  | .subtract v curwnd => .ok (p, some (.sized v
      (s32 (u32 ((u32 ((p.stb.tc.sndUna : ℤ) + curwnd) : ℤ) - p.stb.tc.sndNxt)))))
  | .sized none sndsize =>
    .ok (p, some (.test { sockaddrs := p.stb.dst, xmitCnt := calNumCaxmit sndsize }))
  | .sized (some v) sndsize =>
    let len := if sndsize ≥ touSmss then (touSmss : ℤ) else sndsize
    if p.stb.tc.ccState = .ca then
      if v.xmitCnt ≤ 0 then .ok (p, none)
      else .ok (p, some (.getAt { v with xmitCnt := v.xmitCnt - 1 } len))
    else if minSendSize > sndsize then .ok (p, none)
    else .ok (p, some (.getAt v len))
  | .test v =>
    if 0 < p.stb.cbSend.getTotalElements then .ok (p, some (.getwnd (some v))) else .ok (p, none)
  | .getAt v len =>
    let bread := (p.stb.cbSend.getAt len).1
    let data := (p.stb.cbSend.getAt len).2
    let sendbuf := data ++ List.replicate (touMss - data.length) 0
    if 0 < bread then .ok (p, some (.remove v bread sendbuf)) else .ok (p, some (.genPkt v bread sendbuf))
  | .remove v bread sendbuf =>
    let dread := (p.stb.cbSend.remove bread).1
    .ok (p.setTable { p.stb with cbSend := (p.stb.cbSend.remove bread).2 },
      some (.genPkt v (if bread ≠ dread then -1 else bread) sendbuf))
  | .genPkt v len sendbuf => do
    let pkt ← Process.genPkt p.stb sendbuf len
    return (p, some (.advance v len pkt))
  | .advance v len pkt =>
    .ok (p.setTable { p.stb with tc := { p.stb.tc with sndNxt := u32 ((p.stb.tc.sndNxt : ℤ) + len) } },
      some (.sendto v len pkt))
  | .sendto v len pkt =>
    .ok (p.sendto [{ site := .send, dst := v.sockaddrs, pkt := pkt }], some (.newNode v len pkt))
  | .newNode v len pkt =>
    .ok (p, some (.push v (Node.ofPayload p.stb.sockd timerIdSndpkt (u32 ((pkt.t.seq : ℤ) + len)) p.stp
      p.stb pkt.buf now)))
  | .push v timernode => .ok ({ p with timerheap := p.timerheap.push timernode.copy }, some (.test v))

/-! ## In `run` -/

/-- The variables of `run`. -/
structure RunVars where
  state : ProcState
  tp : Option TouPkg
  sockaddrs : Addr
  rv : ℤ
  deriving DecidableEq, Repr

/-- What is left to do for an ACK, up to the call of `send`. `setUna` is the end of `proc_ack`. -/
inductive AckAt where
  | setUna (ackSeq : ℕ)
  | deleteTimer (ackSeq : ℕ)
  | setdwnd (ackSeq : ℕ)
  | ckNumDupack (ackSeq : ℕ)
  | rexmit (ackSeq : ℕ)
  deriving DecidableEq, Repr

/-- What is left of a turn that takes several critical sections. The states with `rec` are those of
`proc_pkt_rec`; `top` is the packet on top of `minhp_recv`. -/
inductive TakeAt where
  | setSocketState
  | setTCBRcv
  | putcircbuf
  | setAckState
  | recLoop
  | recPut (top : TouPkg)
  | recTCBRcv (top : TouPkg)
  | recPop
  | recAckState (retval : ℤ)
  | recEnd (retval : ℤ)
  deriving DecidableEq, Repr

inductive RunAt where
  | turn (r : RunVars)
  | take (r : RunVars) (pc : TakeAt)
  | ack (r : RunVars) (pc : AckAt)
  | callSend (r : RunVars)
  | inSend (r : RunVars)
  deriving DecidableEq, Repr

/-- The packet behind `tp`. -/
def RunVars.readTp (r : RunVars) : Except Halt TouPkg :=
  match r.tp with
  | none => .error .unassignedRead
  | some tp => .ok tp

/-- One further step of a turn: of `PROCESS_SYN`, of the states for data, or of `PROCESS_PKT_RECOVERY`. -/
def takeMicro (p : Process) (r : RunVars) : TakeAt → Except Halt (Process × RunAt)
  | .setSocketState => .ok (p.setTable (p.stb.setSocketState .synReceived), .take r .setTCBRcv)
  | .setTCBRcv => do
    let tp ← r.readTp
    return (p.setTable (p.stb.setTCBRcv (u32 ((tp.t.seq : ℤ) + 1))), .turn { r with state := .procEnd })
  | .putcircbuf => do
    let tp ← r.readTp
    return (p.setTable (Process.putcircbuf p.stb tp.buf tp.buf.length).2,
      .turn { r with state := .pktRecovery })
  | .setAckState =>
    .ok (p.setTable (p.stb.setAckState .immedUpdateXmit),
      .turn { r with state := .ackDatarecsuccSendbackAck })
  | .recLoop =>
    match p.stb.minhpRecv.top? with
    | none => .ok (p, .take r (.recAckState 0))
    | some top =>
      if top.t.seq ≥ p.stb.tc.rcvNxt then
        if top.t.seq = p.stb.tc.rcvNxt then .ok (p, .take r (.recPut top))
        else .ok (p, .take r (.recAckState 0))
      else .error (.assertFail .doProcPktRec)
  | .recPut top =>
    let put := Process.putcircbuf p.stb top.buf top.buf.length
    .ok (p.setTable put.2, .take r (if put.1 > 0 then .recTCBRcv top else .recAckState (-1)))
  | .recTCBRcv top =>
    .ok (p.setTable (p.stb.setTCBRcv (u32 ((top.t.seq : ℤ) + top.buf.length))), .take r .recPop)
  | .recPop => .ok (p.setTable { p.stb with minhpRecv := p.stb.minhpRecv.pop }, .take r .recLoop)
  | .recAckState retval =>
    .ok (p.setTable (p.stb.setAckState .immedUpdateXmit), .take r (.recEnd retval))
  | .recEnd retval =>
    if retval = 0 then
      .ok (p.setTable (p.stb.setRunstate .getPkt), .turn { r with state := .ackDatarecsuccSendbackAck })
    else
      .ok (p.setTable (p.stb.setRunstate .pktRecovery), .turn { r with state := .ackDatarecsuccNoSendbackAck })

/-- `proc_ack` up to its assignment to `snd_una`. -/
def ackFirst (p : Process) (tp : TouPkg) : Process × Option AckAt :=
  match (procAck p.stb tp).1 with
  | .bigthanUna => (p.setTable { p.stb with tc := p.stb.tc.addwnd.2 }, some (.setUna tp.t.ackSeq))
  | .equaltoUna => (p, some (.setdwnd tp.t.ackSeq))
  | .smlthanUna => (p.setTable { p.stb with tc := p.stb.tc.addwnd.2 }, none)

/-- One further step for an ACK; `none` says that `send` comes next. -/
def ackMicro (now : ℕ) (p : Process) : AckAt → Except Halt (Process × Option AckAt)
  | .setUna ackSeq =>
    .ok (p.setTable { p.stb with tc := { p.stb.tc with sndUna := ackSeq } }, some (.deleteTimer ackSeq))
  | .deleteTimer ackSeq => do
    let cleared ← Timer.deleteTimer p.stb.sockd timerIdSndpkt ackSeq p.timerheap
    return ({ p with
      stb := match cleared.2 with
        | none => p.stb
        | some nt => Timer.calRto p.stb nt now
      timerheap := cleared.1 }, none)
  | .setdwnd ackSeq =>
    .ok (p.setTable { p.stb with tc := (p.stb.tc.setdwnd ackSeq).2 }, some (.ckNumDupack ackSeq))
  | .ckNumDupack ackSeq =>
    if p.stb.ckNumDupack then .ok (p, some (.rexmit ackSeq)) else .ok (p, none)
  | .rexmit ackSeq => do
    let rex ← Timer.rexmitForDupAck p.table p.stb.sockd timerIdSndpkt ackSeq now p.timerheap
    return ({ p with timerheap := rex.2.1, sent := p.sent ++ rex.2.2 }, none)

/-! ## The other threads -/

/-- What is left of a pass of `proc_sndpkt`. -/
inductive TimerAt where
  | fire
  | settwnd
  deriving DecidableEq, Repr

/-- What is left of a pass of `timerCk::proc_delack` with `cur_time` `t`, at the node `n` number `i`. From
`assertRcvNxt` to `putAck` it is in `sendack`; `state` is what the delayed-ACK state becomes. -/
inductive DelackAt where
  | node (t i : ℕ)
  | assertRcvNxt (t i : ℕ) (n : Node) (state : DelackState)
  | putSeq (t i : ℕ) (n : Node) (state : DelackState)
  | putAck (t i : ℕ) (n : Node) (state : DelackState) (seq : ℕ)
  | updateAck (t i : ℕ) (n : Node) (state : DelackState)
  deriving DecidableEq, Repr

/-- `proc_delack_xmit` up to its call of `sendack`. -/
def delackXmit (stb : SockTb) (t i : ℕ) (n : Node) : Except Halt DelackAt :=
  match stb.tc.tDelackState with
  | .immedUpdateXmit => .ok (.node t (i + 1))
  | .xmit => .ok (if u32 n.nagleAckms < t then .assertRcvNxt t i n .quexmit else .node t (i + 1))
  | .quexmit | .expxmit | .que =>
    .ok (if u32 n.pushAckms < t then .assertRcvNxt t i n .expxmit else .node t (i + 1))
  | .err => .error (.exit .procDelackXmit)

/-- One step of `timerCk::proc_delack`; it answers `none` at the end of the deque. -/
def delackMicro (p : Process) : DelackAt → Except Halt (Process × Option DelackAt)
  | .node t i =>
    match p.ackdeque[i]? with
    | none => .ok (p, none)
    | some n => do
      let pc ← delackXmit p.stb t i n
      return (p, some pc)
  | .assertRcvNxt t i n state =>
    if p.stb.tc.rcvNxt ≥ n.pId then .ok (p, some (.putSeq t i n state)) else .error (.assertFail .sendack)
  | .putSeq t i n state => .ok (p, some (.putAck t i n state p.stb.tc.sndNxt))
  | .putAck t i n state seq =>
    let pkt := (TouPkg.ofSize TouHeader.blank 0).clean.putHeaderSeq seq p.stb.tc.rcvNxt
    .ok (p.sendto [{ site := .sendack, dst := p.stb.dst, pkt := pkt.setAck true }],
      some (.updateAck t i n state))
  | .updateAck t i n state =>
    .ok ({ p with
      stb := p.stb.setAckState state
      ackdeque := p.ackdeque.set i (Timer.refreshAck n p.stb t) }, some (.node t (i + 1)))

/-- What is left of a call of `touRecv`: `remove`, or the look at `sockstate`. -/
inductive RecvAt where
  | remove (readsize : ℤ) (data : List Byte)
  | check (readsize : ℤ) (data : List Byte)
  deriving DecidableEq, Repr

/-! ## A process and its threads -/

/-- `queue` are the datagrams in the socket. `accepted` are the bytes that `pushsndq` took and `returned`
those that `touRecv` gave out, both in order. -/
structure Host where
  pr : Process
  queue : List Datagram
  send : Option SendAt
  run : Option RunAt
  timer : Option TimerAt
  delack : Option DelackAt
  recv : Option RecvAt
  accepted : List Byte
  returned : List Byte

namespace Host

/-- A process in which no thread is at work. -/
def idle (p : Process) (queue : List Datagram) (accepted returned : List Byte) : Host :=
  { pr := p, queue := queue, send := none, run := none, timer := none, delack := none, recv := none
    accepted := accepted, returned := returned }

/-- The automaton of `run` between two turns, on the shared process. -/
def runSt (c : Host) (r : RunVars) : RunSt :=
  { pr := c.pr, state := r.state, tp := r.tp, sockaddrs := r.sockaddrs, rv := r.rv, pending := c.queue }

def runVars (s : RunSt) : RunVars := { state := s.state, tp := s.tp, sockaddrs := s.sockaddrs, rv := s.rv }

/-- After a turn of the automaton. -/
def afterTurn (c : Host) : Turn RunSt RunRes → Host
  | .next s => { c with pr := s.pr, queue := s.pending, run := some (.turn (runVars s)) }
  | .done res => { c with pr := res.pr, queue := res.pending, run := none }

/-- The first step of a turn, other than that of an ACK, which is the whole turn for most states. -/
def turnMicro (now : ℕ) (c : Host) (r : RunVars) : Except Halt Host :=
  match r.state with
  | .procSyn =>
    .ok { c with pr := c.pr.setTable (c.pr.stb.setDst r.sockaddrs), run := some (.take r .setSocketState) }
  | .ackWithDataMatchExpectedSeq => do
    let tp ← r.readTp
    return { c with
      pr := c.pr.setTable (c.pr.stb.setTCBRcv (u32 ((tp.t.seq : ℤ) + tp.buf.length)))
      run := some (.take r .putcircbuf) }
  | .ackWithDataMoreExpectedSeq => do
    let tp ← r.readTp
    return { c with
      pr := c.pr.setTable (c.pr.stb.pushHpRecvBuf tp), run := some (.take r .setAckState) }
  | .pktRecovery =>
    .ok { c with run := some (.take r (if c.pr.stb.minhpRecv.isEmpty then .recEnd 0 else .recLoop)) }
  | .ackDatarecsuccSendbackAck => do
    let q ← procDelack now c.pr
    return { c with pr := q, run := some (.turn { r with state := .ackDatarecsuccNoSendbackAck }) }
  | _ => do
    let t ← runStep now (c.runSt r)
    return c.afterTurn t

/-- `run` behind an ACK's part, with `send` to come when nothing is left of it. -/
def goOnAck (r : RunVars) : Option AckAt → RunAt
  | some pc => .ack r pc
  | none => .callSend r

/-- When `send` returns to `run`, the automaton ends. -/
def afterSend (run : Option RunAt) : Option SendAt → Option RunAt
  | some _ => run
  | none =>
    match run with
    | some (.inSend r) => some (.turn { r with state := .procEnd })
    | _ => run

/-- No thread is in `proc_ack`, which holds `stb_mtx`. -/
def StbFree (c : Host) : Prop := ∀ r a, c.run ≠ some (.ack r (.setUna a))

/-- The mutexes that are held over several steps are free for the step `pc` of `send`. -/
def SendFree (c : Host) : SendAt → Prop
  | .genPkt _ _ _ => c.StbFree
  | .push _ _ => c.timer = none
  | _ => True

/-- `timer_heap_mtx` is free for the step `pc` of an ACK. -/
def AckFree (c : Host) : AckAt → Prop
  | .deleteTimer _ | .rexmit _ => c.timer = none
  | _ => True

/-- `stb_tc_ack_mtx` is not held by a pass of `timerCk::proc_delack`. -/
def TcAckFree (c : Host) : Prop := ∀ pc, c.delack = some pc → ∃ t i, pc = .node t i

/-- `ack_mtx` is free for the turn of `processTou::proc_delack`. What `processGetPktState` reads does not depend
on the mutex `stb_tc_ack_mtx` that it takes. -/
def TurnFree (c : Host) (r : RunVars) : Prop := r.state = .ackDatarecsuccSendbackAck → c.delack = none

/-- `stb_tc_ack_mtx` is free for `set_ack_state`. -/
def TakeFree (c : Host) : TakeAt → Prop
  | .setAckState | .recAckState _ => c.TcAckFree
  | _ => True

/-- What `getTimeMs` answers. -/
def Shows (now : ℕ) : Prop := ∃ tv : Timeval, tv.tvUsec < 1000000 ∧ getTimeMs tv = now

/-- One step of one thread, or a datagram arrives. `net` says which datagrams can arrive, `room` is a
condition on the turns of `run`. -/
inductive Step (net : Host → Datagram → Prop) (room : Host → RunVars → Prop) : Host → Host → Prop
  | arrive {c : Host} {d : Datagram} (hd : net c d) : Step net room c { c with queue := c.queue ++ [d] }
  /-- `touSend` up to its call of `send`. The caller's buffer holds the `len` bytes it says it does. -/
  | pushsndq {c : Host} {buf : List Byte} {len : ℤ} (hlen : s32 len ≤ buf.length) :
      Step net room c { c with
        pr := (Process.pushsndq c.pr buf len).2
        accepted := c.accepted ++ buf.take (Process.pushsndq c.pr buf len).1.toNat }
  | enterSend {c : Host} (h : c.send = none) : Step net room c { c with send := some (.getwnd none) }
  | send {c : Host} {now : ℕ} {pc : SendAt} {r : Process × Option SendAt} (hnow : Shows now)
      (hpc : c.send = some pc) (hfree : c.SendFree pc) (h : sendMicro now c.pr pc = .ok r) :
      Step net room c { c with pr := r.1, send := r.2, run := afterSend c.run r.2 }
  | enterRun {c : Host} (h : c.run = none) :
      Step net room c { c with run := some (.turn (runVars (Process.runSt c.pr c.queue))) }
  | turn {c c' : Host} {now : ℕ} {r : RunVars} (hpc : c.run = some (.turn r))
      (hst : r.state ≠ .ackWithoutData) (hfree : c.TurnFree r) (hroom : room c r)
      (h : turnMicro now c r = .ok c') : Step net room c c'
  | take {c : Host} {r : RunVars} {pc : TakeAt} {q : Process × RunAt} (hpc : c.run = some (.take r pc))
      (hfree : c.TakeFree pc) (h : takeMicro c.pr r pc = .ok q) :
      Step net room c { c with pr := q.1, run := some q.2 }
  | procAck {c : Host} {r : RunVars} {tp : TouPkg} (hpc : c.run = some (.turn r))
      (hst : r.state = .ackWithoutData) (htp : r.tp = some tp) :
      Step net room c { c with
        pr := (ackFirst c.pr tp).1, run := some (goOnAck r (ackFirst c.pr tp).2) }
  | ack {c : Host} {now : ℕ} {r : RunVars} {pc : AckAt} {q : Process × Option AckAt} (hnow : Shows now)
      (hpc : c.run = some (.ack r pc)) (hfree : c.AckFree pc) (h : ackMicro now c.pr pc = .ok q) :
      Step net room c { c with pr := q.1, run := some (goOnAck r q.2) }
  | callSend {c : Host} {r : RunVars} (hpc : c.run = some (.callSend r)) (h : c.send = none) :
      Step net room c { c with run := some (.inSend r), send := some (.getwnd none) }
  | enterDelack {c : Host} (now : ℕ) (h : c.delack = none) (ht : c.timer = none) :
      Step net room c { c with delack := some (.node now 0) }
  | delack {c : Host} {pc : DelackAt} {q : Process × Option DelackAt} (hpc : c.delack = some pc)
      (h : delackMicro c.pr pc = .ok q) : Step net room c { c with pr := q.1, delack := q.2 }
  | clearAcked {c : Host} (h : c.timer = none) (hd : c.delack = none) (hfree : c.StbFree) :
      Step net room c { c with
        pr := { c.pr with timerheap := Timer.clearAckedTop c.pr.table c.pr.timerheap }, timer := some .fire }
  | fire {c : Host} {now : ℕ} {f : TimerHeap × Option (SockPtr × Tx)} (hnow : Shows now)
      (hpc : c.timer = some .fire) (h : Timer.fireTop c.pr.table now c.pr.timerheap = .ok f) :
      Step net room c { c with
        pr := { c.pr with timerheap := f.1, sent := c.pr.sent ++ (f.2.map (·.2)).toList }
        timer := f.2.map fun _ => .settwnd }
  | settwnd {c : Host} (hpc : c.timer = some .settwnd) :
      Step net room c { c with
        pr := c.pr.setTable { c.pr.stb with tc := c.pr.stb.tc.settwnd.2 }, timer := none }
  | recvGetAt {c : Host} (len : ℤ) (h : c.recv = none) :
      Step net room c { c with
        recv := some (.remove (c.pr.stb.cbRecv.getAt len).1 (c.pr.stb.cbRecv.getAt len).2) }
  | recvRemove {c : Host} {readsize : ℤ} {data : List Byte} (hpc : c.recv = some (.remove readsize data)) :
      Step net room c { c with
        pr := c.pr.setTable { c.pr.stb with cbRecv := (c.pr.stb.cbRecv.remove readsize).2 }
        recv := some (.check
          (if (c.pr.stb.cbRecv.remove readsize).1 ≠ readsize then -1 else readsize) data) }
  | recvCheck {c : Host} {readsize : ℤ} {data : List Byte} (hpc : c.recv = some (.check readsize data)) :
      Step net room c { c with
        recv := none
        returned := c.returned ++
          data.take (if c.pr.stb.sockstate = .closeWait then 0 else readsize).toNat }

end Host

/-! ## Two processes -/

structure Hosts where
  left : Host
  right : Host

/-- A thread of one of the two processes makes a step. The network delivers to each of them what the other
one has sent, at any time and any number of times. -/
inductive Hosts.Step (room : Host → RunVars → Prop) : Hosts → Hosts → Prop
  | left {x : Hosts} {c : Host}
      (h : Host.Step (fun _ d => Carries x.right.pr.sent d) room x.left c) :
      Step room x { x with left := c }
  | right {x : Hosts} {c : Host}
      (h : Host.Step (fun _ d => Carries x.left.pr.sent d) room x.right c) :
      Step room x { x with right := c }

end Process
end TcpOverUdp
