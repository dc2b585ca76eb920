import TcpOverUdp.Model.Close

/-! # Several sockets (`tou_sock_table.cpp`, `tou.cpp`, `timer_mng.cpp`, `timer.cpp`)

The queue `stbq` of table pointers, the tables in memory and the two timer queues, which all sockets
share. Tables are never freed, so `new` answers an address that was not used before. A function that
gets `NULL` from `getSocketTable` and reads through it answers `none`.
-/
namespace TcpOverUdp
set_option autoImplicit false

namespace Timer

/-- `get_ack_node` and the assignments through the pointer it returns, which read the node's own
table; `none` for `NULL`. -/
def refreshOwnAckNode (tb : SockPtr → SockTb) (cid tid curT : ℕ) : List Node → Option (List Node)
  | [] => none
  | n :: rest =>
    if n.cId = cid ∧ n.tId = tid then some (refreshAck n (tb n.st) curT :: rest)
    else (refreshOwnAckNode tb cid tid curT rest).map (n :: ·)

/-- `timerMng::update_ack(cid, tid, state, st)`. -/
def updateOwnAck (tb : SockPtr → SockTb) (deque : List Node) (cid tid : ℕ) (state : DelackState)
    (st : SockPtr) (curT : ℕ) : Except Halt (List Node) :=
  match refreshOwnAckNode tb cid tid curT deque with
  | some deque' => .ok deque'
  | none =>
    if state = .xmit then .ok (addAck deque cid tid st (tb st) curT) else .error (.exit .updateAck)

/-- The loop of `timerCk::proc_delack`: each node works on its own table. -/
def procOwnDelackLoop (t : ℕ) :
    (SockPtr → SockTb) → List Node → Except Halt ((SockPtr → SockTb) × List Node × List Tx)
  | tb, [] => .ok (tb, [], [])
  | tb, n :: rest => do
    let (stb1, n1, tx1) ← procDelackXmit (tb n.st) n t
    let (tb2, rest2, tx2) ← procOwnDelackLoop t (Function.update tb n.st stb1) rest
    return (tb2, n1 :: rest2, tx1 ++ tx2)

end Timer

structure World where
  stbq : List SockPtr
  table : SockPtr → SockTb
  /-- The address of the next `new sockTb`. -/
  newTable : SockPtr
  /-- The descriptors that are open. -/
  openFds : List ℕ
  timerheap : TimerHeap
  ackdeque : List Node

namespace World

def start : World :=
  { stbq := [], table := fun _ => SockTb.init 0, newTable := 0, openFds := [], timerheap := MinHeap.empty
    ackdeque := [] }

def setTable (w : World) (p : SockPtr) (stb : SockTb) : World :=
  { w with table := Function.update w.table p stb }

/-! ## The queue of tables -/

def getSocketTable (w : World) (sockfd : ℕ) : Option SockPtr :=
  w.stbq.find? fun p => (w.table p).sockd = sockfd

def addSocketTable (w : World) (sockfd : ℕ) : World :=
  { w with
    stbq := w.stbq ++ [w.newTable]
    table := Function.update w.table w.newTable (SockTb.init sockfd)
    newTable := w.newTable + 1 }

def delSocketTable (w : World) (sd : ℕ) : World :=
  { w with stbq := w.stbq.eraseP fun p => (w.table p).sockd = sd }

/-! ## Opening and closing -/

/-- What `sockd` holds after a `socket` that failed: the bits of -1. -/
abbrev invalidFd : ℕ := 4294967295

/-- `touSocket`, when `socket` answers `sd`. -/
def touSocket (w : World) (sd : ℕ) : World :=
  let w := w.addSocketTable sd
  { w with openFds := sd :: w.openFds }

/-- `touSocket`, when `socket` fails: the table is added all the same. -/
def touSocketFailed (w : World) : World := w.addSocketTable invalidFd

/-- `close`. -/
def closeFd (w : World) (sd : ℕ) : World := { w with openFds := w.openFds.filter (· ≠ sd) }

/-- What is left by a close of `sd` whose table is at `p`. `returned` says whether its `recvfrom`
came back; the server's branch closes the descriptor and keeps the table. -/
def afterClosing (w : World) (sd : ℕ) (p : SockPtr) (c : Closing) (returned : Bool) : World :=
  let w := w.setTable p c.stb
  if c.deleted then (w.delSocketTable sd).closeFd sd
  else if returned then w.closeFd sd
  else w

def closerDothis (w : World) (sd : ℕ) (tp : ObjPkg) (wild : Addr) (received : Option (List Byte)) :
    Option World :=
  (w.getSocketTable sd).map fun p =>
    w.afterClosing sd p (Process.closerDothis (w.table p) tp wild received) received.isSome

def touClose (w : World) (sd : ℕ) (own tp : ObjPkg) (wild : Addr) (received : Option (List Byte)) :
    Option World :=
  (w.getSocketTable sd).map fun p =>
    w.afterClosing sd p (Process.touClose (w.table p) own tp wild received) received.isSome

/-! ## Data and its timers -/

/-- The call of `tmng.add` in `send`. -/
def addTimer (w : World) (sockfd pid : ℕ) (payload : List Byte) (now : ℕ) : Option World :=
  (w.getSocketTable sockfd).map fun p =>
    { w with timerheap :=
        Timer.add w.timerheap sockfd timerIdSndpkt pid p (w.table p) payload now }

/-- The call of `tmng.update_ack` in `processTou::proc_delack`, with the table of `run`'s socket. -/
def updateAck (w : World) (sockfd : ℕ) (state : DelackState) (now : ℕ) : Option (Except Halt World) :=
  (w.getSocketTable sockfd).map fun p => do
    let deque ← Timer.updateOwnAck w.table w.ackdeque (w.table p).sockd timerIdDelack state p now
    return { w with ackdeque := deque }

/-- `timerCk::proc_delack`. -/
def procDelack (w : World) (now : ℕ) : Except Halt World := do
  let r ← Timer.procOwnDelackLoop now w.table w.ackdeque
  return { w with table := r.1, ackdeque := r.2.1 }

/-- `timerCk::proc_sndpkt`. -/
def procSndpkt (w : World) (now : ℕ) : Except Halt World := do
  let r ← Timer.procSndpkt w.table now w.timerheap
  let w := { w with timerheap := r.1 }
  match r.2 with
  | none => return w
  | some fired =>
    return w.setTable fired.1 { w.table fired.1 with tc := (w.table fired.1).tc.settwnd.2 }

/-- The call of `tmng.delete_timer` in `run`. -/
def deleteTimer (w : World) (sockfd una recvT : ℕ) : Except Halt World := do
  let r ← Timer.deleteTimer sockfd timerIdSndpkt una w.timerheap
  let w := { w with timerheap := r.1 }
  match r.2 with
  | none => return w
  | some nt => return w.setTable nt.st (Timer.calRto (w.table nt.st) nt recvT)

/-- The call of `tmng.rexmit_for_dup_ack` in `run`. -/
def rexmitForDupAck (w : World) (sockfd pid now : ℕ) : Except Halt World := do
  let r ← Timer.rexmitForDupAck w.table sockfd timerIdSndpkt pid now w.timerheap
  return { w with timerheap := r.2.1 }

end World
end TcpOverUdp
