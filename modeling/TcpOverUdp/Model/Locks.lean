import TcpOverUdp.Foundations.ScopedLocks

/-! # The mutexes and where they are taken

For one socket and its `processTou`. Each definition is what the source function of its name does with
mutexes, every `scoped_lock` being held to the end of its block; what the function finds in a packet or
in a buffer is a choice. Functions that take no mutex (`do_proc_pkt_rec`'s tests, `sendpkt`, `log`) do
not appear, and a branch that ends in `exit` is left out.
-/
namespace TcpOverUdp
set_option autoImplicit false

inductive Mutex where
  | runTMtx | sendMtx | ackMtx | stbMinhpRecvMtx | timerHeapMtx | ackDequeMtx | stbTcAckMtx | stbMtx
  | sscamutex | stbqMutex | stbCbRecvMtx
  /-- `cb_mtx` of `cb_recv` and of `cb_send`. -/
  | cbMtxRecv | cbMtxSend
  deriving DecidableEq, Repr

namespace Locks
open Code Mutex

/-! ## `tou_sock_table.cpp` and `tou_ss_ca.cpp` -/

def getSocketTable : Code Mutex := touch stbqMutex

def setSocketTable : Code Mutex := block [getSocketTable, touch stbMtx]

def setSocketState : Code Mutex := block [getSocketTable, touch stbMtx]

def setTCBRcv : Code Mutex := block [getSocketTable, touch stbMtx]

def setCbData : Code Mutex := block [getSocketTable, lock stbCbRecvMtx (touch cbMtxRecv)]

def pushHpRecvBuf : Code Mutex := touch stbMinhpRecvMtx

def ckNumDupack : Code Mutex := touch stbMtx

def addwnd : Code Mutex := touch sscamutex

def getwnd : Code Mutex := touch sscamutex

def setdwnd : Code Mutex := touch sscamutex

def settwnd : Code Mutex := touch sscamutex

/-! ## `timer_mng.cpp` and `timer.cpp` -/

/-- `timerMng::add`. -/
def addTimer : Code Mutex := touch timerHeapMtx

/-- `timerMng::update_ack`. -/
def updateAck : Code Mutex := touch ackDequeMtx

def deleteTimer : Code Mutex := touch timerHeapMtx

def rexmitForDupAck : Code Mutex := touch timerHeapMtx

def timerheapEmpty : Code Mutex := touch timerHeapMtx

def ackdequeEmpty : Code Mutex := touch ackDequeMtx

def procDelackXmit : Code Mutex := touch stbTcAckMtx

/-- `timerCk::proc_delack`. -/
def timerProcDelack : Code Mutex := lock ackMtx (lock ackDequeMtx (loop procDelackXmit))

/-- `proc_clear_ackedpkt()`, which returns at once if the heap is empty. -/
def clearAckedTop : Code Mutex := opt (touch stbMtx)

def procSndpkt : Code Mutex := lock timerHeapMtx (block [clearAckedTop, opt settwnd])

/-! ## `processtou.cpp` -/

def procAck : Code Mutex := lock stbMtx (opt addwnd)

def processGetPktState : Code Mutex := lock stbMtx (touch stbTcAckMtx)

def setAckState : Code Mutex := touch stbTcAckMtx

/-- Both `gen_pkt`. -/
def genPkt : Code Mutex := touch stbMtx

def putcircbuf : Code Mutex := setCbData

def popsndq : Code Mutex := block [touch cbMtxSend, opt (touch cbMtxSend)]

def getSendSize : Code Mutex := getwnd

/-- The loop of `send` ends at its condition or, after `getSendSize`, at a `break`. -/
def processSend : Code Mutex :=
  lock sendMtx (block [getSocketTable, getSendSize, touch cbMtxSend,
    loop (block [touch cbMtxSend, getSendSize, popsndq, genPkt, addTimer]),
    touch cbMtxSend, opt getSendSize])

/-- `processTou::proc_delack`. -/
def procDelack : Code Mutex :=
  lock ackMtx (lock stbTcAckMtx (oneOf [block [genPkt, updateAck], updateAck]))

/-- The last `putcircbuf` is one that found no room. -/
def doProcPktRec : Code Mutex := block [loop (block [putcircbuf, setTCBRcv]), opt putcircbuf]

def procPktRec : Code Mutex := lock stbMinhpRecvMtx (opt (block [doProcPktRec, setAckState]))

/-! The states of `run`, each with the states it always goes on to. -/

def processSyn : Code Mutex := block [setSocketTable, setSocketState, setTCBRcv]

def processFin : Code Mutex := setSocketState

def processAckWithoutData : Code Mutex :=
  block [procAck, oneOf [deleteTimer, skip, block [setdwnd, ckNumDupack, opt rexmitForDupAck]], processSend]

/-- `PROCESS_ACK_DATARECSUCC_NO_SENDBACK_ACK`: `cb_recv` is looked at if a datagram is pending. -/
def processNoSendbackAck : Code Mutex := opt (touch cbMtxRecv)

def processSendbackAck : Code Mutex := block [procDelack, processNoSendbackAck]

def processPktRecovery : Code Mutex :=
  block [procPktRec, oneOf [processSendbackAck, processNoSendbackAck]]

def processMatchExpectedSeq : Code Mutex := block [setTCBRcv, putcircbuf, processPktRecovery]

def processLessExpectedSeq : Code Mutex := opt (touch cbMtxRecv)

def processMoreExpectedSeq : Code Mutex := block [pushHpRecvBuf, setAckState, processSendbackAck]

/-- `run`, which gives up where it does not get `run_t_mtx`. A recovery may be left from the call
before; data packets are taken one after another; a packet of another kind is the last one. -/
def run : Code Mutex :=
  opt (lock runTMtx (block [getSocketTable, opt processPktRecovery,
    loop (block [processGetPktState,
      oneOf [processMatchExpectedSeq, processLessExpectedSeq, processMoreExpectedSeq]]),
    opt (block [processGetPktState, oneOf [processSyn, processFin, processAckWithoutData]])]))

/-! ## `tou.cpp` and the threads -/

def pushsndq : Code Mutex := block [getSocketTable, opt (touch cbMtxSend)]

def touSend : Code Mutex := block [pushsndq, processSend]

/-- `getAt` and `remove`. -/
def touRecv : Code Mutex := block [getSocketTable, opt (block [touch cbMtxRecv, touch cbMtxRecv])]

/-- The timer thread: one turn looks for delayed ACKs and, if there are timers, calls `run` at least
once. -/
def doit : Code Mutex :=
  loop (block [ackdequeEmpty, opt timerProcDelack, timerheapEmpty, opt (block [run, loop run, procSndpkt])])

def application : Code Mutex := loop (oneOf [touSend, touRecv, run])

/-- The timer thread and any number of application threads. -/
def threads (ι : Type) : Option ι → Code Mutex
  | none => doit
  | some _ => application

end Locks
end TcpOverUdp
