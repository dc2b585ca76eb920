import TcpOverUdp.Foundations.FuelLoop
import TcpOverUdp.Foundations.ByteWords
import TcpOverUdp.Foundations.MachineInt

/-! # Constants and states shared by the library (`tou_comm.h`, `tou_congestion.h`, `timer.h`)

Each family of `#define`s that one variable ranges over is an enumeration. `Halt` is how a call
can end the process instead of returning: an `exit(1)`, a failed `assert`, or, for the loops of
this model alone, fuel that did not suffice.
-/
namespace TcpOverUdp
set_option autoImplicit false

abbrev touMss : ℕ := 1456
abbrev touSmss : ℕ := 1456
abbrev touMaxSsthresh : ℕ := 2147483647
abbrev touInitTimeo : ℕ := 3000
abbrev touInitRtoBeta : ℕ := 2
abbrev tcpRexmtThresh : ℤ := 3
abbrev touMaxCircularBuf : ℕ := 6291456
abbrev recvBufSize : ℕ := 2000
abbrev minSendSize : ℤ := 1400
abbrev timerDelayedAckTime : ℕ := 200
abbrev timerPromptAckTime : ℕ := 500
abbrev timerIdDelack : ℕ := 10
abbrev timerIdSndpkt : ℕ := 20
abbrev magicCookie : ℕ := 0x7194B32E

/-- `TOUS_*`, the states of `sockstate`. -/
inductive SockState where
  | closed | listen | synSent | synReceived | established | closeWait | finWait1 | closing
  | lastAck | finWait2 | timeWait
  deriving DecidableEq, Repr

/-- `PROCESS_*`, the states of the automaton in `processTou::run`. -/
inductive ProcState where
  | procEnd | procSyn | procFin | ackWithoutData | ackWithDataMatchExpectedSeq
  | ackWithDataLessExpectedSeq | ackWithDataMoreExpectedSeq | ackDatarecsuccSendbackAck
  | ackDatarecsuccNoSendbackAck | getPkt | clearGetPkt | pktRecovery
  deriving DecidableEq, Repr

/-- The two values `runstate` is ever given. -/
inductive RunState where
  | getPkt | pktRecovery
  deriving DecidableEq, Repr

def RunState.toProcState : RunState → ProcState
  | .getPkt => .getPkt
  | .pktRecovery => .pktRecovery

/-- `TOUS_DELACK_*`. -/
inductive DelackState where
  | err | xmit | que | quexmit | expxmit | immedUpdateXmit
  deriving DecidableEq, Repr

/-- `TOU_CC_*`. -/
inductive CcState where
  | err | ss | ca | fr
  deriving DecidableEq, Repr

/-- What `proc_ack` answers: `ACK_BIGTHAN_UNA`, `ACK_EQUALTO_UNA`, `ACK_SMLTHAN_UNA`. -/
inductive AckOrder where
  | bigthanUna | equaltoUna | smlthanUna
  deriving DecidableEq, Repr

/-- The calls of `exit(1)`, by the function they stand in. -/
inductive ExitSite where
  | processGetPktState | procDelack | procDelackXmit | updateAck | procClearAckedpkt
  | rexmitForDupAck | postponeTimer
  deriving DecidableEq, Repr

/-- The calls of `assert`, by the function they stand in. -/
inductive AssertSite where
  | circBufInsert | doProcPktRec | sendack | postponeTimer | rcvbuf
  deriving DecidableEq, Repr

inductive Halt where
  | exit (site : ExitSite)
  | assertFail (site : AssertSite)
  /-- A packet pointer is read before any packet was assigned to it. -/
  | unassignedRead
  /-- `std::string(const char *, size_t)` throws: the length is a converted negative number. -/
  | lengthError
  | outOfFuel
  deriving DecidableEq, Repr

/-- An IPv4 address and port. -/
structure Addr where
  ip : ℕ
  port : ℕ
  deriving DecidableEq, Repr

/-- A datagram as `recvfrom` delivers it. -/
structure Datagram where
  src : Addr
  bytes : List Byte
  deriving DecidableEq, Repr

end TcpOverUdp
