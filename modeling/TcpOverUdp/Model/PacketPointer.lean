import TcpOverUdp.Foundations.PointerUse
import TcpOverUdp.Model.ProcessTou

/-! # What `processTou::run` does with its pointer `tp`

`tp` is a local variable without an initial value. `tpUses` lists what one turn of the automaton does
with it: `run_recvfrom` assigns it a new packet, a state that handles the packet reads it, and
`PROCESS_CLEAR_GET_PKT` and the end of `run` delete it. One read stands for all of a turn.
-/
namespace TcpOverUdp
set_option autoImplicit false

namespace Process

/-- `run_recvfrom`, and `processGetPktState` of the packet if there is one. -/
def recvUses (s : RunSt) : List PtrUse :=
  match runRecvfrom s with
  | .next _ => [.assign, .read]
  | .done _ => []

def tpUses (s : RunSt) : List PtrUse :=
  match s.state with
  | .procEnd => [.delete]
  | .getPkt => recvUses s
  | .clearGetPkt => .delete :: recvUses s
  | .procSyn | .ackWithoutData | .ackWithDataMatchExpectedSeq | .ackWithDataLessExpectedSeq
  | .ackWithDataMoreExpectedSeq => [.read]
  | .procFin | .pktRecovery | .ackDatarecsuccSendbackAck | .ackDatarecsuccNoSendbackAck => []

def runUsesLoop (now : ℕ) : ℕ → RunSt → List PtrUse
  | 0, _ => []
  | k + 1, s =>
    tpUses s ++ match runStep now s with
      | .ok (.next s') => runUsesLoop now k s'
      | _ => []

/-- The uses of `tp` in one call of `run`, up to its return or the end of the process. -/
def runUses (now : ℕ) (p : Process) (pending : List Datagram) : List PtrUse :=
  runUsesLoop now (runFuel pending) (runSt p pending)

end Process
end TcpOverUdp
