import TcpOverUdp.Foundations.QueueLoop
import TcpOverUdp.Model.ProcessTou

/-! # What `processTou::run` does with the datagrams

The calls of `recvfrom` that return a datagram and the calls of `processGetPktState`, in the order in
which one call of `run` makes them.
-/
namespace TcpOverUdp
set_option autoImplicit false

inductive RunEvent where
  | take (d : Datagram)
  | classify (tp : TouPkg)

namespace Process

/-- `run_recvfrom`, and `processGetPktState` of the packet if there is one. -/
def recvEvents (s : RunSt) : List RunEvent :=
  match s.pending with
  | [] => []
  | d :: _ =>
    .take d :: match runRecvfrom s with
      | .next s' => (s'.tp.map RunEvent.classify).toList
      | .done _ => []

def stepEvents (s : RunSt) : List RunEvent :=
  match s.state with
  | .getPkt | .clearGetPkt => recvEvents s
  | .procEnd | .procSyn | .procFin | .ackWithoutData | .pktRecovery | .ackWithDataMatchExpectedSeq
  | .ackWithDataLessExpectedSeq | .ackWithDataMoreExpectedSeq | .ackDatarecsuccSendbackAck
  | .ackDatarecsuccNoSendbackAck => []

/-- The events of one call of `run`, up to its return or the end of the process. -/
def runEvents (now : ℕ) (p : Process) (pending : List Datagram) : List RunEvent :=
  loopLog (runStep now) stepEvents (runFuel pending) (runSt p pending)

end Process
end TcpOverUdp
