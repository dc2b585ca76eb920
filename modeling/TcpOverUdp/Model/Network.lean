import TcpOverUdp.Model.Tou

/-! # Two endpoints and the network between them

One end calls `touSend`, the other `touRecv`; both call `run`, and the timer thread of each makes its
passes. The network holds every datagram that was ever sent and delivers any of them, at any time and
any number of times, with its bytes as they were sent. `accepted` are the bytes that `touSend` took and
`returned` those that `touRecv` gave out, both in order.
-/
namespace TcpOverUdp
open MachineInt
set_option autoImplicit false

namespace Process

/-- The datagram has the bytes of one of the packets. -/
def Carries (sent : List Tx) (d : Datagram) : Prop := ∃ tx ∈ sent, d.bytes = tx.pkt.toString

structure Endpoints where
  sender : Process
  receiver : Process
  accepted : List Byte
  returned : List Byte

/-- Two connected processes whose applications have not called anything yet. -/
def Endpoints.start (sender receiver : Process) : Endpoints :=
  { sender := sender, receiver := receiver, accepted := [], returned := [] }

/-- One operation at one of the ends, each atomic. `C` is a condition on the calls of `run` at the
receiving end. -/
inductive NetStep (C : Process → List Datagram → Prop) : Endpoints → Endpoints → Prop
  /-- The caller's buffer holds the `len` bytes it says it does. -/
  | touSend {x : Endpoints} {now : ℕ} {buf : List Byte} {len : ℤ} {r : ℤ × Process}
      (hlen : s32 len ≤ buf.length) (h : Process.touSend now x.sender buf len = .ok r) :
      NetStep C x { x with sender := r.2, accepted := x.accepted ++ buf.take r.1.toNat }
  | touRecv (x : Endpoints) (len : ℤ) :
      NetStep C x { x with
        receiver := (Process.touRecv x.receiver len).2.2
        returned := x.returned ++
          (Process.touRecv x.receiver len).2.1.take (Process.touRecv x.receiver len).1.toNat }
  | runSender {x : Endpoints} {now : ℕ} {pending : List Datagram} {r : RunRes}
      (hnet : ∀ d ∈ pending, Carries x.receiver.sent d)
      (h : Process.run now x.sender pending = .ok r) : NetStep C x { x with sender := r.pr }
  | runReceiver {x : Endpoints} {now : ℕ} {pending : List Datagram} {r : RunRes}
      (hnet : ∀ d ∈ pending, Carries x.sender.sent d) (hC : C x.receiver pending)
      (h : Process.run now x.receiver pending = .ok r) : NetStep C x { x with receiver := r.pr }
  | delackSender {x : Endpoints} {now : ℕ} {q : Process} (h : timerProcDelack now x.sender = .ok q) :
      NetStep C x { x with sender := q }
  | delackReceiver {x : Endpoints} {now : ℕ} {q : Process} (h : timerProcDelack now x.receiver = .ok q) :
      NetStep C x { x with receiver := q }
  | sndpktSender {x : Endpoints} {now : ℕ} {q : Process} (h : timerProcSndpkt now x.sender = .ok q) :
      NetStep C x { x with sender := q }
  | sndpktReceiver {x : Endpoints} {now : ℕ} {q : Process} (h : timerProcSndpkt now x.receiver = .ok q) :
      NetStep C x { x with receiver := q }

end Process
end TcpOverUdp
