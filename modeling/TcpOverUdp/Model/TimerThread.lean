import TcpOverUdp.Model.Tou

/-! # A pass of the timer thread (`timerCk::doit`)

`doit` waits, sends the delayed ACKs that are due, and if there are timers drains the socket and looks for an
expired one. It passes `timerheap.top().c_id` to each call of `run`: the queue is read again for every call,
and `top()` of an empty queue is not defined.
-/
namespace TcpOverUdp
open MachineInt
set_option autoImplicit false

namespace Process

/-- What ends the process in `doit`: a function it calls, `top()` of an empty queue, or `run` for a descriptor
without a table. -/
inductive DoitHalt where
  | within (h : Halt)
  | emptyTop
  | noTable
  deriving DecidableEq, Repr

/-- One turn of the loop that drains the socket. -/
def doitTurn (clock : ℕ → ℕ) (s : DrainSt) : Except DoitHalt (Turn DrainSt DrainSt) :=
  match s.pr.timerheap.top? with
  | none => .error .emptyTop
  | some top =>
    if top.cId ≠ s.pr.stb.sockd then .error .noTable
    else
      match run (clock s.turn) s.pr s.pending with
      | .error e => .error (.within e)
      | .ok r =>
        let s' := { turn := s.turn + 1, pr := r.pr, pending := r.pending }
        if r.rv ≥ 0 then .ok (.next s') else .ok (.done s')

/-- One pass of `doit`, from `wait` to `wait`, with at most `fuel` calls of `run`. `delackT` and `sndpktT` are the
times that `proc_delack` and `proc_sndpkt` read. -/
def doitPass (delackT : ℕ) (clock : ℕ → ℕ) (sndpktT fuel : ℕ) (p : Process) (pending : List Datagram) :
    Except DoitHalt (Process × List Datagram) :=
  match (if p.ackdeque.isEmpty then .ok p else timerProcDelack delackT p) with
  | .error e => .error (.within e)
  | .ok p =>
    if p.timerheap.isEmpty then .ok (p, pending)
    else
      match fuelLoop (.within .outOfFuel) (doitTurn clock) fuel { turn := 0, pr := p, pending := pending } with
      | .error e => .error e
      | .ok s =>
        match timerProcSndpkt sndpktT s.pr with
        | .error e => .error (.within e)
        | .ok q => .ok (q, s.pending)

end Process
end TcpOverUdp
