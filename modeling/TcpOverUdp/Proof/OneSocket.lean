import TcpOverUdp.Proof.TimerLifetime
import TcpOverUdp.Proof.Karn

/-! # One socket among the sockets

A `Process` keeps one table and reads it for every node; a `World` reads the table each node points to.
While all nodes are those of one socket the two agree, operation by operation, the ends of the process
included.
-/
namespace TcpOverUdp
open MachineInt Node
set_option autoImplicit false

namespace Timer

/-! ## What the heap functions read -/

theorem clearAckedTop_congr {tb tb' : SockPtr → SockTb} {h : TimerHeap}
    (hs : ∀ n ∈ h.elems, tb n.st = tb' n.st) : clearAckedTop tb h = clearAckedTop tb' h := by
  unfold clearAckedTop
  split
  · rfl
  · rename_i n hn
    rw [hs n (MinHeap.mem_of_top? hn)]

theorem procSndpkt_congr {tb tb' : SockPtr → SockTb} {h : TimerHeap} (now : ℕ)
    (hs : ∀ n ∈ h.elems, tb n.st = tb' n.st) : procSndpkt tb now h = procSndpkt tb' now h := by
  unfold procSndpkt
  rw [clearAckedTop_congr hs]
  simp only
  split
  · rfl
  · rename_i n hn
    rw [hs n ((clearAckedTop_suffix tb' h).subset (MinHeap.mem_of_top? hn))]

theorem rexmitForDupAckLoop_congr {tb tb' : SockPtr → SockTb} (cid tid pid now k : ℕ) {h : TimerHeap}
    (hs : ∀ n ∈ h.elems, tb n.st = tb' n.st) :
    rexmitForDupAckLoop tb cid tid pid now k h = rexmitForDupAckLoop tb' cid tid pid now k h := by
  induction k generalizing h with
  | zero => rfl
  | succ k ih =>
    rw [rexmitForDupAckLoop, rexmitForDupAckLoop]
    split
    · rfl
    · rename_i n hn
      rw [hs n (MinHeap.mem_of_top? hn), ih (fun m hm => hs m (MinHeap.mem_of_mem_pop hm))]

end Timer

/-- The world `w` holds the one socket of the process `p`. -/
structure OneSocket (w : World) (p : Process) : Prop where
  stbq : w.stbq = [p.stp]
  table : w.table p.stp = p.stb
  timerheap : w.timerheap = p.timerheap
  ackdeque : w.ackdeque = p.ackdeque
  heapNodes : ∀ n ∈ p.timerheap.elems, n.st = p.stp
  dequeNodes : ∀ n ∈ p.ackdeque, n.st = p.stp

/-- The world after an operation that left the process `q`. -/
def World.hold (w : World) (q : Process) : World :=
  { w with table := Function.update w.table q.stp q.stb, timerheap := q.timerheap, ackdeque := q.ackdeque }

namespace OneSocket
variable {w : World} {p : Process}

theorem touSocket (sd : ℕ) : OneSocket (World.start.touSocket sd) (Process.init sd World.start.newTable) where
  stbq := rfl
  table := rfl
  timerheap := rfl
  ackdeque := rfl
  heapNodes := fun _ hn => absurd hn List.not_mem_nil
  dequeNodes := fun _ hn => absurd hn List.not_mem_nil

theorem getSocketTable (h : OneSocket w p) : w.getSocketTable p.stb.sockd = some p.stp := by
  unfold World.getSocketTable
  rw [h.stbq]
  exact List.find?_cons_of_pos (by rw [h.table, decide_eq_true_eq])

/-- An operation that keeps the address of the table and takes its nodes from those there were, or makes
them for its own table, leaves one socket again. -/
theorem hold (h : OneSocket w p) {q : Process} (hst : q.stp = p.stp)
    (hheap : ∀ n ∈ q.timerheap.elems, n.st = p.stp) (hdeque : ∀ n ∈ q.ackdeque, n.st = p.stp) :
    OneSocket (w.hold q) q where
  stbq := h.stbq.trans (by rw [hst])
  table := Function.update_self _ _ _
  timerheap := rfl
  ackdeque := rfl
  heapNodes := hst ▸ hheap
  dequeNodes := hst ▸ hdeque

theorem table_eq (h : OneSocket w p) {n : Node} (hn : n ∈ p.timerheap.elems) :
    w.table n.st = p.table n.st := by
  rw [h.heapNodes n hn, h.table]
  rfl

/-! ## The operations -/

/-- `timerCk::proc_delack`. -/
theorem procDelack (h : OneSocket w p) (now : ℕ) :
    w.procDelack now = (p.timerProcDelack now).map w.hold := by
  unfold World.procDelack Process.timerProcDelack
  rw [h.ackdeque, Timer.procOwnDelackLoop_of_one h.dequeNodes, h.table]
  cases Timer.procDelackLoop now p.stb p.ackdeque with
  | error e => rfl
  | ok r =>
    show Except.ok _ = Except.ok (w.hold _)
    unfold World.hold
    rw [← h.timerheap]

theorem procDelack_hold (h : OneSocket w p) {now : ℕ} {q : Process} (hq : p.timerProcDelack now = .ok q) :
    OneSocket (w.hold q) q := by
  obtain ⟨r, hr, hq⟩ := of_bind_ok hq
  cases hq
  have hown : Timer.procOwnDelackLoop now w.table p.ackdeque = _ :=
    Timer.procOwnDelackLoop_of_one h.dequeNodes
  rw [h.table, hr] at hown
  obtain ⟨_, hnodes⟩ := Timer.procOwnDelackLoop_keeps hown
  refine h.hold rfl h.heapNodes ?_
  intro n hn
  obtain ⟨m, hm, _, hst⟩ := hnodes n hn
  rw [hst]
  exact h.dequeNodes m hm

theorem hold_same (h : OneSocket w p) (heap : TimerHeap) :
    w.hold { p with timerheap := heap } = { w with timerheap := heap } := by
  unfold World.hold
  dsimp only
  rw [← h.table, Function.update_eq_self, h.ackdeque]

/-- `timerCk::proc_sndpkt`. -/
theorem procSndpkt (h : OneSocket w p) (now : ℕ) :
    w.procSndpkt now = (p.timerProcSndpkt now).map w.hold := by
  unfold World.procSndpkt Process.timerProcSndpkt
  rw [h.timerheap, Timer.procSndpkt_congr now (fun n hn => h.table_eq hn)]
  cases hr : Timer.procSndpkt p.table now p.timerheap with
  | error e => rfl
  | ok r =>
    obtain ⟨heap, fired⟩ := r
    cases fired with
    | none => exact congrArg Except.ok (h.hold_same heap).symm
    | some fired =>
      obtain ⟨n, hn, rfl⟩ := (Timer.procSndpkt_from hr).2 fired rfl
      show Except.ok _ = Except.ok (w.hold _)
      unfold World.hold World.setTable
      dsimp only
      rw [h.heapNodes n hn, h.table, ← h.ackdeque]

theorem procSndpkt_hold (h : OneSocket w p) {now : ℕ} {q : Process} (hq : p.timerProcSndpkt now = .ok q) :
    OneSocket (w.hold q) q := by
  obtain ⟨r, hr, hq⟩ := of_bind_ok hq
  have hheap : ∀ n ∈ r.1.elems, n.st = p.stp := by
    intro n hn
    obtain ⟨m, hm, hcopy⟩ := (Timer.procSndpkt_from hr).1 n hn
    rw [hcopy.st_eq]
    exact h.heapNodes m hm
  obtain ⟨heap, fired⟩ := r
  cases fired with
  | none =>
    cases hq
    exact h.hold rfl hheap h.dequeNodes
  | some fired =>
    cases hq
    exact h.hold rfl hheap h.dequeNodes

/-- The call of `update_ack` in `processTou::proc_delack`. -/
theorem updateAck (h : OneSocket w p) (state : DelackState) (now : ℕ) :
    w.updateAck p.stb.sockd state now =
      some ((Timer.updateAck p.ackdeque p.stb.sockd timerIdDelack state p.stp p.stb now).map
        fun deque => { w with ackdeque := deque }) := by
  unfold World.updateAck
  rw [h.getSocketTable, Option.map_some, h.table, h.ackdeque, Timer.updateOwnAck_of_one h.dequeNodes, h.table]
  cases Timer.updateAck p.ackdeque p.stb.sockd timerIdDelack state p.stp p.stb now with
  | error e => rfl
  | ok deque => rfl

/-- The call of `tmng.delete_timer` in `run`, where `p` is what `proc_ack` left. -/
theorem deleteTimer (h : OneSocket w p) (una recvT : ℕ) :
    w.deleteTimer p.stb.sockd una recvT =
      (Timer.deleteTimer p.stb.sockd timerIdSndpkt una p.timerheap).map fun cleared =>
        w.hold { p with
          stb := match cleared.2 with
            | none => p.stb
            | some nt => Timer.calRto p.stb nt recvT
          timerheap := cleared.1 } := by
  unfold World.deleteTimer
  rw [h.timerheap]
  cases hr : Timer.deleteTimer p.stb.sockd timerIdSndpkt una p.timerheap with
  | error e => rfl
  | ok r =>
    obtain ⟨heap, sample⟩ := r
    cases sample with
    | none => exact congrArg Except.ok (h.hold_same heap).symm
    | some nt =>
      have hn := Timer.deleteTimer_sample hr
      show Except.ok _ = Except.ok (w.hold _)
      unfold World.hold World.setTable
      dsimp only
      rw [h.heapNodes nt hn, h.table, ← h.ackdeque]

theorem rexmitForDupAck (h : OneSocket w p) (pid now : ℕ) :
    w.rexmitForDupAck p.stb.sockd pid now =
      (Timer.rexmitForDupAck p.table p.stb.sockd timerIdSndpkt pid now p.timerheap).map
        fun rex => w.hold { p with timerheap := rex.2.1 } := by
  unfold World.rexmitForDupAck Timer.rexmitForDupAck
  rw [h.timerheap, Timer.rexmitForDupAckLoop_congr _ _ _ _ _ (fun n hn => h.table_eq hn)]
  cases Timer.rexmitForDupAckLoop p.table p.stb.sockd timerIdSndpkt pid now p.timerheap.size p.timerheap with
  | error e => rfl
  | ok rex => exact congrArg Except.ok (h.hold_same _).symm

end OneSocket
end TcpOverUdp
