import TcpOverUdp.Model.Locks

/-! # No deadlock

The mutexes are taken in the order of `rank`, but for two places. `processGetPktState` takes
`stb_tc_ack_mtx` inside `stb_mtx`; whoever holds the one and waits for something else is inside `run` as
well. `proc_delack` of `processTou` takes `ack_deque_mtx` inside `stb_tc_ack_mtx`; there `ack_mtx` keeps
it apart from the timer thread.
-/
namespace TcpOverUdp
open Mutex
set_option autoImplicit false

namespace Locks

def rank : Mutex → ℕ
  | runTMtx => 0
  | sendMtx | ackMtx | stbMinhpRecvMtx => 1
  | timerHeapMtx | ackDequeMtx => 2
  | stbTcAckMtx => 3
  | stbMtx => 4
  | sscamutex | stbqMutex | stbCbRecvMtx => 5
  | cbMtxRecv | cbMtxSend => 6

/-- The places where a thread of the process can wait. -/
def allSites : List (List Mutex × Mutex) := doit.sites [] ++ application.sites []

theorem sites_threads {ι : Type} (i : Option ι) : (threads ι i).sites [] ⊆ allSites := by
  cases i with
  | none => exact List.subset_append_left _ _
  | some i => exact List.subset_append_right _ _

/-- No function takes a mutex that its thread holds. -/
theorem not_recursive : ∀ p ∈ allSites, p.2 ∉ p.1 := by decide +kernel

/-- Each of the two pairs is taken in both orders. -/
example : ([stbMtx, runTMtx], stbTcAckMtx) ∈ allSites ∧
    ([stbTcAckMtx, ackMtx, runTMtx], stbMtx) ∈ allSites ∧
    ([stbTcAckMtx, ackMtx, runTMtx], ackDequeMtx) ∈ allSites ∧
    ([ackDequeMtx, ackMtx], stbTcAckMtx) ∈ allSites := by decide +kernel

/-- The two places that are out of order. -/
theorem out_of_order : ∀ p ∈ allSites, (∀ m ∈ p.1, rank m < rank p.2) ∨
    p = ([stbMtx, runTMtx], stbTcAckMtx) ∨ p = ([stbTcAckMtx, ackMtx, runTMtx], ackDequeMtx) := by
  decide +kernel

/-- A thread that waits with `stb_tc_ack_mtx` in its hold is in `proc_delack`, called by `run`. -/
theorem wait_with_stbTcAck : ∀ q ∈ allSites, stbTcAckMtx ∈ q.1 → runTMtx ∈ q.1 := by decide +kernel

/-- A thread that waits with `ack_deque_mtx` in its hold is the timer's, in its `proc_delack`. -/
theorem wait_with_ackDeque : ∀ q ∈ allSites, ackDequeMtx ∈ q.1 → ackMtx ∈ q.1 := by decide +kernel

theorem gated : ∀ p ∈ allSites, Threads.Gated rank allSites p := by
  intro p hp
  rcases out_of_order p hp with hlt | rfl | rfl
  · exact Or.inl hlt
  · exact Or.inr fun q hq hm => ⟨runTMtx, by decide, wait_with_stbTcAck q hq hm⟩
  · exact Or.inr fun q hq hm => ⟨ackMtx, by decide, wait_with_ackDeque q hq hm⟩

/-- In no state of any interleaving of the timer thread and the application threads do threads wait for
each other in a cycle, or one for itself. -/
theorem deadlock_free {ι : Type} {s : Option ι → Thread Mutex}
    (h : Threads.Reaches (Threads.start (threads ι)) s) (i : Option ι) :
    ¬ Relation.TransGen (Threads.WaitsFor s) i i := by
  refine Threads.no_wait_cycle rank ?_ ?_ h i
  · intro j p hp
    exact not_recursive p (sites_threads j hp)
  · intro j k p hp
    exact (gated p (sites_threads j hp)).imp_right fun hall q hq => hall q (sites_threads k hq)

/-- One application thread is inside `run` and another one waits for `run_t_mtx`. -/
theorem deadlock_free_waiting : ∃ s, Threads.Reaches (Threads.start (threads Bool)) s ∧
    Threads.WaitsFor s (some true) (some false) ∧
    ∀ i, ¬ Relation.TransGen (Threads.WaitsFor s) i i := by
  obtain ⟨body, hcall⟩ : ∃ body, Relation.ReflTransGen (fun t u => Thread.Step t .silent u)
      [.run application] [.run (.lock runTMtx body), .run application] :=
    ⟨_, (((Relation.ReflTransGen.refl.tail .again).tail .right).tail .right).tail .left⟩
  have hstart : Threads.Reaches (Threads.start (threads Bool)) _ := .refl
  have h1 := hstart.silent (some false) hcall
  have hfree : ∀ m, LockAct.acquire runTMtx = .acquire m → ∀ j, m ∉ (Function.update
      (Threads.start (threads Bool)) (some false) [.run (.lock runTMtx body), .run application] j).holding := by
    intro m _ j
    match j with
    | none | some true | some false => exact List.not_mem_nil
  have h2 := h1.step (some false) (u := [.run body, .unlock runTMtx, .run application])
    (by rw [Function.update_self]; exact .take) hfree
  have h3 := h2.silent (some true) (u := [.run (.lock runTMtx body), .run application]) hcall
  exact ⟨_, h3, ⟨runTMtx, rfl, by simp [Thread.holding]⟩, deadlock_free h3⟩

end Locks
end TcpOverUdp
