import TcpOverUdp.Proof.PureAck
import TcpOverUdp.Proof.Recovery

/-! # Where a call of `run` can end the process

The calls of `exit` and `assert` behind each state of the automaton. No call of `run` runs out of
fuel, so one that does not return ended at one of these (`run_halts`).
-/
namespace TcpOverUdp
open MachineInt
set_option autoImplicit false

namespace Timer

theorem deleteTimer_error {cid tid una : ℕ} {h : TimerHeap} {e : Halt}
    (he : deleteTimer cid tid una h = .error e) : e = .exit .procClearAckedpkt := by
  unfold deleteTimer at he
  generalize h.size = k at he
  induction k generalizing h with
  | zero => cases he
  | succ k ih =>
    rw [procClearAckedpktLoop] at he
    split at he
    · cases he
    · split_ifs at he
      · exact ih he
      · cases he
        rfl

/-- `rexmit_for_dup_ack` exits on an armed segment that starts above the number, by its own count. -/
theorem rexmitForDupAck_error {tb : SockPtr → SockTb} {cid tid pid now : ℕ} {h : TimerHeap} {e : Halt}
    (he : rexmitForDupAck tb cid tid pid now h = .error e) :
    e = .exit .rexmitForDupAck ∧ ∃ n ∈ h.elems, n.cId = cid → n.tId = tid →
      pid < u32 ((n.pId : ℤ) - n.payloadSize) := by
  unfold rexmitForDupAck at he
  generalize h.size = k at he
  induction k generalizing h with
  | zero => cases he
  | succ k ih =>
    rw [rexmitForDupAckLoop] at he
    split at he
    · cases he
    · rename_i n hn
      simp only at he
      split_ifs at he with h1 h2
      · obtain ⟨hex, m, hm, hpid⟩ := ih he
        exact ⟨hex, m, MinHeap.mem_of_mem_pop hm, hpid⟩
      · cases he
        refine ⟨rfl, n, MinHeap.mem_of_top? hn, ?_⟩
        intro hc ht
        have hne : u32 ((n.pId : ℤ) - n.payloadSize) ≠ pid := fun heq => h1 ⟨hc, ht, heq⟩
        have hge : ¬ u32 ((n.pId : ℤ) - n.payloadSize) < pid := fun hlt => h2 ⟨hc, ht, hlt⟩
        omega

theorem updateAck_error {deque : List Node} {cid tid : ℕ} {state : DelackState} {st : SockPtr}
    {stb : SockTb} {curT : ℕ} {e : Halt} (he : updateAck deque cid tid state st stb curT = .error e) :
    e = .exit .updateAck ∧ state ≠ .xmit ∧ refreshAckNode cid tid stb curT deque = none := by
  unfold updateAck at he
  split at he
  · cases he
  · rename_i hnone
    split at he
    · cases he
    · cases he
      exact ⟨rfl, ‹_›, hnone⟩

end Timer

/-- How a computation ended the process, if it did. -/
def haltOf {α : Type} : Except Halt α → Option Halt
  | .error e => some e
  | .ok _ => none

theorem haltOf_eq_some {α : Type} {x : Except Halt α} {e : Halt} : haltOf x = some e ↔ x = .error e := by
  cases x <;> simp [haltOf]

namespace Process

theorem handleAck_error {now : ℕ} {p : Process} {tp : TouPkg} {e : Halt}
    (h : handleAck now p tp = .error e) :
    e = .exit .procClearAckedpkt ∧ Timer.deleteTimer p.stb.sockd timerIdSndpkt tp.t.ackSeq p.timerheap =
        .error e ∨
      e = .exit .rexmitForDupAck ∧ tp.t.ackSeq = p.stb.tc.sndUna ∧ ∃ n ∈ p.timerheap.elems,
        n.cId = p.stb.sockd → n.tId = timerIdSndpkt → tp.t.ackSeq < u32 ((n.pId : ℤ) - n.payloadSize) := by
  unfold handleAck procAck at h
  by_cases hgt : tp.t.ackSeq > p.stb.tc.sndUna
  · simp only [if_pos hgt] at h
    rcases of_bind_error h with h | ⟨_, _, h⟩
    · exact Or.inl ⟨Timer.deleteTimer_error h, h⟩
    · cases h
  · by_cases heq : tp.t.ackSeq = p.stb.tc.sndUna
    · simp only [if_neg hgt, if_pos heq] at h
      split at h
      · rcases of_bind_error h with h | ⟨_, _, h⟩
        · exact Or.inr ⟨(Timer.rexmitForDupAck_error h).1, heq, (Timer.rexmitForDupAck_error h).2⟩
        · cases h
      · cases h
    · simp only [if_neg hgt, if_neg heq] at h
      cases h

theorem procDelack_error {now : ℕ} {p : Process} {e : Halt} (h : procDelack now p = .error e) :
    e = .exit .procDelack ∧ p.stb.tc.tDelackState = .err ∨
      e = .exit .updateAck ∧ p.stb.tc.tDelackState = .que ∧
        Timer.refreshAckNode p.stb.sockd timerIdDelack p.stb now p.ackdeque = none := by
  unfold procDelack at h
  cases hst : p.stb.tc.tDelackState with
  | err =>
    rw [hst] at h
    cases h
    exact Or.inl ⟨rfl, rfl⟩
  | que =>
    rw [hst] at h
    rcases of_bind_error h with h | ⟨_, _, h⟩
    · obtain ⟨he, _, hnone⟩ := Timer.updateAck_error h
      exact Or.inr ⟨he, rfl, hnone⟩
    · cases h
  | xmit | quexmit | expxmit | immedUpdateXmit =>
    rw [hst] at h
    rcases of_bind_error h with h | ⟨_, _, h⟩
    · exact absurd rfl (Timer.updateAck_error h).2.1
    · cases h

theorem RunHalt.ne_outOfFuel {D : Datagram → Prop} {now : ℕ} {s : RunSt} {e : Halt}
    (h : RunHalt D now s e) : e ≠ .outOfFuel := by
  cases h with
  | classify => simp
  | ack _ _ h => rcases handleAck_error h with ⟨rfl, _⟩ | ⟨rfl, _⟩ <;> simp
  | recovery _ h => rw [procPktRec_error h]; simp
  | delack _ h => rcases procDelack_error h with ⟨rfl, _⟩ | ⟨rfl, _⟩ <;> simp

variable {D : Datagram → Prop} {now : ℕ} {p : Process} {pending : List Datagram}

/-- The fuel of `run` is enough. -/
theorem run_ne_outOfFuel (now : ℕ) (p : Process) (pending : List Datagram) :
    run now p pending ≠ .error .outOfFuel := by
  have hstart : FsmOk (fun _ => True) (runSt p pending) := fsmOk_start p (fun _ _ => trivial)
  unfold run
  refine fuelLoop_ne_stuck (FsmOk fun _ => True) turnsLeft hstart ?_ ?_ ?_
  · intro a b ha hab
    have ht := runStep_turn ha hab
    exact ⟨ht.2, ht.1.turnsLeft_lt⟩
  · intro a ha hstuck
    exact (runStep_halt ha hstuck).ne_outOfFuel rfl
  · have hrank : rank (runSt p pending).state ≤ 4 := by
      cases (runSt p pending).state <;> decide
    unfold turnsLeft runFuel
    show 6 * pending.length + rank (runSt p pending).state < _
    omega

/-- A call of `run` that does not return has come to a turn that ends the process. -/
theorem run_halts {e : Halt} (hD : ∀ d ∈ pending, D d) (h : run now p pending = .error e) :
    ∃ s, Visits (runStep now) (runSt p pending) s ∧ FsmOk D s ∧ RunHalt D now s e := by
  rcases fuelLoop_error h with rfl | ⟨s, hv, hs⟩
  · exact absurd h (run_ne_outOfFuel now p pending)
  · have hok := visits_fsmOk hD hv
    exact ⟨s, hv, hok, runStep_halt hok hs⟩

/-- A turn that ends the process ends the call that comes to it. -/
theorem run_of_visits {s : RunSt} {e : Halt} (hv : Visits (runStep now) (runSt p pending) s)
    (hs : runStep now s = .error e) : run now p pending = .error e := by
  rcases fuelLoop_of_visits hv hs with h | h
  · exact absurd h (run_ne_outOfFuel now p pending)
  · exact h

end Process
end TcpOverUdp
