import TcpOverUdp.Proof.Receiver
import TcpOverUdp.Proof.SenderRuns
import TcpOverUdp.Proof.Exits

/-! # The delayed-ACK machine

`proc_delack` of a process ends the process on the state `TOUS_DELACK_ERR`, and when the state says
that an ACK is queued but the deque has no node. `AckReady` rules out both and every operation keeps it.
`AcksBehind` is what the assertion in `sendack` needs of the nodes.
-/
namespace TcpOverUdp
open MachineInt
set_option autoImplicit false

namespace Timer

/-! ## The deque -/

theorem refreshAckNode_eq_none {cid tid curT : ℕ} {stb : SockTb} {deque : List Node} :
    refreshAckNode cid tid stb curT deque = none ↔ ∀ n ∈ deque, ¬ (n.cId = cid ∧ n.tId = tid) := by
  induction deque with
  | nil => simp [refreshAckNode]
  | cons n rest ih =>
    rw [refreshAckNode, List.forall_mem_cons, ← ih]
    by_cases hn : n.cId = cid ∧ n.tId = tid
    · rw [if_pos hn]
      simp [hn]
    · rw [if_neg hn, Option.map_eq_none_iff]
      exact (and_iff_right hn).symm

/-- The refreshed deque has the node it had, under the number it now stands for. -/
theorem refreshAckNode_spec {cid tid curT : ℕ} {stb : SockTb} {deque deque' : List Node}
    (h : refreshAckNode cid tid stb curT deque = some deque') :
    (∃ n ∈ deque', n.cId = cid ∧ n.tId = tid) ∧
      ∀ n ∈ deque', n ∈ deque ∨ n.pId = stb.tc.rcvNxt := by
  induction deque generalizing deque' with
  | nil => cases h
  | cons n rest ih =>
    rw [refreshAckNode] at h
    by_cases hn : n.cId = cid ∧ n.tId = tid
    · rw [if_pos hn] at h
      cases h
      refine ⟨⟨_, List.mem_cons_self, hn⟩, ?_⟩
      intro m hm
      rcases List.mem_cons.mp hm with rfl | hm
      · exact Or.inr rfl
      · exact Or.inl (List.mem_cons_of_mem n hm)
    · rw [if_neg hn, Option.map_eq_some_iff] at h
      obtain ⟨rest', hrest, rfl⟩ := h
      obtain ⟨⟨m, hm, hown⟩, hids⟩ := ih hrest
      refine ⟨⟨m, List.mem_cons_of_mem n hm, hown⟩, ?_⟩
      intro k hk
      rcases List.mem_cons.mp hk with rfl | hk
      · exact Or.inl List.mem_cons_self
      · rcases hids k hk with hk | hk
        · exact Or.inl (List.mem_cons_of_mem n hk)
        · exact Or.inr hk

theorem updateAck_spec {deque deque' : List Node} {cid tid curT : ℕ} {state : DelackState}
    {st : SockPtr} {stb : SockTb} (h : updateAck deque cid tid state st stb curT = .ok deque') :
    (∃ n ∈ deque', n.cId = cid ∧ n.tId = tid) ∧
      ∀ n ∈ deque', n ∈ deque ∨ n.pId = stb.tc.rcvNxt := by
  unfold updateAck at h
  split at h
  · rename_i d hd
    cases h
    exact refreshAckNode_spec hd
  · split at h
    · cases h
      refine ⟨⟨_, List.mem_append_right _ List.mem_cons_self, rfl, rfl⟩, ?_⟩
      intro n hn
      rcases List.mem_append.mp hn with hn | hn
      · exact Or.inl hn
      · rw [List.mem_singleton.mp hn]
        exact Or.inr rfl
    · cases h

/-! ## The timer pass -/

theorem sendack_error {stb : SockTb} {n : Node} {e : Halt} (h : sendack stb n = .error e) :
    e = .assertFail .sendack ∧ stb.tc.rcvNxt < n.pId := by
  unfold sendack at h
  split at h
  · cases h
  · cases h
    exact ⟨rfl, by omega⟩

/-- What the timer does for one node: nothing, or an ACK and a state in which one was sent. -/
theorem procDelackXmit_state {stb : SockTb} {n : Node} {t : ℕ} {r : SockTb × Node × List Tx}
    (h : procDelackXmit stb n t = .ok r) : r.1 = stb ∧ r.2.1 = n ∨
      r.2.1 = refreshAck n stb t ∧ (r.1 = stb.setAckState .quexmit ∨ r.1 = stb.setAckState .expxmit) := by
  cases Process.procDelackXmit_ok h with
  | waits => exact Or.inl ⟨rfl, rfl⟩
  | sent _ _ hst =>
    refine Or.inr ⟨rfl, ?_⟩
    rcases hst with rfl | rfl
    · exact Or.inl rfl
    · exact Or.inr rfl

/-- An ACK was sent by the timer, or the deque and the table are as they were. -/
theorem procDelackLoop_state {t : ℕ} {deque : List Node} {stb : SockTb}
    {r : SockTb × List Node × List Tx} (h : procDelackLoop t stb deque = .ok r) :
    (r.1 = stb ∧ r.2.1 = deque ∨ r.1 = stb.setAckState .quexmit ∨ r.1 = stb.setAckState .expxmit) ∧
      ∀ n ∈ r.2.1, n ∈ deque ∨ n.pId = stb.tc.rcvNxt := by
  induction deque generalizing stb r with
  | nil =>
    cases h
    exact ⟨Or.inl ⟨rfl, rfl⟩, by simp⟩
  | cons n rest ih =>
    rw [procDelackLoop] at h
    obtain ⟨r1, h1, h⟩ := of_bind_ok h
    obtain ⟨r2, h2, h⟩ := of_bind_ok h
    cases h
    obtain ⟨hst, hids⟩ := ih h2
    rcases procDelackXmit_state h1 with ⟨hsame, hn⟩ | ⟨hn, hfired⟩
    · rw [hsame] at hst hids
      refine ⟨?_, ?_⟩
      · rcases hst with ⟨hs, hr⟩ | hs
        · exact Or.inl ⟨hs, by simp only [hn, hr]⟩
        · exact Or.inr hs
      · intro m hm
        rcases List.mem_cons.mp hm with rfl | hm
        · exact Or.inl (hn ▸ List.mem_cons_self)
        · exact (hids m hm).imp_left (List.mem_cons_of_mem n)
    · have hrcv : r1.1.tc.rcvNxt = stb.tc.rcvNxt := by rcases hfired with hf | hf <;> rw [hf] <;> rfl
      refine ⟨Or.inr ?_, ?_⟩
      · rcases hst with ⟨hs, _⟩ | hs | hs
        · rw [← hs] at hfired
          exact hfired
        · exact Or.inl (by rw [hs]; rcases hfired with hf | hf <;> rw [hf] <;> rfl)
        · exact Or.inr (by rw [hs]; rcases hfired with hf | hf <;> rw [hf] <;> rfl)
      · intro m hm
        rcases List.mem_cons.mp hm with rfl | hm
        · exact Or.inr (by rw [hn]; rfl)
        · rcases hids m hm with hm | hm
          · exact Or.inl (List.mem_cons_of_mem n hm)
          · exact Or.inr (hm.trans hrcv)

theorem procDelackXmit_error {stb : SockTb} {n : Node} {t : ℕ} {e : Halt}
    (h : procDelackXmit stb n t = .error e) :
    stb.tc.tDelackState = .err ∨ e = .assertFail .sendack ∧ stb.tc.rcvNxt < n.pId := by
  unfold procDelackXmit at h
  cases hst : stb.tc.tDelackState with
  | err => exact Or.inl rfl
  | immedUpdateXmit =>
    rw [hst] at h
    cases h
  | xmit | que | quexmit | expxmit =>
    rw [hst] at h
    simp only at h
    split at h
    · rcases of_bind_error h with h | ⟨_, _, h⟩
      · exact Or.inr (sendack_error h)
      · cases h
    · cases h

/-- The timer pass ends the process only on the error state or on a node above `rcv_nxt`. -/
theorem procDelackLoop_error {t : ℕ} {deque : List Node} {stb : SockTb} {e : Halt}
    (h : procDelackLoop t stb deque = .error e) :
    stb.tc.tDelackState = .err ∨ ∃ n ∈ deque, stb.tc.rcvNxt < n.pId := by
  induction deque generalizing stb with
  | nil => cases h
  | cons n rest ih =>
    rw [procDelackLoop] at h
    rcases of_bind_error h with h | ⟨r1, h1, h⟩
    · exact (procDelackXmit_error h).imp_right fun hn => ⟨n, List.mem_cons_self, hn.2⟩
    · rcases of_bind_error h with h | ⟨_, _, h⟩
      · rcases procDelackXmit_state h1 with ⟨hsame, _⟩ | ⟨_, hfired⟩
        · rw [hsame] at h
          rcases ih h with hst | ⟨m, hm, hlt⟩
          · exact Or.inl hst
          · exact Or.inr ⟨m, List.mem_cons_of_mem n hm, hlt⟩
        · rcases ih h with hst | ⟨m, hm, hlt⟩
          · rcases hfired with hf | hf <;> rw [hf] at hst <;> cases hst
          · rcases hfired with hf | hf <;> rw [hf] at hlt <;>
              exact Or.inr ⟨m, List.mem_cons_of_mem n hm, hlt⟩
      · cases h

end Timer

namespace Process

/-! ## The state and the deque -/

structure AckReady (p : Process) : Prop where
  ne_err : p.stb.tc.tDelackState ≠ .err
  queued : p.stb.tc.tDelackState = .que →
    ∃ n ∈ p.ackdeque, n.cId = p.stb.sockd ∧ n.tId = timerIdDelack

def AcksBehind (p : Process) : Prop := ∀ n ∈ p.ackdeque, n.pId ≤ p.stb.tc.rcvNxt

section
variable {now : ℕ} {p q : Process}

theorem AckReady.of_eq (hp : AckReady p) (hs : q.stb.sockd = p.stb.sockd)
    (hst : q.stb.tc.tDelackState = p.stb.tc.tDelackState ∨
      q.stb.tc.tDelackState = .immedUpdateXmit) (hd : q.ackdeque = p.ackdeque) : AckReady q := by
  rcases hst with hst | hst
  · refine ⟨hst ▸ hp.ne_err, fun hq => ?_⟩
    rw [hs, hd]
    exact hp.queued (hst ▸ hq)
  · exact ⟨by rw [hst]; decide, fun hq => by rw [hst] at hq; cases hq⟩

theorem AckReady.procDelack_returns (hp : AckReady p) (now : ℕ) : ∃ q, procDelack now p = .ok q := by
  cases hq : procDelack now p with
  | ok q => exact ⟨q, rfl⟩
  | error e =>
    rcases procDelack_error hq with ⟨_, herr⟩ | ⟨_, hque, hnone⟩
    · exact absurd herr hp.ne_err
    · obtain ⟨n, hn, hown⟩ := hp.queued hque
      exact absurd hown (Timer.refreshAckNode_eq_none.mp hnone n hn)

theorem procDelack_ready (h : procDelack now p = .ok q) : AckReady q := by
  cases procDelack_ok h with
  | putOff => exact ⟨fun herr => (by cases herr), fun hq => by cases hq⟩
  | sent _ hdeque => exact ⟨fun herr => (by cases herr), fun _ => (Timer.updateAck_spec hdeque).1⟩

theorem procDelack_behind (h : procDelack now p = .ok q) (hp : AcksBehind p) : AcksBehind q := by
  have hids : ∀ n ∈ q.ackdeque, n ∈ p.ackdeque ∨ n.pId = p.stb.tc.rcvNxt := by
    cases procDelack_ok h with
    | putOff _ hdeque | sent _ hdeque => exact (Timer.updateAck_spec hdeque).2
  intro n hn
  rw [(procDelack_effect h).recvSame.rcvNxt_eq]
  rcases hids n hn with hn | hn
  · exact hp n hn
  · exact le_of_eq hn

theorem AckReady.timerProcDelack (hp : AckReady p) (h : Process.timerProcDelack now p = .ok q) :
    AckReady q := by
  obtain ⟨r, hr, h⟩ := of_bind_ok h
  cases h
  rcases (Timer.procDelackLoop_state hr).1 with ⟨hs, hd⟩ | hs | hs
  · exact hp.of_eq (congrArg SockTb.sockd hs) (Or.inl (congrArg (·.tc.tDelackState) hs)) hd
  · have hst : r.1.tc.tDelackState = .quexmit := by rw [hs]; rfl
    exact ⟨by rw [hst]; decide, fun hq => by rw [hst] at hq; cases hq⟩
  · have hst : r.1.tc.tDelackState = .expxmit := by rw [hs]; rfl
    exact ⟨by rw [hst]; decide, fun hq => by rw [hst] at hq; cases hq⟩

theorem timerProcDelack_behind (h : timerProcDelack now p = .ok q) (hp : AcksBehind p) :
    AcksBehind q := by
  have hrcv := (timerProcDelack_effect h).recvSame.rcvNxt_eq
  obtain ⟨r, hr, h⟩ := of_bind_ok h
  cases h
  intro n hn
  rw [hrcv]
  rcases (Timer.procDelackLoop_state hr).2 n hn with hn | hn
  · exact hp n hn
  · exact le_of_eq hn

/-- With its ACKs behind `rcv_nxt`, a process is never ended by the timer pass. -/
theorem timerProcDelack_returns (now : ℕ) (hr : AckReady p) (hb : AcksBehind p) :
    ∃ q, timerProcDelack now p = .ok q := by
  cases hq : timerProcDelack now p with
  | ok q => exact ⟨q, rfl⟩
  | error e =>
    rcases of_bind_error hq with hq | ⟨_, _, hq⟩
    · rcases Timer.procDelackLoop_error hq with herr | ⟨n, hn, hlt⟩
      · exact absurd herr hr.ne_err
      · have := hb n hn
        omega
    · cases hq

end

end Process
end TcpOverUdp
