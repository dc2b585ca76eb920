import TcpOverUdp.Proof.AckEvents

/-! # One fast retransmit for one loss

A run of repeated ACKs is logged: for each of them whether it calls `rexmit_for_dup_ack`, and the
congestion state it leaves. The counter behind the test is a `short` that fast retransmit goes on
counting in, so it equals three again 65536 repetitions after the third (`one_fast_retransmit_iff`).
-/
namespace TcpOverUdp
open MachineInt TouCb
set_option autoImplicit false

namespace Process

/-- The test before the call of `rexmit_for_dup_ack`. -/
def dupAckRexmits (p : Process) (tp : TouPkg) : Bool :=
  SockTb.ckNumDupack { p.stb with tc := (p.stb.tc.setdwnd tp.t.ackSeq).2 }

structure DupAck where
  rexmit : Bool
  ccState : CcState
  deriving DecidableEq, Repr

/-- Repeated ACKs handled one after another. Between them anything may happen that leaves the
congestion variables alone, so no call of `addwnd` or `settwnd` that changes something. -/
inductive DupRun : List DupAck → Process → Process → Prop
  | nil (p : Process) : DupRun [] p p
  | ack {log : List DupAck} {p q r : Process} {tp : TouPkg} (h : DupRun log p q)
      (heq : tp.t.ackSeq = q.stb.tc.sndUna) (hack : AckHandled tp q r) :
      DupRun (log ++ [⟨dupAckRexmits q tp, r.stb.tc.ccState⟩]) p r
  | other {log : List DupAck} {p q r : Process} (h : DupRun log p q) (hst : SenderStep q r)
      (hw : SameWindow q.stb.tc r.stb.tc) : DupRun log p r

/-- The handler calls `rexmit_for_dup_ack` where `dupAckRexmits` says so, and only there. -/
theorem handleAck_repeated (now : ℕ) {p : Process} {tp : TouPkg} (heq : tp.t.ackSeq = p.stb.tc.sndUna) :
    handleAck now p tp =
      let stb := { p.stb with tc := (p.stb.tc.setdwnd tp.t.ackSeq).2 }
      if dupAckRexmits p tp then do
        let rex ← Timer.rexmitForDupAck (fun _ => stb) stb.sockd timerIdSndpkt tp.t.ackSeq now p.timerheap
        return { p with stb := stb, timerheap := rex.2.1, sent := p.sent ++ rex.2.2 }
      else .ok (p.setTable stb) := by
  unfold handleAck procAck
  simp only [if_neg (show ¬ tp.t.ackSeq > p.stb.tc.sndUna by omega), if_pos heq]
  rfl

/-- After `n` repetitions the counter is `n`, as a `short`, and from the third on the state is `FR`. -/
structure Counted (n : ℕ) (tc : TouCb) : Prop where
  window : WindowInv tc
  dupackcount : tc.dupackcount = s16 n
  fr : tcpRexmtThresh ≤ n → tc.ccState = .fr

theorem Counted.of_same {n : ℕ} {a b : TouCb} (h : Counted n a) (hw : SameWindow a b) : Counted n b :=
  ⟨h.window.of_same hw, hw.dupackcount.trans h.dupackcount, fun hn => hw.ccState.trans (h.fr hn)⟩

theorem Counted.setdwnd {n : ℕ} {tc : TouCb} (h : Counted n tc) :
    Counted (n + 1) (tc.setdwnd tc.sndUna).2 := by
  have hi := h.window
  have hnext : tc.nextDup tc.sndUna = s16 ((n + 1 : ℕ) : ℤ) := by
    unfold nextDup
    rw [if_pos rfl, h.dupackcount, s16_add_one]
  refine ⟨(hi.setdwnd _).2, ?_, ?_⟩
  · rw [← hnext]
    unfold TouCb.setdwnd
    split
    · exact absurd ‹_› hi.not_err
    all_goals first | rfl | split <;> rfl
  · intro hn
    by_cases hfr : tc.ccState = .fr
    · exact (setdwnd_fr hi hfr _).1
    · have hst : tc.ccState = .ss ∨ tc.ccState = .ca := by
        have hne := hi.not_err
        cases hcc : tc.ccState with
        | err => exact absurd hcc hne
        | ss => exact Or.inl rfl
        | ca => exact Or.inr rfl
        | fr => exact absurd hcc hfr
      have hlt : n < 3 := by
        by_contra hge
        exact hfr (h.fr (by unfold tcpRexmtThresh; omega))
      refine setdwnd_third hi hst ?_
      rw [h.dupackcount, s16_of_range (by omega) (by omega)]
      exact_mod_cast hn

/-- The test succeeds at every 65536th repetition, beginning with the third. -/
theorem Counted.rexmits {n : ℕ} {p : Process} {tp : TouPkg} (h : Counted n p.stb.tc)
    (heq : tp.t.ackSeq = p.stb.tc.sndUna) : dupAckRexmits p tp = true ↔ n % 65536 = 2 := by
  have hdup := h.setdwnd.dupackcount
  unfold dupAckRexmits SockTb.ckNumDupack
  rw [beq_iff_eq, heq]
  simp only [hdup]
  unfold s16 tcpRexmtThresh
  omega

theorem AckHandled.repeated_tc {tp : TouPkg} {p q : Process} (h : AckHandled tp p q)
    (heq : tp.t.ackSeq = p.stb.tc.sndUna) :
    SameWindow (p.stb.tc.setdwnd p.stb.tc.sndUna).2 q.stb.tc := by
  cases h with
  | @mk now _ p1 _ hc h1 h2 =>
    have hsame := send_sameWindow h2
    rw [handleAck_dup heq h1] at hsame
    exact hsame

theorem DupRun.logged {log : List DupAck} {p q : Process} (h : DupRun log p q)
    (hp : Counted 0 p.stb.tc) :
    Counted log.length q.stb.tc ∧ ∀ i e, log[i]? = some e →
      (e.rexmit = true ↔ i % 65536 = 2) ∧ (2 ≤ i → e.ccState = .fr) := by
  induction h with
  | nil p =>
    refine ⟨hp, ?_⟩
    intro i e he
    cases he
  | @ack log p q r tp hrun heq hack ih =>
    obtain ⟨hq, hlog⟩ := ih hp
    have hr : Counted (log.length + 1) r.stb.tc := hq.setdwnd.of_same (hack.repeated_tc heq)
    refine ⟨by rw [List.length_append]; exact hr, ?_⟩
    intro i e he
    by_cases hin : i < log.length
    · rw [List.getElem?_append_left hin] at he
      exact hlog i e he
    · rw [List.getElem?_append_right (not_lt.mp hin)] at he
      obtain ⟨hlt, hlast⟩ := List.getElem?_eq_some_iff.mp he
      rw [List.length_singleton] at hlt
      obtain rfl : i = log.length := by omega
      simp only [Nat.sub_self, List.getElem_cons_zero] at hlast
      rw [← hlast]
      refine ⟨hq.rexmits heq, ?_⟩
      intro hthird
      exact hr.fr (by unfold tcpRexmtThresh; omega)
  | other hrun hst hw ih =>
    obtain ⟨hq, hlog⟩ := ih hp
    exact ⟨hq.of_same hw, hlog⟩

/-- The third repetition calls `rexmit_for_dup_ack` and no other does, and the state is `FR` from the
third on. -/
def OneRexmit (log : List DupAck) : Prop :=
  ∀ i e, log[i]? = some e → (e.rexmit = true ↔ i = 2) ∧ (2 ≤ i → e.ccState = .fr)

theorem counted_start {p : Process} (hp : SenderReachable p) (h0 : p.stb.tc.dupackcount = 0) :
    Counted 0 p.stb.tc :=
  ⟨hp.windowInv, h0, fun h => absurd h (by decide)⟩

/-- One call of `rexmit_for_dup_ack` in a run of repeated ACKs, if and only if there are fewer than
65539 of them. -/
theorem one_fast_retransmit_iff (p : Process) (hp : SenderReachable p) (h0 : p.stb.tc.dupackcount = 0)
    (log : List DupAck) (q : Process) (h : DupRun log p q) : OneRexmit log ↔ log.length < 65539 := by
  obtain ⟨_, hlog⟩ := h.logged (counted_start hp h0)
  constructor
  · intro hone
    by_contra hlong
    have hlt : 65538 < log.length := by omega
    have he : log[65538]? = some log[65538] := List.getElem?_eq_getElem hlt
    have hcall := (hlog 65538 _ he).1.mpr (by decide)
    have hthird := (hone 65538 _ he).1.mp hcall
    omega
  · intro hlt i e he
    obtain ⟨hcall, hfr⟩ := hlog i e he
    obtain ⟨hi, _⟩ := List.getElem?_eq_some_iff.mp he
    refine ⟨hcall.trans ?_, hfr⟩
    omega

theorem DupAcks.dupRun {n : ℕ} {p q : Process} (h : DupAcks n p q) :
    ∃ log, log.length = n ∧ DupRun log p q := by
  induction h with
  | zero p => exact ⟨[], rfl, DupRun.nil p⟩
  | succ hrun heq hack ih =>
    obtain ⟨log, hlen, hlog⟩ := ih
    exact ⟨_, by rw [List.length_append, hlen, List.length_singleton], DupRun.ack hlog heq hack⟩

/-- A client with nothing in flight takes any number of repeated ACKs. -/
theorem exists_dupRun (n : ℕ) : ∃ p q log, SenderReachable p ∧ p.stb.tc.dupackcount = 0 ∧
    log.length = n ∧ DupRun log p q := by
  obtain ⟨p, _, hopen, huna, hnxt, _⟩ := exists_idle_client
  have hreach : SenderReachable p := ⟨p, hopen, Relation.ReflTransGen.refl⟩
  have hd : IsPureAck (segmentFrom ⟨2, 80⟩ 1 1 []) 1 := isPureAck_segmentFrom _ (by decide) (by decide)
  have hc := classify_pureAck hd hopen.fresh.2
  rw [if_pos (by omega)] at hc
  obtain ⟨q, hq, _⟩ := repeats_exists
    ⟨by rw [huna, hnxt], hopen.fresh.1.cbSend, hreach.windowInv, hreach.timersSent⟩ hc
    (by rw [hd.ackSeq, huna]) n
  obtain ⟨log, hlen, hlog⟩ := hq.dupRun
  exact ⟨p, q, log, hreach, hopen.window.dupackcount, hlen, hlog⟩

theorem one_fast_retransmit_iff_five : ∃ p q log, SenderReachable p ∧ log.length = 5 ∧
    DupRun log p q ∧ (OneRexmit log ↔ log.length < 65539) := by
  obtain ⟨p, q, log, hp, h0, hlen, h⟩ := exists_dupRun 5
  exact ⟨p, q, log, hp, hlen, h, one_fast_retransmit_iff p hp h0 log q h⟩

/-- After the third, the 65539th repetition calls it again. -/
theorem second_fast_retransmit : ∃ p q log, SenderReachable p ∧ p.stb.tc.dupackcount = 0 ∧
    log.length = 65539 ∧ DupRun log p q ∧ ∃ e, log[65538]? = some e ∧ e.rexmit = true := by
  obtain ⟨p, q, log, hp, h0, hlen, h⟩ := exists_dupRun 65539
  have he : log[65538]? = some log[65538] := List.getElem?_eq_getElem (by omega)
  exact ⟨p, q, log, hp, h0, hlen, h, _, he,
    ((h.logged (counted_start hp h0)).2 65538 _ he).1.mpr (by decide)⟩

end Process
end TcpOverUdp
