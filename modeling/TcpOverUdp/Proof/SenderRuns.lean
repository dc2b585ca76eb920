import TcpOverUdp.Proof.Sides
import TcpOverUdp.Proof.Retransmission

/-! # Sequence numbers of a sender

Whatever datagrams `run` is given, and whatever the application and the timers do in between, the
numbers of the send side keep their order and their distance (`SequenceInv`), and they never go
back. It needs nothing of the ACK numbers beyond what `processGetPktState` checks.
-/
namespace TcpOverUdp
open MachineInt Pieces
set_option autoImplicit false

namespace Process

/-- One operation of a process with one connection, each atomic: the calls of the application, a
call of `run` on datagrams that meet `C`, and the passes of the timer thread. -/
inductive ProcStepIf (C : ℕ → Process → List Datagram → Prop) : Process → Process → Prop
  | touSend {now : ℕ} {p : Process} {buf : List Byte} {len : ℤ} {r : ℤ × Process}
      (h : Process.touSend now p buf len = .ok r) : ProcStepIf C p r.2
  | send {now : ℕ} {p q : Process} (h : Process.send now p = .ok q) : ProcStepIf C p q
  | touRecv (p : Process) (len : ℤ) : ProcStepIf C p (Process.touRecv p len).2.2
  | run {now : ℕ} {p : Process} {pending : List Datagram} {r : RunRes} (hC : C now p pending)
      (h : Process.run now p pending = .ok r) : ProcStepIf C p r.pr
  | delack {now : ℕ} {p q : Process} (h : timerProcDelack now p = .ok q) : ProcStepIf C p q
  | sndpkt {now : ℕ} {p q : Process} (h : timerProcSndpkt now p = .ok q) : ProcStepIf C p q

/-- One operation, on any datagrams. -/
abbrev ProcStep : Process → Process → Prop := ProcStepIf fun _ _ _ => True

theorem touSend_ok {now : ℕ} {p : Process} {buf : List Byte} {len : ℤ} {r : ℤ × Process}
    (h : touSend now p buf len = .ok r) :
    r.1 = (pushsndq p buf len).1 ∧ send now (pushsndq p buf len).2 = .ok r.2 := by
  obtain ⟨q, hq, hr⟩ := of_bind_ok h
  cases hr
  exact ⟨rfl, hq⟩

/-- A property that the send side keeps, and that `pushsndq` keeps too, holds throughout a run. -/
theorem SenderRule.step {J : Process → Prop} (hJ : SenderRule J)
    (hpush : ∀ p buf len, J p → J (pushsndq p buf len).2) {C : ℕ → Process → List Datagram → Prop}
    {p q : Process} (h : ProcStepIf C p q) (hp : J p) : J q := by
  cases h with
  | touSend h => exact hJ.send (touSend_ok h).2 (hpush p _ _ hp)
  | send h => exact hJ.send h hp
  | touRecv _ len => exact hJ.touRecv len hp
  | run _ h => exact hJ.run h hp
  | delack h => exact hJ.delack h hp
  | sndpkt h => exact hJ.sndpkt h hp

/-! ## The invariant -/

structure SequenceInv (p : Process) : Prop where
  una_le : p.stb.tc.sndUna ≤ p.stb.tc.sndNxt
  flight_le : p.stb.tc.sndNxt ≤ p.stb.tc.sndUna + touMaxCircularBuf / 2
  nxt_lt : p.stb.tc.sndNxt < 4294967296

theorem SequenceInv.of_eq {p q : Process} (hi : SequenceInv p)
    (hu : q.stb.tc.sndUna = p.stb.tc.sndUna) (hn : q.stb.tc.sndNxt = p.stb.tc.sndNxt) :
    SequenceInv q :=
  ⟨by rw [hu, hn]; exact hi.una_le, by rw [hu, hn]; exact hi.flight_le, by rw [hn]; exact hi.nxt_lt⟩

theorem SequenceInv.afterSegment {now : ℕ} {p : Process} {l : ℕ} (hl : SegFits p l)
    (hi : SequenceInv p) : SequenceInv (afterSegment now p l) := by
  have hw := hl.in_window
  have hedge := windowEdge_le p.stb
  have hwnd := p.stb.tc.getwnd_le
  have hun := hi.una_le
  refine ⟨?_, ?_, hl.sndNxt_lt⟩
  · show p.stb.tc.sndUna ≤ p.stb.tc.sndNxt + l
    omega
  · show p.stb.tc.sndNxt + l ≤ p.stb.tc.sndUna + touMaxCircularBuf / 2
    unfold touMaxCircularBuf
    omega

theorem SequenceInv.acked {p q : Process} {a : ℕ} (h : AckEffect p q a)
    (ha : a ≤ p.stb.tc.sndNxt) (hi : SequenceInv p) : SequenceInv q := by
  have hu := h.sndUna_eq
  have hn := h.sndNxt_eq
  have h1 := hi.una_le
  have h2 := hi.flight_le
  have h3 := hi.nxt_lt
  exact ⟨by omega, by omega, by omega⟩

/-- The numbers of `q` are at or above those of `p`. -/
def Advances (p q : Process) : Prop :=
  p.stb.tc.sndUna ≤ q.stb.tc.sndUna ∧ p.stb.tc.sndNxt ≤ q.stb.tc.sndNxt

theorem Advances.trans {p q r : Process} (h : Advances p q) (h' : Advances q r) : Advances p r :=
  ⟨le_trans h.1 h'.1, le_trans h.2 h'.2⟩

theorem sequence_rule (p₀ : Process) : SenderRule fun q => SequenceInv q ∧ Advances p₀ q where
  same p q h hp := by
    have hu := h.sndUna_eq
    have hn := h.sndNxt_eq
    exact ⟨hp.1.of_eq hu hn, hp.2.trans ⟨le_of_eq hu.symm, le_of_eq hn.symm⟩⟩
  ack p q a ha h hp := by
    have hu := h.sndUna_eq
    have hn := h.sndNxt_eq
    exact ⟨hp.1.acked h ha, hp.2.trans ⟨by omega, by omega⟩⟩
  segment now p l hl hp :=
    ⟨hp.1.afterSegment hl, hp.2.trans ⟨le_refl _, Nat.le_add_right _ l⟩⟩
  timeout p q h hp := by
    have hu := h.tc_same.sndUna
    have hn := h.tc_same.sndNxt
    exact ⟨hp.1.of_eq hu hn, hp.2.trans ⟨le_of_eq hu.symm, le_of_eq hn.symm⟩⟩

theorem run_sequence {p q : Process} (h : Relation.ReflTransGen ProcStep p q) (hi : SequenceInv p) :
    SequenceInv q ∧ Advances p q :=
  reach_inv (fun q => SequenceInv q ∧ Advances p q)
    (fun _ _ hs hst => (sequence_rule p).step (fun _ _ _ hp => ⟨hp.1.of_eq rfl rfl, hp.2⟩) hst hs)
    ⟨hi, le_refl _, le_refl _⟩ h

/-! ## Window sizes -/

/-- The size of the usable window fits an `int`, and is the difference it stands for as long as the
sequence numbers do not come near their end. -/
structure WindowFits (p : Process) : Prop where
  fits : s32 (getSendSize p.stb) = getSendSize p.stb
  no_underflow : p.stb.tc.sndNxt < 4294967296 - touMaxCircularBuf →
    getSendSize p.stb = p.stb.tc.sndUna + p.stb.tc.getwnd - p.stb.tc.sndNxt

theorem SequenceInv.windowFits {p : Process} (hi : SequenceInv p) : WindowFits p := by
  have hsize := getSendSize_eq p.stb
  have hedge := windowEdge_le p.stb
  have hwnd := p.stb.tc.getwnd_le
  have hun := hi.una_le
  refine ⟨s32_cast _ (by omega), ?_⟩
  unfold touMaxCircularBuf
  intro hlt
  rw [hsize, windowEdge_eq (by omega)]

/-- All window sizes that a call of `send` computes, from its first turn to its last. -/
def SendWindowsFit (p : Process) : Prop :=
  ∀ now s, Visits (sendStep now) { pr := p, xmitCnt := calNumCaxmit (s32 (getSendSize p.stb)) } s →
    WindowFits s.pr

theorem SequenceInv.sendWindowsFit {p : Process} (hi : SequenceInv p) : SendWindowsFit p := by
  intro now s hv
  have hs := hv.inv (fun t => SequenceInv t.pr ∧ CountFits t) ⟨hi, countFits_start p⟩ (by
    rintro a b _ ⟨ha, hca⟩ hab
    rcases sendStep_cases now hca with hdone | ⟨l, b', hl, hnext, hpr, hcb⟩
    · rw [hdone] at hab
      cases hab
    · rw [hnext] at hab
      cases hab
      rw [hpr]
      exact ⟨ha.afterSegment hl, hcb⟩)
  exact hs.1.windowFits

/-- On every run of a connection that starts with nothing in flight, whatever datagrams arrive: the
sequence numbers never go back, they stay in order and within half a buffer of each other, and every
window size that `send` computes fits, also when `run` calls it after an ACK. -/
theorem sender_sequence_invariant (p₀ p : Process) (hstart : p₀.stb.tc.sndUna = p₀.stb.tc.sndNxt)
    (hlt : p₀.stb.tc.sndNxt < 4294967296) (hrun : Relation.ReflTransGen ProcStep p₀ p) :
    p.stb.tc.sndUna ≤ p.stb.tc.sndNxt ∧
      p.stb.tc.sndNxt - p.stb.tc.sndUna ≤ touMaxCircularBuf / 2 ∧
      (∀ q, Relation.ReflTransGen ProcStep p q →
        p.stb.tc.sndUna ≤ q.stb.tc.sndUna ∧ p.stb.tc.sndNxt ≤ q.stb.tc.sndNxt) ∧
      WindowFits p ∧ SendWindowsFit p ∧
      ∀ now tp p1, processGetPktState p.stb tp = .ok .ackWithoutData →
        handleAck now p tp = .ok p1 → SendWindowsFit p1 := by
  have hi₀ : SequenceInv p₀ := ⟨le_of_eq hstart, by omega, hlt⟩
  have hi := (run_sequence hrun hi₀).1
  have hun := hi.una_le
  have hfl := hi.flight_le
  refine ⟨hun, by omega, fun q hq => (run_sequence hq hi).2, hi.windowFits, hi.sendWindowsFit, ?_⟩
  intro now tp p1 hc h1
  cases classified_of_ok hc with
  | ack _ hle _ => exact (hi.acked (handleAck_effect h1) hle).sendWindowsFit

/-- A client connects, sends two bytes one by one, and takes the ACK of the first. -/
def ackedSession : Except Halt (Process × Process × Process) := do
  let c ← touConnect (Process.init 3 1) ⟨2, 80⟩ 425984 (synAckFrom ⟨2, 80⟩ 0 1)
  let r1 ← touSend 5 c.2 [65] 1
  let r2 ← touSend 6 r1.2 [66] 1
  let r3 ← run 7 r2.2 [segmentFrom ⟨2, 80⟩ 1 2 []]
  return (c.2, r2.2, r3.pr)

theorem exists_acked : ∃ (c : Bool × Process) (r1 r2 : ℤ × Process) (r3 : RunRes),
    touConnect (Process.init 3 1) ⟨2, 80⟩ 425984 (synAckFrom ⟨2, 80⟩ 0 1) = .ok c ∧
    touSend 5 c.2 [65] 1 = .ok r1 ∧ touSend 6 r1.2 [66] 1 = .ok r2 ∧
    run 7 r2.2 [segmentFrom ⟨2, 80⟩ 1 2 []] = .ok r3 ∧ ackedSession = .ok (c.2, r2.2, r3.pr) := by
  have hok : ackedSession.toOption.isSome := by decide +kernel
  cases hx : ackedSession with
  | error e =>
    rw [hx] at hok
    cases hok
  | ok x =>
    have hs := hx
    obtain ⟨c, hc, hs⟩ := of_bind_ok hs
    obtain ⟨r1, h1, hs⟩ := of_bind_ok hs
    obtain ⟨r2, h2, hs⟩ := of_bind_ok hs
    obtain ⟨r3, h3, hs⟩ := of_bind_ok hs
    cases hs
    exact ⟨c, r1, r2, r3, hc, h1, h2, h3, rfl⟩

/-- What is in flight at the three moments of that session. -/
theorem ackedSession_numbers {c p q : Process} (h : ackedSession = .ok (c, p, q)) :
    (c.stb.tc.sndUna = 1 ∧ c.stb.tc.sndNxt = 1) ∧ (p.stb.tc.sndUna = 1 ∧ p.stb.tc.sndNxt = 3) ∧
      q.stb.tc.sndUna = 2 ∧ q.stb.tc.sndNxt = 3 := by
  have hnum : ackedSession.toOption.map (fun x => ((x.1.stb.tc.sndUna, x.1.stb.tc.sndNxt),
      (x.2.1.stb.tc.sndUna, x.2.1.stb.tc.sndNxt), x.2.2.stb.tc.sndUna, x.2.2.stb.tc.sndNxt)) =
      some ((1, 1), (1, 3), 2, 3) := by decide +kernel
  rw [h] at hnum
  simpa [Except.toOption] using hnum

theorem sender_sequence_invariant_acked : ∃ c p q, Relation.ReflTransGen ProcStep c p ∧
    Relation.ReflTransGen ProcStep p q ∧ c.stb.tc.sndNxt < p.stb.tc.sndNxt ∧
    p.stb.tc.sndUna < q.stb.tc.sndUna ∧ p.stb.tc.sndNxt ≤ q.stb.tc.sndNxt ∧
    q.stb.tc.sndUna ≤ q.stb.tc.sndNxt ∧ WindowFits q ∧ SendWindowsFit q := by
  obtain ⟨c, r1, r2, r3, _, h1, h2, h3, hx⟩ := exists_acked
  obtain ⟨⟨hcu, hcn⟩, ⟨hpu, hpn⟩, hqu, _⟩ := ackedSession_numbers hx
  have hsent : Relation.ReflTransGen ProcStep c.2 r2.2 :=
    (Relation.ReflTransGen.single (ProcStepIf.touSend h1)).tail (ProcStepIf.touSend h2)
  have hacked : Relation.ReflTransGen ProcStep r2.2 r3.pr :=
    Relation.ReflTransGen.single (ProcStepIf.run trivial h3)
  obtain ⟨_, _, hon, _⟩ := sender_sequence_invariant c.2 r2.2 (by omega) (by omega) hsent
  obtain ⟨hle, _, _, hfit, hsend, _⟩ :=
    sender_sequence_invariant c.2 r3.pr (by omega) (by omega) (hsent.trans hacked)
  exact ⟨c.2, r2.2, r3.pr, hsent, hacked, by omega, by omega, (hon r3.pr hacked).2, hle, hfit, hsend⟩

/-! ## Armed timers -/

theorem own_rule : SenderRule fun p => Own p.stb.sockd p.timerheap where
  same p q h hp := by
    rw [h.sockd_eq, h.heap_eq]
    exact hp
  ack p q a _ h hp := by
    have ht : q.stb.sockd = p.stb.sockd := by rw [h.table_eq]
    rw [ht]
    exact hp.of_from h.heap_from
  segment now p l hl hp := by
    intro n hn
    rcases (MinHeap.mem_push _ _ _).mp hn with rfl | hn
    · exact ⟨rfl, rfl⟩
    · exact hp n hn
  timeout p q h hp := by
    have ht : q.stb.sockd = p.stb.sockd := by rw [h.table_eq]
    rw [ht]
    exact hp.of_from h.heap_from

theorem timersBehind_rule : SenderRule TimersBehind where
  same p q h hp := by
    intro n hn hc
    rw [h.sndNxt_eq]
    exact hp n (h.heap_eq ▸ hn) (h.sockd_eq ▸ hc)
  ack p q a _ h hp := by
    intro n hn hc
    obtain ⟨m, hm, hcopy⟩ := h.heap_from n hn
    have ht : q.stb.sockd = p.stb.sockd := by rw [h.table_eq]
    rw [h.sndNxt_eq, hcopy.pId_eq]
    exact hp m hm (by rw [← hcopy.cId_eq, hc, ht])
  segment now p l hl hp := by
    intro n hn hc
    rcases (MinHeap.mem_push _ _ _).mp hn with rfl | hn
    · exact le_refl _
    · exact le_trans (hp n hn hc) (Nat.le_add_right _ l)
  timeout p q h hp := by
    intro n hn hc
    obtain ⟨m, hm, hcopy⟩ := h.heap_from n hn
    have ht : q.stb.sockd = p.stb.sockd := by rw [h.table_eq]
    rw [h.tc_same.sndNxt, hcopy.pId_eq]
    exact hp m hm (by rw [← hcopy.cId_eq, hc, ht])

theorem timersBehind_run {p q : Process} (h : Relation.ReflTransGen ProcStep p q)
    (hp : TimersBehind p) : TimersBehind q :=
  reach_inv TimersBehind (fun _ _ hs hst => timersBehind_rule.step (fun _ _ _ hp => hp) hst hs) hp h

end Process
end TcpOverUdp
