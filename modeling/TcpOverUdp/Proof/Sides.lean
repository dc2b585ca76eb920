import TcpOverUdp.Proof.PureAck
import TcpOverUdp.Proof.Recovery

/-! # The send side and the receive side

Handling received data and acknowledging it leaves the send side of a process alone (`SendSame`), up
to pure ACKs among the packets sent. So a property of the send side holds after a call of `run` on
any datagrams if ACKs and segments keep it: `SenderRule`.
-/
namespace TcpOverUdp
open MachineInt
set_option autoImplicit false

namespace Process

/-! ## Delayed ACKs -/

/-- A pure ACK of the table's present numbers. -/
structure IsAckTx (stb : SockTb) (tx : Tx) : Prop where
  dst : tx.dst = stb.dst
  pkt : tx.pkt = TouPkg.segment stb.tc.sndNxt stb.tc.rcvNxt []
  site : tx.site = .procDelack ∨ tx.site = .sendack

theorem IsAckTx.site_ne {stb : SockTb} {tx : Tx} (h : IsAckTx stb tx) : tx.site ≠ .send := by
  rcases h.site with hs | hs <;> rw [hs] <;> decide

/-- What a call of `proc_delack` that returns has done: it has sent an ACK, or put it off. -/
inductive Delacked (now : ℕ) (p : Process) : Process → Prop
  | sent {deque : List Node} (hst : p.stb.tc.tDelackState ≠ .que)
      (hdeque : Timer.updateAck p.ackdeque p.stb.sockd timerIdDelack .xmit p.stp p.stb now = .ok deque) :
      Delacked now p { p with
        stb := p.stb.setAckState .que
        ackdeque := deque
        sent := p.sent ++ [{ site := .procDelack, dst := p.stb.dst, pkt := genPktAck p.stb }] }
  | putOff {deque : List Node} (hst : p.stb.tc.tDelackState = .que)
      (hdeque : Timer.updateAck p.ackdeque p.stb.sockd timerIdDelack .que p.stp p.stb now = .ok deque) :
      Delacked now p { p with stb := p.stb.setAckState .xmit, ackdeque := deque }

theorem procDelack_ok {now : ℕ} {p q : Process} (h : procDelack now p = .ok q) : Delacked now p q := by
  unfold procDelack at h
  cases hst : p.stb.tc.tDelackState with
  | err =>
    rw [hst] at h
    cases h
  | que =>
    rw [hst] at h
    obtain ⟨deque, hdeque, h⟩ := of_bind_ok h
    cases h
    exact Delacked.putOff hst hdeque
  | xmit | quexmit | expxmit | immedUpdateXmit =>
    rw [hst] at h
    obtain ⟨deque, hdeque, h⟩ := of_bind_ok h
    cases h
    exact Delacked.sent (by rw [hst]; decide) hdeque

/-- What the timer has done for one node of the deque: nothing, or it has sent an ACK. -/
inductive NodeAcked (stb : SockTb) (n : Node) (t : ℕ) : SockTb × Node × List Tx → Prop
  | waits : NodeAcked stb n t (stb, n, [])
  | sent {tx : Tx} {st : DelackState} (hne : stb.tc.tDelackState ≠ .immedUpdateXmit)
      (htx : Timer.sendack stb n = .ok tx) (hst : st = .quexmit ∨ st = .expxmit) :
      NodeAcked stb n t (stb.setAckState st, Timer.refreshAck n stb t, [tx])

theorem procDelackXmit_ok {stb : SockTb} {n : Node} {t : ℕ} {r : SockTb × Node × List Tx}
    (h : Timer.procDelackXmit stb n t = .ok r) : NodeAcked stb n t r := by
  unfold Timer.procDelackXmit at h
  cases hst : stb.tc.tDelackState with
  | err =>
    rw [hst] at h
    cases h
  | immedUpdateXmit =>
    rw [hst] at h
    cases h
    exact NodeAcked.waits
  | xmit =>
    rw [hst] at h
    simp only at h
    split at h
    · obtain ⟨tx, htx, h⟩ := of_bind_ok h
      cases h
      exact NodeAcked.sent (by rw [hst]; decide) htx (Or.inl rfl)
    · cases h
      exact NodeAcked.waits
  | que | quexmit | expxmit =>
    rw [hst] at h
    simp only at h
    split at h
    · obtain ⟨tx, htx, h⟩ := of_bind_ok h
      cases h
      exact NodeAcked.sent (by rw [hst]; decide) htx (Or.inr rfl)
    · cases h
      exact NodeAcked.waits

/-- Both `proc_delack`s change the delayed-ACK state and the deque, and send pure ACKs. -/
structure DelackEffect (p q : Process) : Prop where
  table_eq : q.stb = p.stb.setAckState q.stb.tc.tDelackState
  stp_eq : q.stp = p.stp
  heap_eq : q.timerheap = p.timerheap
  sent_eq : ∃ txs, q.sent = p.sent ++ txs ∧ ∀ tx ∈ txs, IsAckTx p.stb tx

theorem procDelack_effect {now : ℕ} {p q : Process} (h : procDelack now p = .ok q) :
    DelackEffect p q := by
  cases procDelack_ok h with
  | putOff => exact ⟨rfl, rfl, rfl, [], (List.append_nil _).symm, by simp⟩
  | sent =>
    refine ⟨rfl, rfl, rfl, _, rfl, ?_⟩
    intro tx htx
    rw [List.mem_singleton.mp htx]
    exact ⟨rfl, genPktAck_eq p.stb, Or.inl rfl⟩

theorem sendack_isAckTx {stb : SockTb} {n : Node} {tx : Tx} (h : Timer.sendack stb n = .ok tx) :
    IsAckTx stb tx := by
  unfold Timer.sendack at h
  split at h
  · cases h
    exact ⟨rfl, rfl, Or.inr rfl⟩
  · cases h

/-- What the timer does for one node of the deque. -/
theorem procDelackXmit_effect {stb : SockTb} {n : Node} {t : ℕ} {r : SockTb × Node × List Tx}
    (h : Timer.procDelackXmit stb n t = .ok r) :
    r.1 = stb.setAckState r.1.tc.tDelackState ∧ (r.2.1 = n ∨ r.2.1 = Timer.refreshAck n stb t) ∧
      ∀ tx ∈ r.2.2, IsAckTx stb tx := by
  cases procDelackXmit_ok h with
  | waits => exact ⟨rfl, Or.inl rfl, by simp⟩
  | sent _ htx =>
    refine ⟨rfl, Or.inr rfl, ?_⟩
    intro tx' htx'
    rw [List.mem_singleton.mp htx']
    exact sendack_isAckTx htx

theorem procDelackLoop_effect {t : ℕ} {deque : List Node} {stb : SockTb}
    {r : SockTb × List Node × List Tx} (h : Timer.procDelackLoop t stb deque = .ok r) :
    r.1 = stb.setAckState r.1.tc.tDelackState ∧ ∀ tx ∈ r.2.2, IsAckTx stb tx := by
  induction deque generalizing stb r with
  | nil =>
    cases h
    exact ⟨rfl, by simp⟩
  | cons n rest ih =>
    rw [Timer.procDelackLoop] at h
    obtain ⟨r1, h1, h⟩ := of_bind_ok h
    obtain ⟨r2, h2, h⟩ := of_bind_ok h
    cases h
    obtain ⟨ht1, _, hx1⟩ := procDelackXmit_effect h1
    obtain ⟨ht2, hx2⟩ := ih h2
    have hkeep : ∀ tx, IsAckTx r1.1 tx → IsAckTx stb tx := by
      intro tx htx
      rw [ht1] at htx
      exact ⟨htx.dst, htx.pkt, htx.site⟩
    refine ⟨?_, ?_⟩
    · show r2.1 = _
      rw [ht2, ht1]
      rfl
    · intro tx htx
      rcases List.mem_append.mp htx with htx | htx
      · exact hx1 tx htx
      · exact hkeep tx (hx2 tx htx)

theorem timerProcDelack_effect {now : ℕ} {p q : Process} (h : timerProcDelack now p = .ok q) :
    DelackEffect p q := by
  obtain ⟨r, hr, h⟩ := of_bind_ok h
  cases h
  obtain ⟨ht, hx⟩ := procDelackLoop_effect hr
  exact ⟨ht, rfl, rfl, _, rfl, hx⟩

/-! ## Recovery -/

/-- Recovery changes `cb_recv`, `minhp_recv`, `rcv_nxt` and the delayed-ACK state. -/
structure RecvChange (a b : SockTb) : Prop where
  table_eq : b = { a with
    cbRecv := b.cbRecv
    minhpRecv := b.minhpRecv
    tc := { a.tc with rcvNxt := b.tc.rcvNxt, tDelackState := b.tc.tDelackState } }

theorem RecvChange.refl (a : SockTb) : RecvChange a a := ⟨rfl⟩

theorem RecvChange.trans {a b c : SockTb} (h : RecvChange a b) (h' : RecvChange b c) :
    RecvChange a c := by
  constructor
  rw [h'.table_eq, h.table_eq]

theorem procPktRec_change {stb : SockTb} {r : ℤ × SockTb} (h : procPktRec stb = .ok r) :
    RecvChange stb r.2 :=
  procPktRec_inv h (RecvChange stb) (RecvChange.refl stb)
    (fun _ _ _ _ _ _ ha => ha.trans ⟨rfl⟩) (fun _ _ _ _ _ _ ha => ha.trans ⟨rfl⟩)
    (fun _ ha => ha.trans ⟨rfl⟩)

/-! ## The send side -/

/-- `q` differs from `p` on the receive side only, and has sent nothing but pure ACKs since. -/
structure SendSame (p q : Process) : Prop where
  sockd_eq : q.stb.sockd = p.stb.sockd
  cbSend_eq : q.stb.cbSend = p.stb.cbSend
  tc_eq : q.stb.tc = { p.stb.tc with
    rcvNxt := q.stb.tc.rcvNxt, tDelackState := q.stb.tc.tDelackState }
  stp_eq : q.stp = p.stp
  heap_eq : q.timerheap = p.timerheap
  sent_eq : ∃ txs, q.sent = p.sent ++ txs ∧ ∀ tx ∈ txs, IsAckTx p.stb tx

theorem SendSame.sndUna_eq {p q : Process} (h : SendSame p q) :
    q.stb.tc.sndUna = p.stb.tc.sndUna := by rw [h.tc_eq]

theorem SendSame.sndNxt_eq {p q : Process} (h : SendSame p q) :
    q.stb.tc.sndNxt = p.stb.tc.sndNxt := by rw [h.tc_eq]

theorem SendSame.of_table {p : Process} {stb : SockTb} (h1 : stb.sockd = p.stb.sockd)
    (h2 : stb.cbSend = p.stb.cbSend) (h3 : stb.tc = { p.stb.tc with
      rcvNxt := stb.tc.rcvNxt, tDelackState := stb.tc.tDelackState }) : SendSame p (p.setTable stb) :=
  ⟨h1, h2, h3, rfl, rfl, [], (List.append_nil _).symm, by simp⟩

theorem SendSame.of_change {p : Process} {stb : SockTb} (h : RecvChange p.stb stb) (st : RunState) :
    SendSame p (p.setTable (stb.setRunstate st)) := by
  have ht := h.table_eq
  refine SendSame.of_table ?_ ?_ ?_ <;> rw [ht] <;> rfl

theorem DelackEffect.sendSame {p q : Process} (h : DelackEffect p q) : SendSame p q := by
  have ht := h.table_eq
  refine ⟨?_, ?_, ?_, h.stp_eq, h.heap_eq, h.sent_eq⟩ <;> rw [ht] <;> rfl

theorem touRecv_sendSame (p : Process) (len : ℤ) : SendSame p (touRecv p len).2.2 :=
  SendSame.of_table rfl rfl rfl

/-- A turn handles an ACK and sends, or leaves the send side alone. -/
theorem RunTurn.handled {D : Datagram → Prop} {now : ℕ} {s s' : RunSt} (h : RunTurn D now s s') :
    SendSame s.pr s'.pr ∨ ∃ tp p1, processGetPktState s.pr.stb tp = .ok .ackWithoutData ∧
      handleAck now s.pr tp = .ok p1 ∧ send now p1 = .ok s'.pr := by
  cases h with
  | receive | old | noSendback =>
    exact Or.inl ⟨rfl, rfl, rfl, rfl, rfl, [], (List.append_nil _).symm, by simp⟩
  | syn | fin | inOrder | future => exact Or.inl (SendSame.of_table rfl rfl rfl)
  | @ack d p1 p2 hs hd h1 h2 =>
    have hc := hd.classified
    rw [hs] at hc
    exact Or.inr ⟨_, p1, hc, h1, h2⟩
  | recovered _ hr => exact Or.inl (SendSame.of_change (procPktRec_change hr) _)
  | unrecovered _ _ hr => exact Or.inl (SendSame.of_change (procPktRec_change hr) _)
  | sendback _ h => exact Or.inl (procDelack_effect h).sendSame

theorem RunTurn.sender {D : Datagram → Prop} {now : ℕ} {s s' : RunSt} (h : RunTurn D now s s') :
    SendSame s.pr s'.pr ∨ ∃ a p1, a ≤ s.pr.stb.tc.sndNxt ∧ AckEffect s.pr p1 a ∧
      send now p1 = .ok s'.pr := by
  rcases h.handled with hsame | ⟨tp, p1, hc, h1, h2⟩
  · exact Or.inl hsame
  · cases classified_of_ok hc with
    | ack _ hle _ => exact Or.inr ⟨_, p1, hle, handleAck_effect h1, h2⟩

/-- A pass of `proc_sndpkt` changes the congestion state and the timers, and may retransmit. -/
structure TimeoutEffect (p q : Process) : Prop where
  table_eq : q.stb = { p.stb with tc := q.stb.tc }
  tc_same : TouCb.SameConnection p.stb.tc q.stb.tc
  stp_eq : q.stp = p.stp
  ackdeque_eq : q.ackdeque = p.ackdeque
  heap_from : HeapFrom p.timerheap q.timerheap
  sent_eq : ∃ txs, q.sent = p.sent ++ txs ∧
    ∀ tx ∈ txs, ∃ n ∈ p.timerheap.elems, tx = Timer.sendpkt p.stb n

theorem timerProcSndpkt_effect {now : ℕ} {p q : Process} (h : timerProcSndpkt now p = .ok q) :
    TimeoutEffect p q := by
  obtain ⟨r, hr, h⟩ := of_bind_ok h
  obtain ⟨hfrom, hfired⟩ := Timer.procSndpkt_from hr
  cases hf : r.2 with
  | none =>
    rw [hf] at h
    cases h
    exact ⟨rfl, ⟨rfl, rfl, rfl, rfl, rfl, rfl, rfl, rfl⟩, rfl, rfl, hfrom, [],
      (List.append_nil _).symm, by simp⟩
  | some f =>
    rw [hf] at h
    cases h
    refine ⟨rfl, p.stb.tc.settwnd_frame, rfl, rfl, hfrom, [f.2], rfl, ?_⟩
    intro tx htx
    obtain ⟨n, hn, hfn⟩ := hfired f hf
    rw [List.mem_singleton.mp htx, hfn]
    exact ⟨n, hn, rfl⟩

/-- What a property of the send side must be kept by. -/
structure SenderRule (J : Process → Prop) : Prop where
  same : ∀ p q, SendSame p q → J p → J q
  ack : ∀ p q a, a ≤ p.stb.tc.sndNxt → AckEffect p q a → J p → J q
  segment : ∀ now p l, SegFits p l → J p → J (afterSegment now p l)
  timeout : ∀ p q, TimeoutEffect p q → J p → J q

namespace SenderRule
variable {J : Process → Prop} {now : ℕ} {p q : Process}

theorem send (hJ : SenderRule J) (h : Process.send now p = .ok q) (hp : J p) : J q :=
  send_inv h J (fun a l hl ha => hJ.segment now a l hl ha) hp

theorem turn (hJ : SenderRule J) {D : Datagram → Prop} {s s' : RunSt} (h : RunTurn D now s s')
    (hs : J s.pr) : J s'.pr := by
  rcases h.sender with hsame | ⟨a, p1, hle, hack, hsend⟩
  · exact hJ.same _ _ hsame hs
  · exact hJ.send hsend (hJ.ack _ _ a hle hack hs)

theorem run (hJ : SenderRule J) {pending : List Datagram} {r : RunRes}
    (h : Process.run now p pending = .ok r) (hp : J p) : J r.pr :=
  run_process_inv h (D := fun _ => True) (fun _ _ => trivial) J hp fun _ _ _ hs ht => hJ.turn ht hs

theorem delack (hJ : SenderRule J) (h : timerProcDelack now p = .ok q) (hp : J p) : J q :=
  hJ.same _ _ (timerProcDelack_effect h).sendSame hp

theorem sndpkt (hJ : SenderRule J) (h : timerProcSndpkt now p = .ok q) (hp : J p) : J q :=
  hJ.timeout _ _ (timerProcSndpkt_effect h) hp

theorem touRecv (hJ : SenderRule J) (len : ℤ) (hp : J p) : J (Process.touRecv p len).2.2 :=
  hJ.same _ _ (touRecv_sendSame p len) hp

end SenderRule

end Process
end TcpOverUdp
