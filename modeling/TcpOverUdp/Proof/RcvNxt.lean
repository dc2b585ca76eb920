import TcpOverUdp.Proof.RunEnds

/-! # The number of the next byte received

`rcv_nxt` is written by the SYN branch, the in-order branch and recovery. The last two only move it on. The
SYN branch writes whatever number the SYN carries, on an established socket too, and the sender of the
SYN becomes the destination.
-/
namespace TcpOverUdp
open MachineInt
set_option autoImplicit false

namespace Process

/-- `b` has the destination of `a`, and its `rcv_nxt` is not below that of `a`. -/
structure Onward (a b : SockTb) : Prop where
  rcvNxt_le : a.tc.rcvNxt ≤ b.tc.rcvNxt
  dst_eq : b.dst = a.dst

theorem Onward.refl (a : SockTb) : Onward a a := ⟨le_refl _, rfl⟩

theorem Onward.trans {a b c : SockTb} (h : Onward a b) (h' : Onward b c) : Onward a c :=
  ⟨le_trans h.rcvNxt_le h'.rcvNxt_le, h'.dst_eq.trans h.dst_eq⟩

theorem Onward.of_eq {a b : SockTb} (hr : b.tc.rcvNxt = a.tc.rcvNxt) (hd : b.dst = a.dst) : Onward a b :=
  ⟨le_of_eq hr.symm, hd⟩

/-- The numbers of the packet stay below 2^32. -/
def NumbersFit (tp : TouPkg) : Prop := tp.t.seq + tp.buf.length < 4294967296

theorem procPktRec_onward {stb : SockTb} {r : ℤ × SockTb} (h : procPktRec stb = .ok r)
    (hfit : ∀ pkt ∈ stb.minhpRecv.elems, NumbersFit pkt) :
    Onward stb r.2 ∧ ∀ pkt ∈ r.2.minhpRecv.elems, NumbersFit pkt := by
  refine procPktRec_inv h (fun a => Onward stb a ∧ ∀ pkt ∈ a.minhpRecv.elems, NumbersFit pkt)
    ⟨Onward.refl stb, hfit⟩ ?_ (fun _ _ _ _ _ _ ha => ⟨ha.1.trans (Onward.of_eq rfl rfl), ha.2⟩)
    fun _ ha => ⟨ha.1.trans (Onward.of_eq rfl rfl), ha.2⟩
  intro a top n cb hoff _ ha
  have htop := ha.2 top (MinHeap.mem_of_top? hoff.top_eq)
  have hseq := hoff.seq_eq
  refine ⟨ha.1.trans ⟨?_, rfl⟩, fun pkt hp => ha.2 pkt (MinHeap.mem_of_mem_pop hp)⟩
  show a.tc.rcvNxt ≤ u32 ((top.t.seq : ℤ) + top.buf.length)
  rw [u32_add _ _ htop]
  omega

/-- A SYN about to be handled comes from the destination and does not move `rcv_nxt` back. -/
def SynHarmless (s : RunSt) : Prop :=
  s.state = .procSyn → ∀ tp, s.tp = some tp →
    s.sockaddrs = s.pr.stb.dst ∧ s.pr.stb.tc.rcvNxt ≤ u32 ((tp.t.seq : ℤ) + 1)

section Turn
variable {D : Datagram → Prop} {now : ℕ} {s s' : RunSt}

theorem ack_onward {p p1 p2 : Process} {tp : TouPkg} (h1 : handleAck now p tp = .ok p1)
    (h2 : send now p1 = .ok p2) : Onward p.stb p2.stb := by
  obtain ⟨pieces, he⟩ := send_ok h2
  have ha := handleAck_effect h1
  have ht := he.table_eq
  have ht1 := ha.table_eq
  refine Onward.of_eq (ack_recvSame h1 h2).rcvNxt_eq ?_
  rw [ht, ht1]

theorem DelackEffect.onward {p q : Process} (h : DelackEffect p q) : Onward p.stb q.stb := by
  have ht := h.table_eq
  exact Onward.of_eq h.recvSame.rcvNxt_eq (by rw [ht]; rfl)

theorem onward_turn (hD : ∀ d, D d → NumbersFit (recvPkg d)) (hsyn : SynHarmless s)
    (hfit : ∀ pkt ∈ s.pr.stb.minhpRecv.elems, NumbersFit pkt) (ht : RunTurn D now s s') :
    Onward s.pr.stb s'.pr.stb ∧ ∀ pkt ∈ s'.pr.stb.minhpRecv.elems, NumbersFit pkt := by
  cases ht with
  | receive | old | noSendback => exact ⟨Onward.refl _, hfit⟩
  | fin => exact ⟨Onward.of_eq rfl rfl, hfit⟩
  | syn hst hd =>
    obtain ⟨haddr, hle⟩ := hsyn hst _ hd.tp_eq
    exact ⟨⟨hle, haddr⟩, hfit⟩
  | ack _ _ h1 h2 =>
    exact ⟨ack_onward h1 h2, fun pkt hp => hfit pkt ((ack_recvSame h1 h2).minhpRecv_eq ▸ hp)⟩
  | sendback _ h =>
    have heff := procDelack_effect h
    exact ⟨heff.onward, fun pkt hp => hfit pkt (heff.recvSame.minhpRecv_eq ▸ hp)⟩
  | recovered _ hr =>
    obtain ⟨hon, hfit'⟩ := procPktRec_onward hr hfit
    exact ⟨hon.trans (Onward.of_eq rfl rfl), hfit'⟩
  | unrecovered _ _ hr =>
    obtain ⟨hon, hfit'⟩ := procPktRec_onward hr hfit
    exact ⟨hon.trans (Onward.of_eq rfl rfl), hfit'⟩
  | @inOrder d hst hd =>
    have hc := hd.classified
    rw [hst] at hc
    cases classified_of_ok hc with
    | inOrder _ _ hseq =>
      obtain ⟨cb, hput⟩ := inOrder_frame s.pr.stb (recvPkg d)
      rw [hput]
      refine ⟨⟨?_, rfl⟩, hfit⟩
      show s.pr.stb.tc.rcvNxt ≤ u32 (((recvPkg d).t.seq : ℤ) + (recvPkg d).buf.length)
      rw [u32_add _ _ (hD d hd.given)]
      omega
  | @future d hst hd =>
    have hc := hd.classified
    rw [hst] at hc
    cases classified_of_ok hc with
    | future _ hdata _ =>
      rw [pushHpRecvBuf_eq _ hdata.pos]
      refine ⟨Onward.of_eq rfl rfl, ?_⟩
      intro pkt hpkt
      rcases (MinHeap.mem_push _ _ _).mp hpkt with rfl | hpkt
      · exact hD d hd.given
      · exact hfit pkt hpkt

theorem acksBehind_turn (hon : Onward s.pr.stb s'.pr.stb) (hb : AcksBehind s.pr)
    (ht : RunTurn D now s s') : AcksBehind s'.pr := by
  have hkeep : s'.pr.ackdeque = s.pr.ackdeque → AcksBehind s'.pr := by
    intro hd n hn
    rw [hd] at hn
    exact le_trans (hb n hn) hon.rcvNxt_le
  cases ht with
  | sendback _ h => exact procDelack_behind h hb
  | ack _ _ h1 h2 =>
    obtain ⟨pieces, he⟩ := send_ok h2
    exact hkeep (he.ackdeque_eq.trans (handleAck_effect h1).ackdeque_eq)
  | receive | old | noSendback | fin | syn | recovered | unrecovered | inOrder | future =>
    exact hkeep rfl

end Turn

/-! ## Runs -/

/-- A call of `run` whose numbers stay below 2^32 and in which every SYN is harmless. -/
def NumbersCall (now : ℕ) (p : Process) (pending : List Datagram) : Prop :=
  (∀ d ∈ pending, NumbersFit (recvPkg d)) ∧
    ∀ s, Visits (runStep now) (runSt p pending) s → SynHarmless s

structure Numbered (p₀ p : Process) : Prop where
  onward : Onward p₀.stb p.stb
  fit : ∀ pkt ∈ p.stb.minhpRecv.elems, NumbersFit pkt
  behind : AcksBehind p
  ready : AckReady p

theorem Numbered.of_same {p₀ p q : Process} (hp : Numbered p₀ p) (hon : Onward p.stb q.stb)
    (hh : q.stb.minhpRecv = p.stb.minhpRecv) (hd : q.ackdeque = p.ackdeque)
    (hready : AckReady q) : Numbered p₀ q := by
  refine ⟨hp.onward.trans hon, by rw [hh]; exact hp.fit, ?_, hready⟩
  intro n hn
  rw [hd] at hn
  exact le_trans (hp.behind n hn) hon.rcvNxt_le

theorem send_numbered {p₀ p q : Process} {now : ℕ} (h : send now p = .ok q) (hp : Numbered p₀ p) :
    Numbered p₀ q := by
  obtain ⟨pieces, he⟩ := send_ok h
  have ht := he.table_eq
  exact hp.of_same (Onward.of_eq (by rw [ht]) (by rw [ht])) (by rw [ht]) he.ackdeque_eq
    (send_ackReady h hp.ready)

theorem Numbered.step {p₀ p q : Process} (h : ProcStepIf NumbersCall p q) (hp : Numbered p₀ p) :
    Numbered p₀ q := by
  cases h with
  | touSend h =>
    exact send_numbered (touSend_ok h).2
      (hp.of_same (Onward.of_eq rfl rfl) rfl rfl (hp.ready.of_eq rfl (Or.inl rfl) rfl))
  | send h => exact send_numbered h hp
  | touRecv =>
    exact hp.of_same (Onward.of_eq rfl rfl) rfl rfl (hp.ready.of_eq rfl (Or.inl rfl) rfl)
  | run hC h =>
    obtain ⟨s, hs, hr⟩ := run_inv (D := fun d => NumbersFit (recvPkg d)) h hC.1
      (fun s => Numbered p₀ s.pr) hp (by
        intro s s' hv _ hs ht
        obtain ⟨hon, hfit⟩ := onward_turn (fun _ hd => hd) (hC.2 s hv) hs.fit ht
        exact ⟨hs.onward.trans hon, hfit, acksBehind_turn hon hs.behind ht,
          ackReady_turn ht hs.ready⟩)
    rw [hr]
    exact hs
  | delack h =>
    have heff := timerProcDelack_effect h
    exact ⟨hp.onward.trans heff.onward, by rw [heff.recvSame.minhpRecv_eq]; exact hp.fit,
      timerProcDelack_behind h hp.behind, hp.ready.timerProcDelack h⟩
  | sndpkt h =>
    have heff := timerProcSndpkt_effect h
    have ht := heff.table_eq
    exact hp.of_same (Onward.of_eq heff.tc_same.rcvNxt (by rw [ht])) (by rw [ht]) heff.ackdeque_eq
      (hp.ready.of_eq (by rw [ht]) (Or.inl heff.tc_same.tDelackState) heff.ackdeque_eq)

/-- In every run of a connected process in which each SYN handled comes from the destination and is not
an old one, `rcv_nxt` never goes back, the destination stays, and no pass of `proc_delack` fails the
assertion in `sendack`. -/
theorem rcvNxt_monotone (p₀ p q : Process) (hopen : Opened p₀)
    (hp : Relation.ReflTransGen (ProcStepIf NumbersCall) p₀ p)
    (hq : Relation.ReflTransGen (ProcStepIf NumbersCall) p q) :
    p.stb.tc.rcvNxt ≤ q.stb.tc.rcvNxt ∧ q.stb.dst = p₀.stb.dst ∧
      ∀ now, ∃ q', timerProcDelack now q = .ok q' := by
  have hf := hopen.fresh.1
  have h₀ : Numbered p₀ p₀ :=
    ⟨Onward.refl _, by simp [hf.minhpRecv], hf.acksBehind, hf.ackReady⟩
  have hnp := reach_inv (Numbered p₀) (fun _ _ hs hst => hs.step hst) h₀ hp
  have hself : Numbered p p := ⟨Onward.refl _, hnp.fit, hnp.behind, hnp.ready⟩
  have hnq := reach_inv (Numbered p) (fun _ _ hs hst => hs.step hst) hself hq
  exact ⟨hnq.onward.rcvNxt_le, hnq.onward.dst_eq.trans hnp.onward.dst_eq, fun now =>
    timerProcDelack_returns now hnq.ready hnq.behind⟩

/-- A call with one datagram, which may be a SYN of the destination that is not an old one. -/
theorem numbersCall_single (now : ℕ) {p : Process} {d : Datagram} (hrs : p.stb.runstate = .getPkt)
    (hfit : NumbersFit (recvPkg d)) (hsyn : (recvPkg d).t.syn = true →
      d.src = p.stb.dst ∧ p.stb.tc.rcvNxt ≤ u32 (((recvPkg d).t.seq : ℤ) + 1)) :
    NumbersCall now p [d] := by
  refine ⟨fun d' hd => List.mem_singleton.mp hd ▸ hfit, ?_⟩
  have hgiven : ∀ d' ∈ [d], d' = d := fun d' hd => List.mem_singleton.mp hd
  intro s hv hst tp htp
  obtain ⟨d', hd⟩ := (visits_fsmOk hgiven hv).handling (by rw [hst]; trivial)
  obtain rfl : d' = d := hd.given
  -- the datagram is taken by the first turn, and no later turn takes another
  have hkept := hv.inv (fun x => x = runSt p [d'] ∨ x.pending = [] ∧ (Handles x.state → x.pr = p))
    (Or.inl rfl) (by
      intro x y hvx hx hstep
      have ht := (runStep_turn (visits_fsmOk hgiven hvx) hstep).1
      have hget := runSt_getPkt hrs [d']
      cases ht with
      | receive _ hp =>
        rcases hx with rfl | ⟨hnil, _⟩
        · obtain ⟨rfl, rfl⟩ := List.cons.inj hp
          exact Or.inr ⟨rfl, fun _ => rfl⟩
        · rw [hnil] at hp
          cases hp
      | old hs hst | sendback hs _ hst | noSendback hs hst =>
        rcases hx with rfl | ⟨hnil, _⟩
        · rw [hget] at hs
          cases hs
        · exact Or.inr ⟨hnil, fun h => absurd h (not_handles_after hst)⟩
      | syn hs | fin hs | ack hs | recovered hs | unrecovered hs | inOrder hs | future hs =>
        rcases hx with rfl | ⟨hnil, _⟩
        · rw [hget] at hs
          cases hs
        · exact Or.inr ⟨hnil, fun h => absurd h id⟩)
  have hpr : s.pr = p := by
    rcases hkept with rfl | ⟨_, hpr⟩
    · rw [runSt_getPkt hrs] at hst
      cases hst
    · exact hpr (by rw [hst]; trivial)
  have hc := hd.classified
  rw [hst] at hc
  rw [hd.tp_eq] at htp
  cases htp
  cases classified_of_ok hc with
  | syn hyes =>
    obtain ⟨hsrc, hle⟩ := hsyn hyes
    exact ⟨by rw [hd.src_eq, hpr, hsrc], by rw [hpr]; exact hle⟩

/-- A client receives one byte, and then a SYN of its peer with the next number. -/
def synSession : Except Halt (Process × Process × Process) := do
  let c ← touConnect (Process.init 3 1) ⟨2, 80⟩ 425984 (synAckFrom ⟨2, 80⟩ 0 1)
  let r1 ← run 5 c.2 [segmentFrom ⟨2, 80⟩ 1 1 [65]]
  let r2 ← run 6 r1.pr [synAckFrom ⟨2, 80⟩ 2 1]
  return (c.2, r1.pr, r2.pr)

theorem rcvNxt_monotone_syn : ∃ c p q, Opened c ∧ Relation.ReflTransGen (ProcStepIf NumbersCall) c p ∧
    Relation.ReflTransGen (ProcStepIf NumbersCall) p q ∧ c.stb.tc.rcvNxt = 1 ∧ p.stb.tc.rcvNxt = 2 ∧
    q.stb.tc.rcvNxt = 3 ∧ q.stb.sockstate = .synReceived ∧ p.stb.tc.rcvNxt ≤ q.stb.tc.rcvNxt ∧
    q.stb.dst = c.stb.dst ∧ ∃ q', timerProcDelack 10000 q = .ok q' := by
  have hnum : synSession.toOption.map (fun x => ((x.1.stb.dst, x.1.stb.tc.rcvNxt, x.1.stb.runstate),
      (x.2.1.stb.dst, x.2.1.stb.tc.rcvNxt, x.2.1.stb.runstate),
      x.2.2.stb.tc.rcvNxt, x.2.2.stb.sockstate)) =
      some ((⟨2, 80⟩, 1, .getPkt), (⟨2, 80⟩, 2, .getPkt), 3, .synReceived) := by decide +kernel
  cases hx : synSession with
  | error e =>
    rw [hx] at hnum
    cases hnum
  | ok x =>
    rw [hx] at hnum
    obtain ⟨c, hc, hx⟩ := of_bind_ok hx
    obtain ⟨r1, h1, hx⟩ := of_bind_ok hx
    obtain ⟨r2, h2, hx⟩ := of_bind_ok hx
    cases hx
    simp only [Except.toOption, Option.map_some, Option.some.injEq, Prod.mk.injEq] at hnum
    obtain ⟨⟨_, hrc, hsc⟩, ⟨hdp, hrp, hsp⟩, hrq, hst⟩ := hnum
    have hopen : Opened c.2 := Opened.connect (b := c.1) hc
    have hfit : NumbersFit (recvPkg (segmentFrom ⟨2, 80⟩ 1 1 [65])) ∧
        NumbersFit (recvPkg (synAckFrom ⟨2, 80⟩ 2 1)) := by
      unfold NumbersFit
      decide +kernel
    have hbyte : ProcStepIf NumbersCall c.2 r1.pr := by
      refine ProcStepIf.run (numbersCall_single 5 hsc hfit.1 ?_) h1
      intro hsyn
      have hno : (recvPkg (segmentFrom ⟨2, 80⟩ 1 1 [65])).t.syn = false := by decide +kernel
      rw [hno] at hsyn
      cases hsyn
    have hsyn : ProcStepIf NumbersCall r1.pr r2.pr := by
      refine ProcStepIf.run (numbersCall_single 6 hsp hfit.2 ?_) h2
      have hseq : u32 (((recvPkg (synAckFrom ⟨2, 80⟩ 2 1)).t.seq : ℤ) + 1) = 3 := by decide +kernel
      exact fun _ => ⟨hdp.symm, by rw [hrp, hseq]; decide⟩
    obtain ⟨hle, hdst, htimer⟩ := rcvNxt_monotone c.2 r1.pr r2.pr hopen
      (Relation.ReflTransGen.single hbyte) (Relation.ReflTransGen.single hsyn)
    exact ⟨c.2, r1.pr, r2.pr, hopen, Relation.ReflTransGen.single hbyte,
      Relation.ReflTransGen.single hsyn, hrc, hrp, hrq, hst, hle, hdst, htimer 10000⟩

/-! ## A replayed SYN -/

/-- A client receives one byte, and then the SYN-ACK of its handshake once more. -/
def replaySession : Except Halt (Process × Process) := do
  let c ← touConnect (Process.init 3 1) ⟨2, 80⟩ 425984 (synAckFrom ⟨2, 80⟩ 0 1)
  let r1 ← run 5 c.2 [segmentFrom ⟨2, 80⟩ 1 1 [65]]
  let r2 ← run 6 r1.pr [synAckFrom ⟨2, 80⟩ 0 1]
  return (r1.pr, r2.pr)

/-- The replayed SYN-ACK moves `rcv_nxt` back by one byte, and the next timer pass fails the assertion. -/
theorem replayed_synAck_moves_back :
    ∃ p₀ p q, Opened p₀ ∧ Relation.ReflTransGen ProcStep p₀ p ∧ ProcStep p q ∧
      q.stb.tc.rcvNxt < p.stb.tc.rcvNxt ∧ timerProcDelack 10000 q = .error (.assertFail .sendack) := by
  have hrcv : replaySession.toOption.map (fun x => (x.1.stb.tc.rcvNxt, x.2.stb.tc.rcvNxt)) =
      some (2, 1) := by decide +kernel
  have htimer : replaySession.toOption.map (fun x => haltOf (timerProcDelack 10000 x.2)) =
      some (some (.assertFail .sendack)) := by decide +kernel
  cases hx : replaySession with
  | error e =>
    rw [hx] at hrcv
    cases hrcv
  | ok x =>
    rw [hx] at hrcv htimer
    simp only [Except.toOption, Option.map_some, Option.some.injEq, Prod.mk.injEq] at hrcv htimer
    obtain ⟨c, hc, hx⟩ := of_bind_ok hx
    obtain ⟨r1, h1, hx⟩ := of_bind_ok hx
    obtain ⟨r2, h2, hx⟩ := of_bind_ok hx
    cases hx
    have hp : r1.pr.stb.tc.rcvNxt = 2 := hrcv.1
    have hq : r2.pr.stb.tc.rcvNxt = 1 := hrcv.2
    refine ⟨c.2, r1.pr, r2.pr, ?_, Relation.ReflTransGen.single (ProcStepIf.run trivial h1),
      ProcStepIf.run trivial h2, by omega, haltOf_eq_some.mp htimer⟩
    exact Opened.connect (b := c.1) hc

end Process
end TcpOverUdp
