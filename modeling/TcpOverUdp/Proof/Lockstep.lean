import TcpOverUdp.Proof.Delivery
import TcpOverUdp.Proof.AckEvents
import TcpOverUdp.Proof.InOrder

/-! # A transfer in lockstep

Two endpoints in lockstep: a full segment is sent, delivered and, with the next call of `proc_delack`
that sends an ACK, acknowledged. Without losses this goes on as long as sequence numbers last, whether the
receiving application takes the bytes or not, so a segment that does not fit is acknowledged and gone.
-/
namespace TcpOverUdp
open MachineInt Pieces
set_option autoImplicit false

namespace Process

/-! ## The sender -/

/-- A sender in slow start that has `f` bytes in flight and nothing left to send. -/
structure SlowStart (nxt f : ℕ) (p : Process) : Prop where
  own : Own p.stb.sockd p.timerheap
  established : p.stb.sockstate = .established
  runstate : p.stb.runstate = .getPkt
  cbSend : p.stb.cbSend.contents = []
  sndNxt_eq : p.stb.tc.sndNxt = nxt
  sndUna_eq : p.stb.tc.sndUna + f = nxt
  rcvNxt_lt : p.stb.tc.rcvNxt < 4294967296
  ccState : p.stb.tc.ccState = .ss
  ssthresh : p.stb.tc.sndSsthresh = touMaxSsthresh
  cwnd_ge : 2912 ≤ p.stb.tc.sndCwnd
  cwnd_le : p.stb.tc.sndCwnd ≤ 3145728
  awnd_ge : 2912 ≤ p.stb.tc.sndAwnd

section Sender
variable {nxt f : ℕ} {p : Process}

/-- What is one segment and fits the window leaves as one segment. -/
theorem send_whole (now : ℕ) {l : ℕ} (hlen : p.stb.cbSend.contents.length = l) (h0 : 0 < l)
    (hl : l ≤ touSmss) (hst : p.stb.tc.ccState ≠ .ca) (hmin : minSendSize ≤ s32 (getSendSize p.stb))
    (hfit : l ≤ windowEdge p.stb - p.stb.tc.sndNxt) : send now p = .ok (afterSegment now p l) := by
  have hdata : p.stb.cbSend.contents ≠ [] := by
    intro h
    rw [h, List.length_nil] at hlen
    omega
  obtain ⟨q, pieces, hq, he, hne⟩ := send_transmits now hdata (fun h => absurd h hst) fun _ => hmin
  obtain ⟨ls, q', hq', hemits⟩ := send_emits now p
  rw [hq] at hq'
  cases hq'
  cases hemits with
  | stop =>
    have hsame := he.sndNxt_eq
    obtain ⟨x, rest, rfl⟩ := List.exists_cons_of_ne_nil hne
    have hpos := (he.size_le x List.mem_cons_self).1
    rw [List.flatten_cons, List.length_append] at hsame
    omega
  | @seg _ _ k ls hk hrest =>
    have hsize := hk.size_eq
    have hkl : k = l := by omega
    subst hkl
    have hafter := length_afterSegment now hk
    cases hrest with
    | stop => exact hq
    | seg hk' _ =>
      have hpos := hk'.pos
      have hle := hk'.le_contents
      omega

theorem SlowStart.getSendSize_eq (hp : SlowStart nxt f p) (hf : f ≤ 1456) (hnxt : nxt < 8388608) :
    windowEdge p.stb = p.stb.tc.sndUna + p.stb.tc.getwnd ∧ 2912 ≤ p.stb.tc.getwnd ∧
      s32 (getSendSize p.stb) = p.stb.tc.getwnd - f := by
  have hwnd := p.stb.tc.getwnd_eq
  have hcwnd := hp.cwnd_ge
  have hawnd := hp.awnd_ge
  have huna := hp.sndUna_eq
  have hn := hp.sndNxt_eq
  have hedge : windowEdge p.stb = p.stb.tc.sndUna + p.stb.tc.getwnd := windowEdge_eq (by omega)
  have hsize := Process.getSendSize_eq p.stb
  refine ⟨hedge, by omega, ?_⟩
  rw [s32_cast _ (by omega), hsize, hedge]
  omega

theorem SlowStart.push (hp : SlowStart nxt f p) {payload : List Byte} (hlen : payload.length = 1456) :
    ∃ cb, pushsndq p payload 1456 = (1456, p.setTable { p.stb with cbSend := cb }) ∧
      cb.contents = payload := by
  obtain ⟨hcount, hcontents⟩ := p.stb.cbSend.insert_room payload (by omega) (by
    rw [RingBuf.getAvSize_eq, hp.cbSend, hlen]
    decide)
  rw [hlen] at hcount
  rw [hp.cbSend, List.nil_append, hlen] at hcontents
  exact ⟨_, Prod.ext hcount rfl, hcontents⟩

/-- The segment has left, and nothing else is different. -/
theorem SlowStart.afterSegment (now : ℕ) (hp : SlowStart nxt f p) {cb : SockBuf}
    (hcb : cb.contents.length = 1456)
    (hsend : send now (p.setTable { p.stb with cbSend := cb }) =
      .ok (Process.afterSegment now (p.setTable { p.stb with cbSend := cb }) 1456)) :
    SlowStart (nxt + 1456) (f + 1456)
      (Process.afterSegment now (p.setTable { p.stb with cbSend := cb }) 1456) where
  own := own_rule.send hsend hp.own
  established := hp.established
  runstate := hp.runstate
  cbSend := by
    refine (contents_takenTable (by decide)).trans ?_
    show cb.contents.drop 1456 = []
    rw [← hcb, List.drop_length]
  sndNxt_eq := by
    show p.stb.tc.sndNxt + 1456 = nxt + 1456
    rw [hp.sndNxt_eq]
  sndUna_eq := by
    show p.stb.tc.sndUna + (f + 1456) = nxt + 1456
    rw [← hp.sndUna_eq, Nat.add_assoc]
  rcvNxt_lt := hp.rcvNxt_lt
  ccState := hp.ccState
  ssthresh := hp.ssthresh
  cwnd_ge := hp.cwnd_ge
  cwnd_le := hp.cwnd_le
  awnd_ge := hp.awnd_ge

/-- A full segment is taken and leaves at once. -/
theorem SlowStart.touSend (now : ℕ) (hp : SlowStart nxt f p) (hf : f ≤ 1456) (hnxt : nxt < 8388608)
    {payload : List Byte} (hlen : payload.length = 1456) :
    ∃ q, Process.touSend now p payload 1456 = .ok (1456, q) ∧ SlowStart (nxt + 1456) (f + 1456) q ∧
      ∃ tx ∈ q.sent, tx.pkt = TouPkg.segment nxt p.stb.tc.rcvNxt payload := by
  obtain ⟨hedge, hwnd, hsize⟩ := hp.getSendSize_eq hf hnxt
  have hn := hp.sndNxt_eq
  have hu := hp.sndUna_eq
  obtain ⟨cb, hpush, hcontents⟩ := hp.push hlen
  have hcb : cb.contents.length = 1456 := by rw [hcontents, hlen]
  have hsend := @send_whole (p.setTable { p.stb with cbSend := cb }) now 1456 hcb (by decide) (le_refl _)
    (by
      show p.stb.tc.ccState ≠ .ca
      rw [hp.ccState]
      decide)
    (by
      show minSendSize ≤ s32 (getSendSize p.stb)
      rw [hsize]
      unfold minSendSize
      omega)
    (by
      show 1456 ≤ windowEdge p.stb - p.stb.tc.sndNxt
      omega)
  refine ⟨_, ?_, hp.afterSegment now hcb hsend, _, List.mem_append_right _ List.mem_cons_self, ?_⟩
  · unfold Process.touSend
    simp only [hpush]
    rw [hsend]
    rfl
  · show TouPkg.segment p.stb.tc.sndNxt p.stb.tc.rcvNxt (cb.contents.take 1456) = _
    rw [hn, ← hcb, List.take_length, hcontents]

theorem SlowStart.addwnd (hp : SlowStart nxt f p) :
    p.stb.tc.addwnd.2.ccState = .ss ∧ p.stb.tc.addwnd.2.sndSsthresh = touMaxSsthresh ∧
      p.stb.tc.addwnd.2.sndCwnd = min (p.stb.tc.sndCwnd + 1456) 3145728 := by
  have hle := hp.cwnd_le
  have hth := hp.ssthresh
  have hsum : u32 ((p.stb.tc.sndCwnd : ℤ) + touSmss) = p.stb.tc.sndCwnd + 1456 :=
    u32_add _ _ (by unfold touSmss; omega)
  unfold TouCb.addwnd
  rw [hp.ccState]
  simp only
  rw [if_pos (by rw [hth]; unfold touMaxSsthresh; omega), hsum, TouCb.ckSize_eq]
  exact ⟨rfl, hth, rfl⟩

/-- The ACK of all that is in flight. -/
theorem SlowStart.acked (now : ℕ) (hp : SlowStart nxt f p) (hf : 0 < f) {d : Datagram}
    (hd : IsPureAck d nxt) : ∃ r, Process.run now p [d] = .ok r ∧ SlowStart nxt 0 r.pr := by
  have hn := hp.sndNxt_eq
  have hu := hp.sndUna_eq
  have hgt : p.stb.tc.sndUna < (recvPkg d).t.ackSeq := by
    rw [hd.ackSeq]
    omega
  obtain ⟨q, h1⟩ : ∃ q, handleAck now p (recvPkg d) = .ok q := by
    cases h1 : handleAck now p (recvPkg d) with
    | ok q => exact ⟨q, rfl⟩
    | error e =>
      exfalso
      rcases handleAck_error h1 with ⟨_, hdel⟩ | ⟨_, heq, _⟩
      · obtain ⟨r, hr⟩ := Timer.deleteTimer_returns (recvPkg d).t.ackSeq hp.own
        rw [hr] at hdel
        cases hdel
      · omega
  have he := handleAck_effect h1
  have ht := he.table_eq
  obtain ⟨hw, hawnd⟩ := handleAck_new hgt h1
  have hempty : q.stb.cbSend.contents = [] := (congrArg (fun t => t.cbSend.contents) ht).trans hp.cbSend
  obtain ⟨q', _, h2, _⟩ := send_emitted now q
  have hsame : q' = q := send_nothing hempty h2
  subst hsame
  obtain ⟨hst, hth, hgrow⟩ := hp.addwnd
  have hcwnd := hw.sndCwnd.trans hgrow
  refine ⟨{ rv := (d.bytes.take recvBufSize).length, pr := q', pending := [] }, ?_, ?_⟩
  · rw [run_pureAck now [] hd hp.established hp.runstate, if_pos (by omega), h1, ok_bind, h2, ok_bind]
    rfl
  · have hge := hp.cwnd_ge
    refine ⟨own_rule.ack _ _ _ (by rw [hd.ackSeq]; omega) he hp.own,
      (congrArg SockTb.sockstate ht).trans hp.established, (congrArg SockTb.runstate ht).trans hp.runstate,
      hempty, he.sndNxt_eq.trans hn, ?_, ?_, hw.ccState.trans hst, hw.sndSsthresh.trans hth,
      ?_, ?_, ?_⟩
    · show q'.stb.tc.sndUna + 0 = nxt
      rw [he.sndUna_eq, hd.ackSeq]
      omega
    · show q'.stb.tc.rcvNxt < _
      rw [he.rcvNxt_eq]
      exact hp.rcvNxt_lt
    · rw [hcwnd]
      exact le_min (le_trans hge (Nat.le_add_right _ _)) (by decide)
    · rw [hcwnd]
      exact min_le_right _ _
    · show 2912 ≤ q'.stb.tc.sndAwnd
      rw [hawnd]
      exact hp.awnd_ge

end Sender

/-! ## The two together -/

/-- `proc_delack` sends an ACK, unless the last call did. -/
theorem procDelack_sends {now : ℕ} {p q : Process} (h : procDelack now p = .ok q) :
    p.stb.tc.tDelackState = .que ∧ q.stb.tc.tDelackState = .xmit ∨
      ∃ tx ∈ q.sent, tx.pkt = TouPkg.segment p.stb.tc.sndNxt p.stb.tc.rcvNxt [] := by
  cases procDelack_ok h with
  | putOff hst => exact Or.inl ⟨hst, rfl⟩
  | sent => exact Or.inr ⟨_, List.mem_append_right _ List.mem_cons_self, genPktAck_eq p.stb⟩

/-- All that was sent has arrived, and at most one segment is not acknowledged. -/
structure Lockstep (nxt f : ℕ) (x : Endpoints) : Prop where
  sender : SlowStart nxt f x.sender
  flight_le : f ≤ 1456
  idle : Idle x.receiver
  rcvNxt_eq : x.receiver.stb.tc.rcvNxt = nxt
  sndNxt_lt : x.receiver.stb.tc.sndNxt < 4294967296
  /-- After an ACK nothing is in flight. -/
  queued : x.receiver.stb.tc.tDelackState = .que → f = 0

theorem carries_segmentFrom {sent : List Tx} {seq ackSeq : ℕ} {payload : List Byte}
    (h : ∃ tx ∈ sent, tx.pkt = TouPkg.segment seq ackSeq payload) (src : Addr) :
    ∀ d ∈ [segmentFrom src seq ackSeq payload], Carries sent d := by
  obtain ⟨tx, htx, hpkt⟩ := h
  intro d hd
  rw [List.mem_singleton.mp hd]
  refine ⟨tx, htx, ?_⟩
  rw [hpkt]
  rfl

/-- The receiver takes the next segment, with what it stores and whether it sends an ACK. -/
theorem idle_takes {nxt ackSeq : ℕ} {p : Process} (hp : Idle p) (hrcv : p.stb.tc.rcvNxt = nxt)
    (hnxt : nxt < 8388608) (hack : ackSeq < 4294967296) {payload : List Byte}
    (hlen : payload.length = 1456) :
    ∃ r, Process.run 5 p [segmentFrom ⟨0, 0⟩ nxt ackSeq payload] = .ok r ∧ Idle r.pr ∧
      r.pr.stb.tc.rcvNxt = nxt + 1456 ∧ r.pr.stb.tc.sndNxt = p.stb.tc.sndNxt ∧
      StoredWhole p.stb payload r.pr.stb.cbRecv ∧
      (p.stb.tc.tDelackState = .que ∧ r.pr.stb.tc.tDelackState = .xmit ∨
        ∃ tx ∈ r.pr.sent, tx.pkt = TouPkg.segment p.stb.tc.sndNxt (nxt + 1456) []) := by
  have hrecv : recvPkg (segmentFrom ⟨0, 0⟩ nxt ackSeq payload) = TouPkg.segment nxt ackSeq payload :=
    recvPkg_segmentFrom _ (by omega) hack (by omega)
  have hbuf : (recvPkg (segmentFrom ⟨0, 0⟩ nxt ackSeq payload)).buf = payload := by rw [hrecv]; rfl
  have hseq : (recvPkg (segmentFrom ⟨0, 0⟩ nxt ackSeq payload)).t.seq = nxt := by rw [hrecv]; rfl
  obtain ⟨cb, q, hcb, hdel, hidle, hrun⟩ := hp.run_inOrder 5
    (by rw [hrecv]; exact isData_segment (by omega)) (hseq.trans hrcv.symm) (by rw [hseq, hbuf]; omega)
  have hnext : (inOrderTable p.stb (recvPkg (segmentFrom ⟨0, 0⟩ nxt ackSeq payload)) cb).tc.rcvNxt =
      nxt + 1456 := by
    unfold inOrderTable
    simp only [hseq, hbuf, hlen]
  have heff := procDelack_effect hdel
  have hsends := procDelack_sends hdel
  have hnumber : (p.setTable (inOrderTable p.stb (recvPkg (segmentFrom ⟨0, 0⟩ nxt ackSeq payload)) cb)).stb.tc.rcvNxt =
      nxt + 1456 := hnext
  rw [hnumber] at hsends
  rw [hbuf] at hcb
  refine ⟨_, hrun, hidle, heff.recvSame.rcvNxt_eq.trans hnext, heff.sendSame.sndNxt_eq, ?_, hsends⟩
  show StoredWhole _ _ q.stb.cbRecv
  rw [show q.stb.cbRecv = cb from heff.recvSame.cbRecv_eq]
  exact hcb

/-- One more segment. -/
theorem Lockstep.round {C : Process → List Datagram → Prop} {nxt f : ℕ} {x : Endpoints}
    (hx : Lockstep nxt f x) (hnxt : nxt < 8388608) {payload : List Byte} (hlen : payload.length = 1456)
    (hC : ∀ d, (recvPkg d).buf = payload → C x.receiver [d]) :
    ∃ y f', Relation.ReflTransGen (NetStep C) x y ∧ Lockstep (nxt + 1456) f' y ∧
      y.accepted = x.accepted ++ payload ∧ y.returned = x.returned ∧
      StoredWhole x.receiver.stb payload y.receiver.stb.cbRecv := by
  have hackseq := hx.sender.rcvNxt_lt
  obtain ⟨a, htou, ha, htx⟩ := hx.sender.touSend 5 hx.flight_le hnxt hlen
  obtain ⟨r, hrun, hidle, hrcv, hsnd, hstored, hack⟩ := idle_takes hx.idle hx.rcvNxt_eq hnxt hackseq hlen
  have hlt : r.pr.stb.tc.sndNxt < 4294967296 := hsnd ▸ hx.sndNxt_lt
  obtain ⟨x1, hx1⟩ : ∃ x1, x1 = { x with sender := a, accepted := x.accepted ++ payload } := ⟨_, rfl⟩
  obtain ⟨x2, hx2⟩ : ∃ x2, x2 = { x1 with receiver := r.pr } := ⟨_, rfl⟩
  have hsend : NetStep C x x1 := by
    have hstep := @NetStep.touSend C x 5 payload 1456 _ (by rw [hlen]; decide) htou
    have htake : payload.take (1456 : ℤ).toNat = payload := List.take_of_length_le (le_of_eq hlen)
    simp only [htake] at hstep
    rw [hx1]
    exact hstep
  have hdeliver : NetStep C x1 x2 := by
    rw [hx2]
    refine @NetStep.runReceiver C x1 5 [segmentFrom ⟨0, 0⟩ nxt x.sender.stb.tc.rcvNxt payload] r ?_ ?_ ?_
    · rw [hx1]
      exact carries_segmentFrom htx _
    · rw [hx1]
      refine hC _ ?_
      rw [recvPkg_segmentFrom _ (by omega) hackseq (by omega)]
      rfl
    · rw [hx1]
      exact hrun
  have hx12 : Relation.ReflTransGen (NetStep C) x x2 := (Relation.ReflTransGen.single hsend).tail hdeliver
  rcases hack with ⟨hque, hxmit⟩ | hack
  · -- no ACK: the segment stays in flight
    have hf : f = 0 := hx.queued hque
    subst hf
    rw [hx2, hx1] at hx12
    refine ⟨_, _, hx12, ⟨ha, by omega, hidle, hrcv, hlt, ?_⟩, rfl, rfl, hstored⟩
    intro h
    rw [show r.pr.stb.tc.tDelackState = .que from h] at hxmit
    cases hxmit
  · have hpure : IsPureAck (segmentFrom ⟨0, 0⟩ r.pr.stb.tc.sndNxt (nxt + 1456) []) (nxt + 1456) :=
      isPureAck_segmentFrom _ hlt (by omega)
    rw [← hsnd] at hack
    obtain ⟨r', hr', hacked⟩ := ha.acked 5 (by omega) hpure
    have hreturn : NetStep C x2 { x2 with sender := r'.pr } := by
      refine @NetStep.runSender C x2 5 [segmentFrom ⟨0, 0⟩ r.pr.stb.tc.sndNxt (nxt + 1456) []] r' ?_ ?_
      · rw [hx2]
        exact carries_segmentFrom hack _
      · rw [hx2, hx1]
        exact hr'
    have hx13 := hx12.tail hreturn
    rw [hx2, hx1] at hx13
    exact ⟨_, 0, hx13, ⟨hacked, by omega, hidle, hrcv, hlt, fun _ => rfl⟩, rfl, rfl, hstored⟩

/-- The receiving application takes all that is in `cb_recv`. -/
theorem Lockstep.drain {C : Process → List Datagram → Prop} {nxt f : ℕ} {x : Endpoints}
    (hx : Lockstep nxt f x) :
    ∃ y, NetStep C x y ∧ Lockstep nxt f y ∧ y.accepted = x.accepted ∧
      y.returned = x.returned ++ x.receiver.stb.cbRecv.contents ∧ y.receiver.stb.cbRecv.contents = [] := by
  obtain ⟨hfront, hrest⟩ := touRecv_front x.receiver touMaxCircularBuf (by
    rw [hx.idle.established]
    decide)
  have hle : x.receiver.stb.cbRecv.contents.length ≤ (s32 (touMaxCircularBuf : ℕ)).toNat :=
    x.receiver.stb.cbRecv.contents_le
  rw [List.take_of_length_le hle] at hfront
  rw [List.drop_eq_nil_of_le hle] at hrest
  refine ⟨_, NetStep.touRecv x touMaxCircularBuf, ⟨hx.sender, hx.flight_le, ?_, hx.rcvNxt_eq, hx.sndNxt_lt,
    hx.queued⟩, rfl, congrArg (x.returned ++ ·) hfront, hrest⟩
  have hi := hx.idle
  exact ⟨hi.established, hi.runstate, hi.minhpRecv, hi.ackReady.ne_err, hi.ackReady.queued⟩

/-- 4321 segments fit in `cb_recv`. -/
theorem Lockstep.fill {x₀ : Endpoints} (h₀ : Lockstep 1 0 x₀) (hacc : x₀.accepted = [])
    (hempty : x₀.receiver.stb.cbRecv.contents = []) (b : Byte) (k : ℕ) (hk : k ≤ 4321) :
    ∃ x f, Relation.ReflTransGen (NetStep fun _ _ => True) x₀ x ∧ Lockstep (1 + 1456 * k) f x ∧
      x.accepted = List.replicate (1456 * k) b ∧ x.returned = x₀.returned ∧
      x.receiver.stb.cbRecv.contents = List.replicate (1456 * k) b := by
  induction k with
  | zero => exact ⟨x₀, 0, Relation.ReflTransGen.refl, h₀, hacc, rfl, hempty⟩
  | succ k ih =>
    obtain ⟨x, f, hx, hlock, haccept, hret, hcb⟩ := ih (by omega)
    have hlen : (List.replicate 1456 b).length = 1456 := List.length_replicate
    obtain ⟨y, f', hy, hlock', haccept', hret', hstored⟩ :=
      hlock.round (C := fun _ _ => True) (by omega) hlen fun _ _ => trivial
    have hroom := hstored.room (by
      rw [RingBuf.getAvSize_eq, hcb, List.length_replicate, List.length_replicate]
      unfold touMaxCircularBuf
      omega)
    refine ⟨y, f', hx.trans hy, ?_, ?_, hret'.trans hret, ?_⟩
    · rw [show 1 + 1456 * (k + 1) = 1 + 1456 * k + 1456 by ring]
      exact hlock'
    · rw [haccept', haccept, List.replicate_append_replicate]
      rfl
    · rw [hroom, hcb, List.replicate_append_replicate]
      rfl

end Process
end TcpOverUdp
