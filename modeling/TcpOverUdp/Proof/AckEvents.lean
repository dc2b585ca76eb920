import TcpOverUdp.Proof.SenderSteps

/-! # What stale and repeated ACKs do to a sender

With nothing in flight a sender is never stuck (`no_send_stall`). An ACK with an old number goes through
`addwnd` as if it were new, and one that repeats `snd_una` is counted as a duplicate even when nothing
is in flight: the congestion variables stay as they are only where these operations change nothing.
-/
namespace TcpOverUdp
open MachineInt Pieces TouCb
set_option autoImplicit false

namespace Process

/-- `run` handles the pure ACK `tp`. -/
inductive AckHandled (tp : TouPkg) : Process → Process → Prop
  | mk {now : ℕ} {p p1 q : Process} (hc : processGetPktState p.stb tp = .ok .ackWithoutData)
      (h1 : handleAck now p tp = .ok p1) (h2 : send now p1 = .ok q) : AckHandled tp p q

/-- A call of `run` that takes a pure ACK handles it and does nothing else. -/
theorem run_ackHandled {now a : ℕ} {p : Process} {d : Datagram} {rest : List Datagram} {r : RunRes}
    (hd : IsPureAck d a) (hst : p.stb.sockstate = .established) (hrs : p.stb.runstate = .getPkt)
    (h : run now p (d :: rest) = .ok r) : AckHandled (recvPkg d) p r.pr := by
  rw [run_pureAck now rest hd hst hrs] at h
  split at h
  · rename_i ha
    obtain ⟨p1, h1, h⟩ := of_bind_ok h
    obtain ⟨p2, h2, h⟩ := of_bind_ok h
    cases h
    refine AckHandled.mk ?_ h1 h2
    rw [classify_pureAck hd hst, if_pos ha]
  · cases h

theorem AckHandled.steps {tp : TouPkg} {p q : Process} (h : AckHandled tp p q) :
    Relation.ReflTransGen SenderStep p q := by
  cases h with
  | mk hc h1 h2 => exact (Relation.ReflTransGen.single (SenderStep.ack hc h1)).tail (SenderStep.send h2)

/-! ## Nothing in flight -/

theorem send_transmits (now : ℕ) {p : Process} (hd : p.stb.cbSend.contents ≠ [])
    (hca : p.stb.tc.ccState = .ca → 0 < calNumCaxmit (s32 (getSendSize p.stb)))
    (hmin : p.stb.tc.ccState ≠ .ca → minSendSize ≤ s32 (getSendSize p.stb)) :
    ∃ q pieces, send now p = .ok q ∧ Emitted now p pieces q ∧ pieces ≠ [] := by
  have hlen : 0 < p.stb.cbSend.contents.length := List.length_pos_iff.mpr hd
  have ht : p.stb.cbSend.getTotalElements = p.stb.cbSend.contents.length := RingBuf.getTotalElements_eq _
  obtain ⟨s, hs⟩ : ∃ s : SendSt, s = { pr := p, xmitCnt := calNumCaxmit (s32 (getSendSize p.stb)) } :=
    ⟨_, rfl⟩
  have hpr : s.pr = p := by rw [hs]
  have hnotdone : sendStep now s ≠ .ok (.done s.pr) := by
    intro hdone
    unfold sendStep at hdone
    rw [hs] at hdone
    simp only [ht] at hdone
    rw [if_pos (by omega)] at hdone
    split at hdone
    · rename_i hst
      rw [if_neg (by have := hca hst; omega)] at hdone
      obtain ⟨_, _, hdone⟩ := of_bind_ok hdone
      cases hdone
    · rename_i hst
      rw [if_neg (by have := hmin hst; omega)] at hdone
      obtain ⟨_, _, hdone⟩ := of_bind_ok hdone
      cases hdone
  have hcount : CountFits s := hs ▸ countFits_start p
  rcases sendStep_cases now hcount with hdone | ⟨l, s', hl, hnext, hpr', hc'⟩
  · exact absurd hdone hnotdone
  · rw [hpr] at hl hpr'
    have hafter := length_afterSegment now hl
    have hpos := hl.pos
    rw [← hpr'] at hafter
    obtain ⟨ls, q, hq, he⟩ := sendLoop_emits now
      (p.stb.cbSend.contents.length + (calNumCaxmit (s32 (getSendSize p.stb))).toNat) s' hc' (by omega)
    rw [hpr'] at he
    have hsend : send now p = .ok q := by
      have hloop := (fuelLoop_next hnext).trans hq
      rw [hs] at hloop
      unfold send
      simp only [ht, Int.toNat_natCast]
      exact hloop
    have hnxt : p.stb.tc.sndNxt + l ≤ q.stb.tc.sndNxt :=
      he.inv (fun a => p.stb.tc.sndNxt + l ≤ a.stb.tc.sndNxt)
        (fun a k _ ha => le_trans ha (Nat.le_add_right _ k)) (le_refl _)
    obtain ⟨pieces, hp⟩ := send_ok hsend
    refine ⟨q, pieces, hsend, hp, ?_⟩
    rintro rfl
    have hsame := hp.sndNxt_eq
    rw [List.flatten_nil, List.length_nil] at hsame
    omega

theorem calNumCaxmit_pos {n : ℤ} (hn : 2 * touSmss ≤ n) : 0 < calNumCaxmit n := by
  unfold touSmss at hn
  have h0 : 0 ≤ n := by omega
  unfold calNumCaxmit touSmss
  simp only
  rw [Int.tdiv_eq_ediv_of_nonneg h0, Int.tmod_eq_emod_of_nonneg (by omega),
    Int.tmod_eq_emod_of_nonneg h0]
  split_ifs <;> omega

/-- A sender with data and nothing in flight transmits at once, whatever its congestion state. -/
theorem no_send_stall (p : Process) (hp : SenderReachable p) (hawnd : 2 * touSmss ≤ p.stb.tc.sndAwnd)
    (hseq : p.stb.tc.sndNxt < 4294967296 - touMaxCircularBuf)
    (hidle : p.stb.tc.sndUna = p.stb.tc.sndNxt) (hdata : p.stb.cbSend.contents ≠ []) (now : ℕ) :
    ∃ q pieces, send now p = .ok q ∧ Emitted now p pieces q ∧ pieces ≠ [] := by
  have hi := hp.windowInv
  have hge := hi.cwnd_ge
  have htwo := hi.cwnd_ge_two
  have hwnd := p.stb.tc.getwnd_eq
  have hsize := getSendSize_eq p.stb
  unfold touMaxCircularBuf at hseq
  unfold touSmss at hawnd hge htwo
  rw [windowEdge_eq (by omega)] at hsize
  have hcast : s32 (getSendSize p.stb) = p.stb.tc.getwnd := by
    rw [s32_cast _ (by omega)]
    omega
  refine send_transmits now hdata ?_ ?_
  · intro hca
    have hcwnd := htwo (Or.inl hca)
    refine calNumCaxmit_pos ?_
    rw [hcast]
    unfold touSmss
    omega
  · intro _
    rw [hcast]
    unfold minSendSize
    omega

/-- A client whose `touConnect` got the SYN-ACK it expects has nothing in flight. -/
theorem exists_idle_client : ∃ p, touConnect (Process.init 3 1) ⟨2, 80⟩ 425984 (synAckFrom ⟨2, 80⟩ 0 1) =
    .ok (true, p) ∧ Opened p ∧ p.stb.tc.sndUna = 1 ∧ p.stb.tc.sndNxt = 1 ∧
    p.stb.tc.sndAwnd = 125984 := by
  obtain ⟨p, hp, hopen, _⟩ := exists_client
  have hnum : (touConnect (Process.init 3 1) ⟨2, 80⟩ 425984 (synAckFrom ⟨2, 80⟩ 0 1)).toOption.map
      (fun r => (r.2.stb.tc.sndUna, r.2.stb.tc.sndNxt, r.2.stb.tc.sndAwnd)) = some (1, 1, 125984) := by
    decide +kernel
  rw [hp] at hnum
  simp only [Except.toOption, Option.map_some, Option.some.injEq, Prod.mk.injEq] at hnum
  exact ⟨p, hp, hopen, hnum⟩

theorem no_send_stall_oneByte : ∃ p q pieces, send 5 p = .ok q ∧ Emitted 5 p pieces q ∧ pieces ≠ [] := by
  obtain ⟨c, _, hopen, huna, hnxt, hawnd⟩ := exists_idle_client
  have hins := (c.stb.cbSend.insert_room [65] (by decide) (by
    rw [RingBuf.getAvSize_eq, hopen.fresh.1.cbSend]
    decide)).2
  have hdata : (pushsndq c [65] 1).2.stb.cbSend.contents = [65] := by
    rw [hopen.fresh.1.cbSend] at hins
    exact hins
  have hreach : SenderReachable (pushsndq c [65] 1).2 :=
    ⟨c, hopen, Relation.ReflTransGen.single (SenderStep.push c [65] 1)⟩
  obtain ⟨q, pieces, h⟩ := no_send_stall (pushsndq c [65] 1).2 hreach
    (show _ ≤ c.stb.tc.sndAwnd by rw [hawnd]; decide) (show c.stb.tc.sndNxt < _ by rw [hnxt]; decide)
    (show c.stb.tc.sndUna = c.stb.tc.sndNxt by rw [huna, hnxt]) (by rw [hdata]; simp) 5
  exact ⟨_, q, pieces, h⟩

/-! ## Stale ACKs -/

/-- `run` handles a pure ACK with an old number. -/
inductive StaleAck : Process → Process → Prop
  | mk {tp : TouPkg} {p q : Process} (hstale : tp.t.ackSeq < p.stb.tc.sndUna)
      (h : AckHandled tp p q) : StaleAck p q

theorem StaleAck.effect {p q : Process} (h : StaleAck p q) :
    q.stb.tc.sndUna = p.stb.tc.sndUna ∧ SameWindow p.stb.tc.addwnd.2 q.stb.tc := by
  cases h with
  | mk hstale h =>
    cases h with
    | mk _ h1 h2 =>
      rw [handleAck_stale _ hstale] at h1
      cases h1
      obtain ⟨pieces, he⟩ := send_ok h2
      refine ⟨?_, send_sameWindow h2⟩
      rw [he.table_eq]
      exact p.stb.tc.addwnd_frame.sndUna

theorem staleAck_exists {p : Process} {tp : TouPkg}
    (hc : processGetPktState p.stb tp = .ok .ackWithoutData) (hstale : tp.t.ackSeq < p.stb.tc.sndUna) :
    ∃ q, StaleAck p q := by
  obtain ⟨q, _, hq, _⟩ := send_emitted 0 (p.setTable { p.stb with tc := p.stb.tc.addwnd.2 })
  exact ⟨q, StaleAck.mk hstale (AckHandled.mk hc (handleAck_stale 0 hstale) hq)⟩

/-- Stale ACKs, any number of them, are without effect on the congestion state of a sender if and only
if `addwnd` changes nothing there. -/
theorem stale_acks_inert_iff (p : Process) (hp : SenderReachable p) (tp : TouPkg)
    (hc : processGetPktState p.stb tp = .ok .ackWithoutData) (hstale : tp.t.ackSeq < p.stb.tc.sndUna) :
    (∀ q, Relation.ReflTransGen StaleAck p q →
      q.stb.tc.sndUna = p.stb.tc.sndUna ∧ SameWindow p.stb.tc q.stb.tc) ↔ AddwndInert p.stb.tc := by
  have hi := hp.windowInv
  constructor
  · intro h
    obtain ⟨q, hq⟩ := staleAck_exists hc hstale
    have hsame := (h q (Relation.ReflTransGen.single hq)).2
    have hadd := hq.effect.2
    refine (addwnd_same_iff hi).mp ?_
    exact ⟨hadd.ccState.symm.trans hsame.ccState, hadd.dupackcount.symm.trans hsame.dupackcount,
      hadd.sndCwnd.symm.trans hsame.sndCwnd, hadd.sndSsthresh.symm.trans hsame.sndSsthresh⟩
  · intro hinert q hrun
    refine reach_inv (fun a : Process => a.stb.tc.sndUna = p.stb.tc.sndUna ∧
      SameWindow p.stb.tc a.stb.tc) ?_ ⟨rfl, SameWindow.refl _⟩ hrun
    rintro a b ⟨hu, hsame⟩ hab
    have hinert' := (addwnd_same_iff (hi.of_same hsame)).mpr (hinert.of_same hsame)
    exact ⟨hab.effect.1.trans hu, hsame.trans (hinert'.trans hab.effect.2)⟩

theorem stale_acks_inert_iff_client : ∃ p, SenderReachable p ∧
    ((∀ q, Relation.ReflTransGen StaleAck p q →
      q.stb.tc.sndUna = p.stb.tc.sndUna ∧ SameWindow p.stb.tc q.stb.tc) ↔ AddwndInert p.stb.tc) := by
  obtain ⟨p, _, hopen, huna, hnxt, _⟩ := exists_idle_client
  have hreach : SenderReachable p := ⟨p, hopen, Relation.ReflTransGen.refl⟩
  have hd : IsPureAck (segmentFrom ⟨2, 80⟩ 1 0 []) 0 := isPureAck_segmentFrom _ (by decide) (by decide)
  have hc := classify_pureAck hd hopen.fresh.2
  rw [if_pos (by omega)] at hc
  exact ⟨p, hreach, stale_acks_inert_iff p hreach _ hc (by rw [hd.ackSeq, huna]; decide)⟩

/-- An ACK below `snd_una` opens the window of a client that has sent nothing. -/
theorem stale_ack_opens_window : ∃ p r, Opened p ∧ IsPureAck (segmentFrom ⟨2, 80⟩ 1 0 []) 0 ∧
    0 < p.stb.tc.sndUna ∧ run 5 p [segmentFrom ⟨2, 80⟩ 1 0 []] = .ok r ∧
    p.stb.tc.sndCwnd = 2912 ∧ r.pr.stb.tc.sndCwnd = 4368 := by
  obtain ⟨p, hp, hopen, huna, _⟩ := exists_idle_client
  have hwnd : (touConnect (Process.init 3 1) ⟨2, 80⟩ 425984 (synAckFrom ⟨2, 80⟩ 0 1) >>= fun c => do
      let r ← run 5 c.2 [segmentFrom ⟨2, 80⟩ 1 0 []]
      return (c.2, r)).toOption.map (fun x => (x.1.stb.tc.sndCwnd, x.2.pr.stb.tc.sndCwnd)) =
      some (2912, 4368) := by decide +kernel
  rw [hp, ok_bind] at hwnd
  cases hr : run 5 p [segmentFrom ⟨2, 80⟩ 1 0 []] with
  | error e =>
    rw [hr] at hwnd
    cases hwnd
  | ok r =>
    rw [hr] at hwnd
    simp only [ok_bind, pure, Except.pure, Except.toOption, Option.map_some, Option.some.injEq,
      Prod.mk.injEq] at hwnd
    exact ⟨p, r, hopen, isPureAck_segmentFrom _ (by decide) (by decide), by omega, hr, hwnd.1, hwnd.2⟩

/-! ## Repeated ACKs on an idle connection -/

/-- The armed timers are those of segments of this connection that were sent. -/
structure TimersSent (p : Process) : Prop where
  own : Own p.stb.sockd p.timerheap
  fit : ∀ n ∈ p.timerheap.elems, n.payloadSize ≤ n.pId ∧ n.pId ≤ p.stb.tc.sndNxt
  nxt_lt : p.stb.tc.sndNxt < 4294967296

theorem TimersSent.of_from {p q : Process} (hp : TimersSent p) (hs : q.stb.sockd = p.stb.sockd)
    (hn : q.stb.tc.sndNxt = p.stb.tc.sndNxt) (hfrom : HeapFrom p.timerheap q.timerheap) :
    TimersSent q := by
  refine ⟨by rw [hs]; exact hp.own.of_from hfrom, ?_, by rw [hn]; exact hp.nxt_lt⟩
  intro n hmem
  obtain ⟨m, hm, hcopy⟩ := hfrom n hmem
  obtain ⟨hsize, hnxt⟩ := hp.fit m hm
  rw [hcopy.pId_eq, hn]
  exact ⟨le_trans hcopy.payloadSize_le hsize, hnxt⟩

theorem timersSent_rule : SenderRule TimersSent where
  same p q h hp := hp.of_from h.sockd_eq h.sndNxt_eq (h.heap_eq ▸ HeapFrom.refl _)
  ack p q a _ h hp := hp.of_from (by rw [h.table_eq]) h.sndNxt_eq h.heap_from
  timeout p q h hp := hp.of_from (by rw [h.table_eq]) h.tc_same.sndNxt h.heap_from
  segment now p l hl hp := by
    refine ⟨?_, ?_, hl.sndNxt_lt⟩
    · intro n hn
      rcases (MinHeap.mem_push _ _ _).mp hn with rfl | hn
      · exact ⟨rfl, rfl⟩
      · exact hp.own n hn
    · intro n hn
      rcases (MinHeap.mem_push _ _ _).mp hn with rfl | hn
      · refine ⟨?_, le_refl _⟩
        have hle : (cstr (p.stb.cbSend.contents.take l)).length ≤ l :=
          le_trans (cstr_length_le _) (le_of_eq hl.length_take)
        exact le_trans hle (Nat.le_add_left l _)
      · obtain ⟨hsize, hnxt⟩ := hp.fit n hn
        exact ⟨hsize, le_trans hnxt (Nat.le_add_right _ l)⟩

theorem SenderReachable.timersSent {p : Process} (h : SenderReachable p) : TimersSent p := by
  obtain ⟨p₀, hopen, hrun⟩ := h
  have hheap := hopen.fresh.1.timerheap
  have hnxt : p₀.stb.tc.sndNxt < 4294967296 := by
    cases hopen with
    | connect h =>
      rw [(touConnect_result h).2.sndNxt_eq]
      decide
    | accept hp h =>
      rcases touAccept_result h with ⟨_, hr⟩ | ⟨hb, _⟩
      · have hn : p₀.stb.tc.sndNxt = _ := hr.sndNxt_eq
        omega
      · cases hb
  refine reach_inv TimersSent (fun a b ha hst => timersSent_rule.event ?_ hst ha) ⟨?_, ?_, hnxt⟩ hrun
  · exact fun a buf len ha => ha.of_from rfl rfl (HeapFrom.refl _)
  · intro n hn
    rw [hheap] at hn
    cases hn
  · intro n hn
    rw [hheap] at hn
    cases hn

/-- A sender with nothing in flight and nothing to send. -/
structure IdleSender (p : Process) : Prop where
  una_eq : p.stb.tc.sndUna = p.stb.tc.sndNxt
  cbSend : p.stb.cbSend.contents = []
  window : WindowInv p.stb.tc
  timers : TimersSent p

/-- `n` pure ACKs in a row that repeat `snd_una`. -/
inductive DupAcks : ℕ → Process → Process → Prop
  | zero (p : Process) : DupAcks 0 p p
  | succ {n : ℕ} {p q r : Process} {tp : TouPkg} (h : DupAcks n p q)
      (heq : tp.t.ackSeq = q.stb.tc.sndUna) (hack : AckHandled tp q r) : DupAcks (n + 1) p r

theorem IdleSender.repeated {p q : Process} {tp : TouPkg} (hp : IdleSender p)
    (heq : tp.t.ackSeq = p.stb.tc.sndUna) (h : AckHandled tp p q) :
    q.stb = { p.stb with tc := (p.stb.tc.setdwnd p.stb.tc.sndUna).2 } ∧ IdleSender q := by
  have htimers : TimersSent q := by
    refine reach_inv TimersSent (fun a b ha hst => timersSent_rule.event ?_ hst ha) hp.timers h.steps
    exact fun a buf len ha => ha.of_from rfl rfl (HeapFrom.refl _)
  cases h with
  | @mk now _ p1 _ hc h1 h2 =>
    have ht := handleAck_dup heq h1
    have hsame := p.stb.tc.setdwnd_frame p.stb.tc.sndUna
    have hempty : p1.stb.cbSend.contents = [] := by
      rw [ht]
      exact hp.cbSend
    obtain rfl := send_nothing hempty h2
    refine ⟨ht, ?_, hempty, ?_, htimers⟩
    · rw [ht]
      exact (hsame.sndUna.trans hp.una_eq).trans hsame.sndNxt.symm
    · rw [ht]
      exact (hp.window.setdwnd _).2

/-- Handling it never ends the process: no armed segment begins above `snd_una`. -/
theorem IdleSender.handles {p : Process} {tp : TouPkg} (hp : IdleSender p)
    (hc : processGetPktState p.stb tp = .ok .ackWithoutData) (heq : tp.t.ackSeq = p.stb.tc.sndUna) :
    ∃ q, AckHandled tp p q := by
  cases h1 : handleAck 0 p tp with
  | ok p1 =>
    obtain ⟨q, _, h2, _⟩ := send_emitted 0 p1
    exact ⟨q, AckHandled.mk hc h1 h2⟩
  | error e =>
    exfalso
    rcases handleAck_error h1 with ⟨_, hdel⟩ | ⟨_, _, n, hn, hstart⟩
    · obtain ⟨r, hr⟩ := Timer.deleteTimer_returns tp.t.ackSeq hp.timers.own
      rw [hr] at hdel
      cases hdel
    · obtain ⟨hcid, htid⟩ := hp.timers.own n hn
      obtain ⟨hsize, hnxt⟩ := hp.timers.fit n hn
      have hlt := hp.timers.nxt_lt
      have hgt := hstart hcid htid
      have hu := hp.una_eq
      rw [u32_sub _ _ hsize (by omega)] at hgt
      omega

theorem DupAcks.idle {n : ℕ} {p q : Process} (h : DupAcks n p q) (hp : IdleSender p) : IdleSender q := by
  induction h with
  | zero => exact hp
  | succ _ heq hack ih => exact ((ih hp).repeated heq hack).2

theorem repeats_exists {p : Process} {tp : TouPkg} (hp : IdleSender p)
    (hc : processGetPktState p.stb tp = .ok .ackWithoutData) (heq : tp.t.ackSeq = p.stb.tc.sndUna)
    (n : ℕ) : ∃ q, DupAcks n p q ∧ processGetPktState q.stb tp = .ok .ackWithoutData ∧
      tp.t.ackSeq = q.stb.tc.sndUna := by
  induction n with
  | zero => exact ⟨p, DupAcks.zero p, hc, heq⟩
  | succ n ih =>
    obtain ⟨q, hq, hcq, heqq⟩ := ih
    have hidle := hq.idle hp
    obtain ⟨r, hr⟩ := hidle.handles hcq heqq
    have ht := (hidle.repeated heqq hr).1
    have hsame := q.stb.tc.setdwnd_frame q.stb.tc.sndUna
    refine ⟨r, DupAcks.succ hq heqq hr, ?_, ?_⟩
    · rw [processGetPktState_congr (a := q.stb) tp (by rw [ht]) (by rw [ht]; exact hsame.sndNxt)
        (by rw [ht]; exact hsame.rcvNxt)]
      exact hcq
    · rw [ht, heqq]
      exact hsame.sndUna.symm

/-- In slow start and congestion avoidance the third duplicate starts fast retransmit. -/
theorem DupAcks.counted {n : ℕ} {p q : Process} (h : DupAcks n p q) (hp : IdleSender p)
    (hst : p.stb.tc.ccState = .ss ∨ p.stb.tc.ccState = .ca) :
    if p.stb.tc.dupackcount + n < tcpRexmtThresh then
      SameWindow { p.stb.tc with dupackcount := p.stb.tc.dupackcount + n } q.stb.tc
    else q.stb.tc.ccState = .fr := by
  induction h with
  | zero p =>
    have hlt := (hp.window.dup_lt hst).2
    rw [if_pos (by simpa using hlt)]
    exact ⟨rfl, by simp, rfl, rfl⟩
  | @succ n p q r tp hq heq hack ih =>
    have ih := ih hp hst
    have hidle := hq.idle hp
    have ht := (hidle.repeated heq hack).1
    rw [ht, Nat.cast_add, Nat.cast_one, ← add_assoc]
    by_cases hn : p.stb.tc.dupackcount + n < tcpRexmtThresh
    · rw [if_pos hn] at ih
      have hstq : q.stb.tc.ccState = .ss ∨ q.stb.tc.ccState = .ca := by
        rw [ih.ccState]
        exact hst
      have hdup : q.stb.tc.dupackcount = p.stb.tc.dupackcount + n := ih.dupackcount
      by_cases hn1 : p.stb.tc.dupackcount + n + 1 < tcpRexmtThresh
      · rw [if_pos hn1, setdwnd_counts hidle.window hstq (by rw [hdup]; exact hn1)]
        exact ⟨ih.ccState, by simp only [hdup], ih.sndCwnd, ih.sndSsthresh⟩
      · rw [if_neg hn1]
        exact setdwnd_third hidle.window hstq (by rw [hdup]; exact not_lt.mp hn1)
    · rw [if_neg hn] at ih
      rw [if_neg (by omega)]
      exact (setdwnd_fr hidle.window ih _).1

/-- In fast retransmit every repetition adds a segment to the window, up to the cap. -/
theorem DupAcks.grown {n : ℕ} {p q : Process} (h : DupAcks n p q) (hp : IdleSender p)
    (hst : p.stb.tc.ccState = .fr) :
    q.stb.tc.ccState = .fr ∧ q.stb.tc.sndSsthresh = p.stb.tc.sndSsthresh ∧
      q.stb.tc.sndCwnd = min (p.stb.tc.sndCwnd + 1456 * n) 3145728 := by
  induction h with
  | zero p =>
    have hle := hp.window.cwnd_le
    unfold touMaxCircularBuf at hle
    exact ⟨hst, rfl, by omega⟩
  | @succ n p q r tp hq heq hack ih =>
    obtain ⟨hcc, hth, hcwnd⟩ := ih hp hst
    have hidle := hq.idle hp
    obtain ⟨hcc', hth', hcwnd'⟩ := setdwnd_fr hidle.window hcc q.stb.tc.sndUna
    have hr : r.stb.tc = (q.stb.tc.setdwnd q.stb.tc.sndUna).2 := by rw [(hidle.repeated heq hack).1]
    rw [hr]
    refine ⟨hcc', hth'.trans hth, ?_⟩
    rw [hcwnd', hcwnd]
    generalize p.stb.tc.sndCwnd = cwnd
    clear * -
    omega

/-- The congestion state, the window and the threshold. -/
structure SameCongestion (a b : TouCb) : Prop where
  ccState : b.ccState = a.ccState
  sndCwnd : b.sndCwnd = a.sndCwnd
  sndSsthresh : b.sndSsthresh = a.sndSsthresh

/-- `n` repetitions are too few for a third duplicate, or the window is at its cap already. -/
def TooFew (tc : TouCb) (n : ℕ) : Prop :=
  n = 0 ∨ ((tc.ccState = .ss ∨ tc.ccState = .ca) ∧ tc.dupackcount + n < tcpRexmtThresh) ∨
    (tc.ccState = .fr ∧ tc.sndCwnd = touMaxCircularBuf / 2)

/-- A sender with nothing in flight and nothing to send handles any number of repeated ACKs, and they
leave its congestion state alone if and only if they are too few to be taken for a loss. -/
theorem idle_acks_iff (p : Process) (hp : SenderReachable p) (tp : TouPkg)
    (hc : processGetPktState p.stb tp = .ok .ackWithoutData) (heq : tp.t.ackSeq = p.stb.tc.sndUna)
    (hidle : p.stb.tc.sndUna = p.stb.tc.sndNxt) (hempty : p.stb.cbSend.contents = []) (n : ℕ) :
    (∃ q, DupAcks n p q) ∧
      ((∀ q, DupAcks n p q → SameCongestion p.stb.tc q.stb.tc) ↔ TooFew p.stb.tc n) := by
  have hi := hp.windowInv
  have hsend : IdleSender p := ⟨hidle, hempty, hi, hp.timersSent⟩
  have hle := hi.cwnd_le
  have hmax : touMaxCircularBuf / 2 = 3145728 := by norm_num [touMaxCircularBuf]
  obtain ⟨q, hq, _⟩ := repeats_exists hsend hc heq n
  refine ⟨⟨q, hq⟩, ?_⟩
  unfold TooFew
  constructor
  · intro h
    have hsame := h q hq
    by_cases hst : p.stb.tc.ccState = .ss ∨ p.stb.tc.ccState = .ca
    · have hcount := hq.counted hsend hst
      by_cases hn : p.stb.tc.dupackcount + n < tcpRexmtThresh
      · exact Or.inr (Or.inl ⟨hst, hn⟩)
      · rw [if_neg hn, hsame.ccState] at hcount
        rcases hst with hst | hst <;> rw [hst] at hcount <;> cases hcount
    · have hfr : p.stb.tc.ccState = .fr := by
        have hne := hi.not_err
        cases hcc : p.stb.tc.ccState with
        | err => exact absurd hcc hne
        | ss => exact absurd (Or.inl hcc) hst
        | ca => exact absurd (Or.inr hcc) hst
        | fr => rfl
      have hcwnd := (hq.grown hsend hfr).2.2
      rw [hsame.sndCwnd] at hcwnd
      rw [hmax] at hle ⊢
      by_cases hn : n = 0
      · exact Or.inl hn
      · exact Or.inr (Or.inr ⟨hfr, by omega⟩)
  · rintro (rfl | ⟨hst, hn⟩ | ⟨hfr, hcap⟩) r hr
    · cases hr
      exact ⟨rfl, rfl, rfl⟩
    · have hcount := hr.counted hsend hst
      rw [if_pos hn] at hcount
      exact ⟨hcount.ccState, hcount.sndCwnd, hcount.sndSsthresh⟩
    · obtain ⟨hcc, hth, hcwnd⟩ := hr.grown hsend hfr
      rw [hmax] at hcap
      exact ⟨hcc.trans hfr.symm, by rw [hcwnd]; omega, hth⟩

theorem idle_acks_iff_client : ∃ p, SenderReachable p ∧
    ((∀ q, DupAcks 2 p q → SameCongestion p.stb.tc q.stb.tc) ↔ TooFew p.stb.tc 2) := by
  obtain ⟨p, _, hopen, huna, hnxt, _⟩ := exists_idle_client
  have hreach : SenderReachable p := ⟨p, hopen, Relation.ReflTransGen.refl⟩
  have hd : IsPureAck (segmentFrom ⟨2, 80⟩ 1 1 []) 1 := isPureAck_segmentFrom _ (by decide) (by decide)
  have hc := classify_pureAck hd hopen.fresh.2
  rw [if_pos (by omega)] at hc
  exact ⟨p, hreach, (idle_acks_iff p hreach _ hc (by rw [hd.ackSeq, huna]) (by rw [huna, hnxt])
    hopen.fresh.1.cbSend 2).2⟩

/-- A client that has sent nothing receives its peer's last ACK three times. -/
def idleSession : Except Halt (Process × RunRes) := do
  let c ← touConnect (Process.init 3 1) ⟨2, 80⟩ 425984 (synAckFrom ⟨2, 80⟩ 0 1)
  let r1 ← run 500 c.2 [segmentFrom ⟨2, 80⟩ 1 1 []]
  let r2 ← run 1000 r1.pr [segmentFrom ⟨2, 80⟩ 1 1 []]
  let r3 ← run 1500 r2.pr [segmentFrom ⟨2, 80⟩ 1 1 []]
  return (c.2, r3)

theorem idle_client_enters_fr : ∃ p r1 r2 r3, Opened p ∧ p.stb.tc.sndUna = p.stb.tc.sndNxt ∧
    p.stb.cbSend.contents = [] ∧ IsPureAck (segmentFrom ⟨2, 80⟩ 1 1 []) p.stb.tc.sndUna ∧
    run 500 p [segmentFrom ⟨2, 80⟩ 1 1 []] = .ok r1 ∧
    run 1000 r1.pr [segmentFrom ⟨2, 80⟩ 1 1 []] = .ok r2 ∧
    run 1500 r2.pr [segmentFrom ⟨2, 80⟩ 1 1 []] = .ok r3 ∧
    p.stb.tc.ccState = .ss ∧ r3.pr.stb.tc.ccState = .fr := by
  have hcc : idleSession.toOption.map (fun x => (x.1.stb.tc.sndUna, x.1.stb.tc.sndNxt,
      x.1.stb.tc.ccState, x.2.pr.stb.tc.ccState)) = some (1, 1, .ss, .fr) := by decide +kernel
  cases hx : idleSession with
  | error e =>
    rw [hx] at hcc
    cases hcc
  | ok x =>
    rw [hx] at hcc
    simp only [Except.toOption, Option.map_some, Option.some.injEq, Prod.mk.injEq] at hcc
    obtain ⟨c, hc, hx⟩ := of_bind_ok hx
    obtain ⟨r1, h1, hx⟩ := of_bind_ok hx
    obtain ⟨r2, h2, hx⟩ := of_bind_ok hx
    obtain ⟨r3, h3, hx⟩ := of_bind_ok hx
    cases hx
    obtain ⟨huna, hnxt, hss, hfr⟩ := hcc
    have hopen : Opened c.2 := Opened.connect (b := c.1) hc
    refine ⟨c.2, r1, r2, r3, hopen, huna.trans hnxt.symm, hopen.fresh.1.cbSend, ?_, h1, h2, h3, hss, hfr⟩
    have huna' : c.2.stb.tc.sndUna = 1 := huna
    rw [huna']
    exact isPureAck_segmentFrom _ (by decide) (by decide)

end Process
end TcpOverUdp
