import TcpOverUdp.Proof.Sessions
import Mathlib.Data.List.Chain

/-! # The delayed-ACK machine under every interleaving

Between any two critical sections of the thread that is in `run`, the timer thread may pass. `AckSys` is
a process together with the place that thread has reached; inside `proc_pkt_rec` the loop and the call
of `set_ack_state` that follows it are steps of their own. `AckRun` records what concerns the
acknowledgments: segments put aside, calls of `proc_delack` and returns of `run`.
-/
namespace TcpOverUdp
open MachineInt
set_option autoImplicit false

namespace Process

/-! ## What the machine consists of -/

/-- A node of the socket's own. -/
def OwnAck (sockd : ℕ) (n : Node) : Prop := n.cId = sockd ∧ n.tId = timerIdDelack

/-- The deque has at most the socket's own node, and has it when an ACK was sent before. -/
structure AckInv (p : Process) : Prop where
  ne_err : p.stb.tc.tDelackState ≠ .err
  deque : p.ackdeque = [] ∨ ∃ n, p.ackdeque = [n] ∧ OwnAck p.stb.sockd n
  queued : p.stb.tc.tDelackState = .que ∨ p.stb.tc.tDelackState = .quexmit ∨
    p.stb.tc.tDelackState = .expxmit → p.ackdeque ≠ []

/-- The numbers that the pure ACKs among the packets acknowledge. -/
def ackNumbers (sent : List Tx) : List ℕ :=
  (sent.filter fun tx => tx.site = .procDelack ∨ tx.site = .sendack).map (·.pkt.t.ackSeq)

/-- The number in the last pure ACK that `q` has sent since `p₀`, at first the `rcv_nxt` of `p₀`. -/
def lastAck (p₀ q : Process) : ℕ :=
  (ackNumbers (q.sent.drop p₀.sent.length)).getLast?.getD p₀.stb.tc.rcvNxt

/-- What was received is acknowledged, or waits for the timer, or for the next call of `run`. -/
def Acked (p₀ q : Process) : Prop :=
  q.stb.tc.rcvNxt = lastAck p₀ q ∨ (q.stb.tc.tDelackState = .xmit ∧ q.ackdeque ≠ []) ∨
    (q.stb.tc.tDelackState = .immedUpdateXmit ∧ q.stb.runstate = .pktRecovery)

@[simp] theorem ackNumbers_append (a b : List Tx) : ackNumbers (a ++ b) = ackNumbers a ++ ackNumbers b := by
  simp [ackNumbers]

theorem ackNumbers_eq_nil {txs : List Tx}
    (h : ∀ tx ∈ txs, ¬ (tx.site = .procDelack ∨ tx.site = .sendack)) : ackNumbers txs = [] := by
  unfold ackNumbers
  rw [List.map_eq_nil_iff, List.filter_eq_nil_iff]
  intro tx htx
  rw [decide_eq_true_iff]
  exact h tx htx

variable {p₀ p q : Process}

theorem lastAck_append {txs : List Tx} (hpre : p₀.sent <+: p.sent) (h : q.sent = p.sent ++ txs) :
    lastAck p₀ q = (ackNumbers txs).getLast?.getD (lastAck p₀ p) := by
  obtain ⟨new, hnew⟩ := hpre
  unfold lastAck
  rw [h, ← hnew, List.append_assoc, List.drop_left, List.drop_left, ackNumbers_append,
    List.getLast?_append]
  cases (ackNumbers txs).getLast? <;> rfl

/-- `q` differs from `p` in nothing that concerns acknowledgments. -/
structure AckSame (p q : Process) : Prop where
  sockd_eq : q.stb.sockd = p.stb.sockd
  state_eq : q.stb.tc.tDelackState = p.stb.tc.tDelackState
  rcvNxt_eq : q.stb.tc.rcvNxt = p.stb.tc.rcvNxt
  runstate_eq : q.stb.runstate = p.stb.runstate
  deque_eq : q.ackdeque = p.ackdeque
  sent_eq : ∃ txs, q.sent = p.sent ++ txs ∧ ackNumbers txs = []

/-- `q` is `p` after one pure ACK of `rcv_nxt`. -/
structure AckSent (p q : Process) (st : DelackState) : Prop where
  sockd_eq : q.stb.sockd = p.stb.sockd
  state_eq : q.stb.tc.tDelackState = st
  rcvNxt_eq : q.stb.tc.rcvNxt = p.stb.tc.rcvNxt
  deque_eq : ∃ n, q.ackdeque = [n] ∧ OwnAck p.stb.sockd n
  sent_eq : ∃ tx, q.sent = p.sent ++ [tx] ∧ ackNumbers [tx] = [p.stb.tc.rcvNxt]

theorem AckSame.refl (p : Process) : AckSame p p :=
  ⟨rfl, rfl, rfl, rfl, rfl, [], (List.append_nil _).symm, rfl⟩

theorem AckSame.sent_grows (h : AckSame p q) (hpre : p₀.sent <+: p.sent) : p₀.sent <+: q.sent := by
  obtain ⟨txs, hs, _⟩ := h.sent_eq
  rw [hs]
  exact hpre.trans (List.prefix_append _ _)

/-- Only the state, the deque and the socket matter, and none of the two when an ACK is due at once. -/
theorem AckInv.of_eq (hi : AckInv p) (hs : q.stb.sockd = p.stb.sockd)
    (hst : q.stb.tc.tDelackState = p.stb.tc.tDelackState ∨ q.stb.tc.tDelackState = .immedUpdateXmit)
    (hd : q.ackdeque = p.ackdeque) : AckInv q where
  ne_err := by
    rcases hst with hst | hst <;> rw [hst]
    · exact hi.ne_err
    · decide
  deque := by
    rw [hd, hs]
    exact hi.deque
  queued h := by
    rcases hst with hst | hst <;> rw [hst] at h
    · rw [hd]
      exact hi.queued h
    · rcases h with h | h | h <;> cases h

theorem AckSame.inv (h : AckSame p q) (hi : AckInv p) : AckInv q :=
  hi.of_eq h.sockd_eq (Or.inl h.state_eq) h.deque_eq

theorem AckSame.acked (h : AckSame p q) (hpre : p₀.sent <+: p.sent) (ha : Acked p₀ p) : Acked p₀ q := by
  obtain ⟨txs, hs, hnil⟩ := h.sent_eq
  have hlast := lastAck_append hpre hs
  rw [hnil] at hlast
  unfold Acked
  rw [h.rcvNxt_eq, h.state_eq, h.deque_eq, h.runstate_eq, hlast]
  exact ha

theorem AckSent.sent_grows {st : DelackState} (h : AckSent p q st) (hpre : p₀.sent <+: p.sent) :
    p₀.sent <+: q.sent := by
  obtain ⟨tx, hs, _⟩ := h.sent_eq
  rw [hs]
  exact hpre.trans (List.prefix_append _ _)

theorem AckSent.inv {st : DelackState} (h : AckSent p q st) (hst : st ≠ .err) : AckInv q where
  ne_err := by
    rw [h.state_eq]
    exact hst
  deque := by
    rw [h.sockd_eq]
    exact Or.inr h.deque_eq
  queued _ := by
    obtain ⟨n, hn, _⟩ := h.deque_eq
    rw [hn]
    exact List.cons_ne_nil _ _

theorem AckSent.acked {st : DelackState} (h : AckSent p q st) (hpre : p₀.sent <+: p.sent) :
    Acked p₀ q := by
  obtain ⟨tx, hs, hnum⟩ := h.sent_eq
  have hlast := lastAck_append hpre hs
  rw [hnum] at hlast
  exact Or.inl (h.rcvNxt_eq.trans hlast.symm)

/-! ## The two critical sections -/

theorem AckInv.updateAck {now : ℕ} {state : DelackState} {deque : List Node} (hi : AckInv p)
    (h : Timer.updateAck p.ackdeque p.stb.sockd timerIdDelack state p.stp p.stb now = .ok deque) :
    ∃ n, deque = [n] ∧ OwnAck p.stb.sockd n := by
  unfold Timer.updateAck at h
  rcases hi.deque with hd | ⟨n, hd, hown⟩
  · rw [hd] at h
    simp only [Timer.refreshAckNode] at h
    split at h
    · cases h
      exact ⟨_, rfl, rfl, rfl⟩
    · cases h
  · rw [hd] at h
    simp only [Timer.refreshAckNode, if_pos (show n.cId = p.stb.sockd ∧ n.tId = timerIdDelack from hown)] at h
    cases h
    exact ⟨_, rfl, hown⟩

/-- `proc_delack` sends an ACK, unless it has sent one in its last call and no timer came between. -/
theorem AckInv.procDelack {now : ℕ} (hi : AckInv p) (h : Process.procDelack now p = .ok q) :
    (p.stb.tc.tDelackState ≠ .que ∧ AckSent p q .que) ∨
      (p.stb.tc.tDelackState = .que ∧ q.stb = p.stb.setAckState .xmit ∧ q.sent = p.sent ∧
        ∃ n, q.ackdeque = [n] ∧ OwnAck p.stb.sockd n) := by
  cases procDelack_ok h with
  | putOff hst hdeque => exact Or.inr ⟨hst, rfl, rfl, hi.updateAck hdeque⟩
  | sent hst hdeque => exact Or.inl ⟨hst, rfl, rfl, rfl, hi.updateAck hdeque, _, rfl, rfl⟩

/-- A pass of the timer does nothing, or sends an ACK; never while `run` is to send one at once. -/
theorem AckInv.timer {now : ℕ} (hi : AckInv p) (h : timerProcDelack now p = .ok q) :
    AckSame p q ∨ p.stb.tc.tDelackState ≠ .immedUpdateXmit ∧ q.stb.runstate = p.stb.runstate ∧
      (AckSent p q .quexmit ∨ AckSent p q .expxmit) := by
  obtain ⟨r, hr, h⟩ := of_bind_ok h
  cases h
  rcases hi.deque with hd | ⟨n, hd, hown⟩
  · rw [hd] at hr
    cases hr
    exact Or.inl ⟨rfl, rfl, rfl, rfl, hd.symm, [], rfl, rfl⟩
  · rw [hd] at hr
    obtain ⟨⟨stb, n', txs⟩, hx, hr⟩ := of_bind_ok hr
    obtain ⟨r', hr', hr⟩ := of_bind_ok hr
    cases hr'
    cases hr
    cases procDelackXmit_ok hx with
    | waits => exact Or.inl ⟨rfl, rfl, rfl, rfl, hd.symm, [], rfl, rfl⟩
    | sent hne htx hst =>
      refine Or.inr ⟨hne, rfl, ?_⟩
      unfold Timer.sendack at htx
      split at htx
      · cases htx
        rcases hst with rfl | rfl
        · exact Or.inl ⟨rfl, rfl, rfl, ⟨_, rfl, hown⟩, _, rfl, rfl⟩
        · exact Or.inr ⟨rfl, rfl, rfl, ⟨_, rfl, hown⟩, _, rfl, rfl⟩
      · cases htx

/-! ## The other operations -/

theorem send_ackSame {now : ℕ} (h : send now p = .ok q) : AckSame p q := by
  obtain ⟨q', pieces, hq, he⟩ := send_emitted now p
  rw [hq] at h
  cases h
  have ht := he.table_eq
  refine ⟨by rw [ht], by rw [ht], by rw [ht], by rw [ht], he.ackdeque_eq, _, he.sent_eq, ?_⟩
  refine ackNumbers_eq_nil ?_
  intro tx htx
  obtain ⟨s, _, rfl⟩ := List.mem_map.1 htx
  show ¬ (TxSite.send = .procDelack ∨ TxSite.send = .sendack)
  decide

theorem AckSame.trans {r : Process} (h : AckSame p q) (h' : AckSame q r) : AckSame p r := by
  obtain ⟨txs, hs, hn⟩ := h.sent_eq
  obtain ⟨txs', hs', hn'⟩ := h'.sent_eq
  refine ⟨h'.sockd_eq.trans h.sockd_eq, h'.state_eq.trans h.state_eq, h'.rcvNxt_eq.trans h.rcvNxt_eq,
    h'.runstate_eq.trans h.runstate_eq, h'.deque_eq.trans h.deque_eq, txs ++ txs', ?_, ?_⟩
  · rw [hs', hs, List.append_assoc]
  · rw [ackNumbers_append, hn, hn', List.append_nil]

theorem handleAck_ackSame {now : ℕ} {tp : TouPkg} (h : handleAck now p tp = .ok q) : AckSame p q := by
  have he := handleAck_effect h
  have ht := he.table_eq
  obtain ⟨txs, hs, hsite⟩ := he.sent_eq
  refine ⟨by rw [ht], he.tDelackState_eq, he.rcvNxt_eq, by rw [ht], he.ackdeque_eq, txs, hs, ?_⟩
  refine ackNumbers_eq_nil ?_
  intro tx htx
  obtain ⟨n, _, rfl⟩ := hsite tx htx
  show ¬ (TxSite.sendpkt = .procDelack ∨ TxSite.sendpkt = .sendack)
  decide

theorem sndpkt_ackSame {now : ℕ} (h : timerProcSndpkt now p = .ok q) : AckSame p q := by
  have he := timerProcSndpkt_effect h
  have ht := he.table_eq
  obtain ⟨txs, hs, hsite⟩ := he.sent_eq
  refine ⟨by rw [ht], he.tc_same.tDelackState, he.tc_same.rcvNxt, by rw [ht], he.ackdeque_eq, txs, hs, ?_⟩
  refine ackNumbers_eq_nil ?_
  intro tx htx
  obtain ⟨n, _, rfl⟩ := hsite tx htx
  show ¬ (TxSite.sendpkt = .procDelack ∨ TxSite.sendpkt = .sendack)
  decide

/-- Between two calls of `run` only a pass of `proc_delack` concerns the acknowledgments. -/
theorem between_ackSame (h : ProcStepIf (fun _ _ _ => False) p q) :
    AckSame p q ∨ ∃ now, timerProcDelack now p = .ok q := by
  cases h with
  | touSend h =>
    have hs := send_ackSame (touSend_ok h).2
    exact Or.inl ((⟨rfl, rfl, rfl, rfl, rfl, [], (List.append_nil _).symm, rfl⟩ :
      AckSame p (pushsndq p _ _).2).trans hs)
  | send h => exact Or.inl (send_ackSame h)
  | touRecv => exact Or.inl ⟨rfl, rfl, rfl, rfl, rfl, [], (List.append_nil _).symm, rfl⟩
  | run hC => exact absurd hC id
  | delack h => exact Or.inr ⟨_, h⟩
  | sndpkt h => exact Or.inl (sndpkt_ackSame h)

/-! ## The two threads -/

/-- Where the thread that calls `run` stands. -/
inductive RunPc where
  /-- Not in a call. -/
  | idle
  /-- Before a turn of the loop of `run`. -/
  | turn
  /-- In the loop of `do_proc_pkt_rec`. -/
  | recovering
  /-- Behind that loop, with its answer, before `set_ack_state`. -/
  | recovered (rv : ℤ)

structure AckSys where
  s : RunSt
  pc : RunPc

/-- What concerns the acknowledgments. -/
inductive AckEvent where
  /-- An out-of-order segment was put aside. -/
  | ahead
  /-- A call of `processTou::proc_delack`, and whether it sent an ACK. -/
  | delack (xmit : Bool)
  | returned
  deriving DecidableEq

/-- The socket between two calls of `run`. -/
def AckSys.ofProcess (p : Process) : AckSys := ⟨runSt p [], .idle⟩

/-- What `do_proc_pkt_rec` answers when it leaves its loop. -/
inductive RecoveryEnds (stb : SockTb) : ℤ → SockTb → Prop
  | empty (h : stb.minhpRecv.top? = none) : RecoveryEnds stb 0 stb
  | gap {top : TouPkg} (h : stb.minhpRecv.top? = some top) (hlt : stb.tc.rcvNxt < top.t.seq) :
      RecoveryEnds stb 0 stb
  | refused {top : TouPkg} {n : ℤ} {cb : SockBuf} (h : Offered stb top n cb) (hn : ¬ n > 0) :
      RecoveryEnds stb (-1) { stb with cbRecv := cb }

/-- The end of `PROCESS_PKT_RECOVERY`, with the answer of `proc_pkt_rec`. -/
def afterRecovery (s : RunSt) (stb : SockTb) (rv : ℤ) : RunSt :=
  if rv = 0 then s.goto (s.pr.setTable (stb.setRunstate .getPkt)) .ackDatarecsuccSendbackAck
  else s.goto (s.pr.setTable (stb.setRunstate .pktRecovery)) .ackDatarecsuccNoSendbackAck

/-- A datagram that is no SYN. -/
def NoSyn (d : Datagram) : Prop := (recvPkg d).t.syn = false

/-- One step of one of the threads, at the granularity of the critical sections on the state of the
delayed ACK. The timer's pass is a step everywhere, and between the calls of `run` the application and
the data timer are free too. -/
inductive AckStep : AckSys → Option AckEvent → AckSys → Prop
  | call {s : RunSt} {pending : List Datagram} (hp : ∀ d ∈ pending, NoSyn d) :
      AckStep ⟨s, .idle⟩ none ⟨runSt s.pr pending, .turn⟩
  | quiet {now : ℕ} {s s' : RunSt} (hrec : s.state ≠ .pktRecovery)
      (hah : s.state ≠ .ackWithDataMoreExpectedSeq) (hack : s.state ≠ .ackDatarecsuccSendbackAck)
      (h : runStep now s = .ok (.next s')) : AckStep ⟨s, .turn⟩ none ⟨s', .turn⟩
  | ahead {now : ℕ} {s s' : RunSt} (hs : s.state = .ackWithDataMoreExpectedSeq)
      (h : runStep now s = .ok (.next s')) : AckStep ⟨s, .turn⟩ (some .ahead) ⟨s', .turn⟩
  | sendback {now : ℕ} {s s' : RunSt} (hs : s.state = .ackDatarecsuccSendbackAck)
      (h : runStep now s = .ok (.next s')) :
      AckStep ⟨s, .turn⟩ (some (.delack (decide (s.pr.sent.length < s'.pr.sent.length)))) ⟨s', .turn⟩
  | returned {now : ℕ} {s : RunSt} {r : RunRes} (h : runStep now s = .ok (.done r)) :
      AckStep ⟨s, .turn⟩ (some .returned) ⟨runSt r.pr [], .idle⟩
  | nothing {s : RunSt} (hs : s.state = .pktRecovery) (he : s.pr.stb.minhpRecv.isEmpty = true) :
      AckStep ⟨s, .turn⟩ none ⟨afterRecovery s s.pr.stb 0, .turn⟩
  | enter {s : RunSt} (hs : s.state = .pktRecovery) (he : s.pr.stb.minhpRecv.isEmpty = false) :
      AckStep ⟨s, .turn⟩ none ⟨s, .recovering⟩
  | move {s : RunSt} {top : TouPkg} {n : ℤ} {cb : SockBuf} (h : Offered s.pr.stb top n cb) (hn : n > 0) :
      AckStep ⟨s, .recovering⟩ none ⟨s.goto (s.pr.setTable (movedTable s.pr.stb top cb)) s.state, .recovering⟩
  | leave {s : RunSt} {rv : ℤ} {stb : SockTb} (h : RecoveryEnds s.pr.stb rv stb) :
      AckStep ⟨s, .recovering⟩ none ⟨s.goto (s.pr.setTable stb) s.state, .recovered rv⟩
  | flag {s : RunSt} {rv : ℤ} : AckStep ⟨s, .recovered rv⟩ none
      ⟨afterRecovery s (s.pr.stb.setAckState .immedUpdateXmit) rv, .turn⟩
  | timer {now : ℕ} {s : RunSt} {pc : RunPc} {q : Process} (h : timerProcDelack now s.pr = .ok q) :
      AckStep ⟨s, pc⟩ none ⟨s.goto q s.state, pc⟩
  | between {s : RunSt} {q : Process} (h : ProcStepIf (fun _ _ _ => False) s.pr q) :
      AckStep ⟨s, .idle⟩ none ⟨s.goto q s.state, .idle⟩

/-- The runs from `x₀`, with the events in order. -/
inductive AckRun (x₀ : AckSys) : List AckEvent → AckSys → Prop
  | start : AckRun x₀ [] x₀
  | silent {log : List AckEvent} {x y : AckSys} (h : AckRun x₀ log x) (hs : AckStep x none y) :
      AckRun x₀ log y
  | event {log : List AckEvent} {x y : AckSys} {e : AckEvent} (h : AckRun x₀ log x)
      (hs : AckStep x (some e) y) : AckRun x₀ (log ++ [e]) y

/-! ## What a step keeps -/

/-- Received data may still have to be acknowledged in the present call. -/
def Owing (x : AckSys) : Prop :=
  match x.pc with
  | .idle => False
  | .turn => x.s.state = .pktRecovery ∨ x.s.state = .ackDatarecsuccSendbackAck
  | .recovering | .recovered _ => True

structure AckCore (p₀ : Process) (x : AckSys) : Prop where
  ready : AckInv x.s.pr
  sent_since : p₀.sent <+: x.s.pr.sent
  fsm : x.pc ≠ .idle → FsmOk NoSyn x.s
  in_recovery : x.pc = .recovering ∨ (∃ rv, x.pc = .recovered rv) → x.s.state = .pktRecovery
  acked : ¬ Owing x → Acked p₀ x.s.pr

variable {s s' : RunSt} {now : ℕ} {x y : AckSys} {log : List AckEvent}

theorem quiet_turn (hok : FsmOk NoSyn s) (hrec : s.state ≠ .pktRecovery)
    (hah : s.state ≠ .ackWithDataMoreExpectedSeq) (hack : s.state ≠ .ackDatarecsuccSendbackAck)
    (h : runStep now s = .ok (.next s')) :
    FsmOk NoSyn s' ∧ s'.pr.stb.tc.tDelackState = s.pr.stb.tc.tDelackState ∧
      s'.pr.stb.sockd = s.pr.stb.sockd ∧ s'.pr.ackdeque = s.pr.ackdeque ∧ s.pr.sent <+: s'.pr.sent ∧
      (AckSame s.pr s'.pr ∨ s'.state = .pktRecovery) := by
  obtain ⟨ht, hok'⟩ := runStep_turn hok h
  have hsame : AckSame s.pr s'.pr → FsmOk NoSyn s' ∧
      s'.pr.stb.tc.tDelackState = s.pr.stb.tc.tDelackState ∧ s'.pr.stb.sockd = s.pr.stb.sockd ∧
      s'.pr.ackdeque = s.pr.ackdeque ∧ s.pr.sent <+: s'.pr.sent ∧
      (AckSame s.pr s'.pr ∨ s'.state = .pktRecovery) := fun hs =>
    ⟨hok', hs.state_eq, hs.sockd_eq, hs.deque_eq, hs.sent_grows (List.prefix_refl _), Or.inl hs⟩
  cases ht with
  | receive | old | noSendback => exact hsame (AckSame.refl _)
  | @syn d hs hd =>
    have hc := classified_of_ok hd.classified
    rw [hs] at hc
    cases hc with
    | syn hsyn => exact absurd (hsyn.symm.trans hd.given) (by decide)
  | fin => exact hsame ⟨rfl, rfl, rfl, rfl, rfl, [], (List.append_nil _).symm, rfl⟩
  | ack _ _ h1 h2 => exact hsame ((handleAck_ackSame h1).trans (send_ackSame h2))
  | recovered hs | unrecovered hs => exact absurd hs hrec
  | inOrder hs hd =>
    obtain ⟨cb, hput⟩ := inOrder_frame s.pr.stb (recvPkg _)
    refine ⟨hok', ?_, ?_, rfl, List.prefix_refl _, Or.inr rfl⟩
    · show (putcircbuf _ _ _).2.tc.tDelackState = _
      rw [hput]
      rfl
    · show (putcircbuf _ _ _).2.sockd = _
      rw [hput]
      rfl
  | future hs => exact absurd hs hah
  | sendback hs => exact absurd hs hack

theorem ahead_turn {D : Datagram → Prop} (hok : FsmOk D s) (hs : s.state = .ackWithDataMoreExpectedSeq)
    (h : runStep now s = .ok (.next s')) : ∃ tp, s' = s.goto (s.pr.setTable
      ((s.pr.stb.pushHpRecvBuf tp).setAckState .immedUpdateXmit)) .ackDatarecsuccSendbackAck := by
  cases (runStep_turn hok h).1 with
  | future => exact ⟨_, rfl⟩
  | receive hs' => rcases hs' with hs' | hs' <;> rw [hs] at hs' <;> cases hs'
  | syn hs' | fin hs' | ack hs' | recovered hs' | unrecovered hs' | inOrder hs' | old hs' | sendback hs'
  | noSendback hs' =>
    rw [hs] at hs'
    cases hs'

theorem sendback_turn {D : Datagram → Prop} (hok : FsmOk D s) (hs : s.state = .ackDatarecsuccSendbackAck)
    (h : runStep now s = .ok (.next s')) :
    ∃ p st, procDelack now s.pr = .ok p ∧ s' = s.goto p st ∧ ¬ Handles st := by
  cases (runStep_turn hok h).1 with
  | sendback _ hp hst => exact ⟨_, _, hp, rfl, not_handles_after hst⟩
  | receive hs' => rcases hs' with hs' | hs' <;> rw [hs] at hs' <;> cases hs'
  | syn hs' | fin hs' | ack hs' | recovered hs' | unrecovered hs' | inOrder hs' | old hs' | future hs'
  | noSendback hs' =>
    rw [hs] at hs'
    cases hs'

theorem FsmOk.timer {D : Datagram → Prop} (hok : FsmOk D s) (h : timerProcDelack now s.pr = .ok q) :
    FsmOk D (s.goto q s.state) where
  pending := hok.pending
  handling hh := by
    obtain ⟨d, hd⟩ := hok.handling hh
    have ht := (timerProcDelack_effect h).table_eq
    refine ⟨d, hd.given, hd.tp_eq, hd.src_eq, ?_⟩
    show processGetPktState q.stb (recvPkg d) = .ok s.state
    rw [← hd.classified, ht]
    exact processGetPktState_congr _ rfl rfl rfl

theorem runStep_done_state {r : RunRes} (h : runStep now s = .ok (.done r)) :
    s.state ≠ .pktRecovery ∧ s.state ≠ .ackDatarecsuccSendbackAck := by
  rcases runStep_done_cases h with ⟨hs, _⟩ | ⟨hs | hs, _⟩ <;> rw [hs] <;> decide

theorem AckCore.timer {pc : RunPc} (hc : AckCore p₀ ⟨s, pc⟩) (h : timerProcDelack now s.pr = .ok q) :
    AckCore p₀ ⟨s.goto q s.state, pc⟩ := by
  have hfsm : pc ≠ .idle → FsmOk NoSyn (s.goto q s.state) := fun hpc => (hc.fsm hpc).timer h
  rcases AckInv.timer hc.ready h with hsame | ⟨_, _, hsent | hsent⟩
  · exact ⟨hsame.inv hc.ready, hsame.sent_grows hc.sent_since, hfsm, hc.in_recovery,
      fun ho => hsame.acked hc.sent_since (hc.acked ho)⟩
  · exact ⟨hsent.inv (by decide), hsent.sent_grows hc.sent_since, hfsm, hc.in_recovery,
      fun _ => hsent.acked hc.sent_since⟩
  · exact ⟨hsent.inv (by decide), hsent.sent_grows hc.sent_since, hfsm, hc.in_recovery,
      fun _ => hsent.acked hc.sent_since⟩

theorem AckCore.of_recovery {stb : SockTb} {pc pc' : RunPc} (hc : AckCore p₀ ⟨s, pc⟩)
    (hpc : pc = .recovering) (hpc' : pc' = .recovering ∨ ∃ rv, pc' = .recovered rv)
    (hs : stb.sockd = s.pr.stb.sockd) (hst : stb.tc.tDelackState = s.pr.stb.tc.tDelackState) :
    AckCore p₀ ⟨s.goto (s.pr.setTable stb) s.state, pc'⟩ where
  ready := hc.ready.of_eq hs (Or.inl hst) rfl
  sent_since := hc.sent_since
  fsm _ := by
    have hstate : s.state = .pktRecovery := hc.in_recovery (Or.inl hpc)
    rw [hstate]
    exact (hc.fsm (by rw [hpc]; nofun)).goto _ id
  in_recovery _ := hc.in_recovery (Or.inl hpc)
  acked ho := by
    refine absurd ?_ ho
    unfold Owing
    rcases hpc' with h | ⟨rv, h⟩ <;> rw [h] <;> trivial

theorem RunPc.turn_not_recovery : ¬ (RunPc.turn = .recovering ∨ ∃ rv, RunPc.turn = .recovered rv) := by
  rintro (h | ⟨_, h⟩) <;> cases h

theorem RunPc.idle_not_recovery : ¬ (RunPc.idle = .recovering ∨ ∃ rv, RunPc.idle = .recovered rv) := by
  rintro (h | ⟨_, h⟩) <;> cases h

theorem AckCore.sendback (hc : AckCore p₀ ⟨s, .turn⟩) (hs : s.state = .ackDatarecsuccSendbackAck)
    (h : runStep now s = .ok (.next s')) : AckCore p₀ ⟨s', .turn⟩ := by
  obtain ⟨p, st, hp, rfl, hnot⟩ := sendback_turn (hc.fsm nofun) hs h
  have hfsm : RunPc.turn ≠ .idle → FsmOk NoSyn (s.goto p st) := fun _ => (hc.fsm nofun).goto _ hnot
  rcases AckInv.procDelack hc.ready hp with ⟨_, hsent⟩ | ⟨_, htable, hsent, n, hdeque, hown⟩
  · exact ⟨hsent.inv (by decide), hsent.sent_grows hc.sent_since, hfsm,
      fun h => absurd h RunPc.turn_not_recovery, fun _ => hsent.acked hc.sent_since⟩
  · have hne : p.ackdeque ≠ [] := by
      rw [hdeque]
      exact List.cons_ne_nil _ _
    have hst : p.stb.tc.tDelackState = .xmit := by
      rw [htable]
      rfl
    refine ⟨⟨?_, Or.inr ⟨n, hdeque, ?_⟩, fun _ => hne⟩, ?_, hfsm,
      fun h => absurd h RunPc.turn_not_recovery, fun _ => Or.inr (Or.inl ⟨hst, hne⟩)⟩
    · show p.stb.tc.tDelackState ≠ .err
      rw [hst]
      decide
    · show OwnAck p.stb.sockd n
      rw [htable]
      exact hown
    · show p₀.sent <+: p.sent
      rw [hsent]
      exact hc.sent_since

theorem AckCore.step {e : Option AckEvent} (hc : AckCore p₀ x) (h : AckStep x e y) : AckCore p₀ y := by
  cases h with
  | @call s pending hp =>
    exact ⟨hc.ready, hc.sent_since, fun _ => ⟨hp, fun hh => absurd hh (not_handles_start s.pr pending)⟩,
      fun h => absurd h RunPc.turn_not_recovery, fun _ => hc.acked id⟩
  | @quiet now s s' hrec hah hack h =>
    have hfsm : FsmOk NoSyn s := hc.fsm nofun
    obtain ⟨hok', hst, hsd, hdq, hpre, hkind⟩ := quiet_turn hfsm hrec hah hack h
    refine ⟨hc.ready.of_eq hsd (Or.inl hst) hdq, hc.sent_since.trans hpre, fun _ => hok',
      fun h => absurd h RunPc.turn_not_recovery, fun ho => ?_⟩
    rcases hkind with hsame | hrec'
    · exact hsame.acked hc.sent_since (hc.acked fun h => h.elim hrec hack)
    · exact absurd (Or.inl hrec') ho
  | @ahead now s s' hs h =>
    obtain ⟨tp, rfl⟩ := ahead_turn (hc.fsm nofun) hs h
    exact ⟨hc.ready.of_eq rfl (Or.inr rfl) rfl, hc.sent_since, fun _ => (hc.fsm nofun).goto _ id,
      fun h => absurd h RunPc.turn_not_recovery, fun ho => absurd (Or.inr rfl) ho⟩
  | sendback hs h => exact hc.sendback hs h
  | @returned now s r h =>
    have hpr := runStep_done h
    obtain ⟨hrec, hack⟩ := runStep_done_state h
    have hacked : Acked p₀ s.pr := hc.acked fun h => h.elim hrec hack
    rw [← hpr] at hacked
    refine ⟨?_, ?_, fun h => absurd rfl h, fun h => absurd h RunPc.idle_not_recovery, fun _ => hacked⟩
    · show AckInv r.pr
      rw [hpr]
      exact hc.ready
    · show p₀.sent <+: r.pr.sent
      rw [hpr]
      exact hc.sent_since
  | @nothing s hs he =>
    exact ⟨hc.ready.of_eq rfl (Or.inl rfl) rfl, hc.sent_since, fun _ => (hc.fsm nofun).goto _ id,
      fun h => absurd h RunPc.turn_not_recovery, fun ho => absurd (Or.inr rfl) ho⟩
  | @enter s hs he =>
    exact ⟨hc.ready, hc.sent_since, fun _ => hc.fsm nofun, fun _ => hs, fun ho => absurd trivial ho⟩
  | move h hn => exact hc.of_recovery rfl (Or.inl rfl) rfl rfl
  | leave h =>
    cases h with
    | empty | gap | refused => exact hc.of_recovery rfl (Or.inr ⟨_, rfl⟩) rfl rfl
  | @flag s rv =>
    have hfsm : FsmOk NoSyn s := hc.fsm nofun
    unfold afterRecovery
    by_cases hrv : rv = 0
    · rw [if_pos hrv]
      exact ⟨hc.ready.of_eq rfl (Or.inr rfl) rfl, hc.sent_since, fun _ => hfsm.goto _ id,
        fun h => absurd h RunPc.turn_not_recovery, fun ho => absurd (Or.inr rfl) ho⟩
    · rw [if_neg hrv]
      exact ⟨hc.ready.of_eq rfl (Or.inr rfl) rfl, hc.sent_since, fun _ => hfsm.goto _ id,
        fun h => absurd h RunPc.turn_not_recovery, fun _ => Or.inr (Or.inr ⟨rfl, rfl⟩)⟩
  | timer h => exact hc.timer h
  | @between s q h =>
    rcases between_ackSame h with hsame | ⟨now, ht⟩
    · exact ⟨hsame.inv hc.ready, hsame.sent_grows hc.sent_since, fun h => absurd rfl h,
        fun h => absurd h RunPc.idle_not_recovery,
        fun _ => hsame.acked hc.sent_since (hc.acked id)⟩
    · exact hc.timer ht

/-! ## What the events record -/

/-- The calls of `proc_delack` in order, by whether they sent an ACK. -/
def delackCalls (log : List AckEvent) : List Bool :=
  log.filterMap fun e => match e with
    | .delack xmit => some xmit
    | .ahead | .returned => none

structure AckLog (log : List AckEvent) (x : AckSys) : Prop where
  calls : (delackCalls log).IsChain fun a b => a = true ∨ b = true
  last_silent : (delackCalls log).getLast? = some false → x.s.pr.stb.tc.tDelackState ≠ .que
  answered : log.IsChain fun a b => a = .ahead → b = .delack true
  due : log.getLast? = some .ahead → x.pc = .turn ∧ x.s.state = .ackDatarecsuccSendbackAck ∧
    x.s.pr.stb.tc.tDelackState = .immedUpdateXmit

/-- Only `proc_delack` of the process enters `TOUS_DELACK_QUE`. -/
theorem AckCore.silent_state (hc : AckCore p₀ x) (h : AckStep x none y)
    (hq : y.s.pr.stb.tc.tDelackState = .que) : x.s.pr.stb.tc.tDelackState = .que := by
  have htimer : ∀ {s : RunSt} {now : ℕ} {q : Process}, AckInv s.pr → timerProcDelack now s.pr = .ok q →
      q.stb.tc.tDelackState = .que → s.pr.stb.tc.tDelackState = .que := by
    intro s now q hi ht hq
    rcases AckInv.timer hi ht with hsame | ⟨_, _, hsent | hsent⟩
    · exact hsame.state_eq.symm.trans hq
    · exact absurd (hsent.state_eq.symm.trans hq) (by decide)
    · exact absurd (hsent.state_eq.symm.trans hq) (by decide)
  cases h with
  | call | enter => exact hq
  | quiet hrec hah hack h => exact (quiet_turn (hc.fsm nofun) hrec hah hack h).2.1.symm.trans hq
  | nothing | move => exact hq
  | leave h =>
    cases h with
    | empty | gap | refused => exact hq
  | @flag s rv =>
    unfold afterRecovery at hq
    split at hq <;> cases hq
  | timer h => exact htimer hc.ready h hq
  | between h =>
    rcases between_ackSame h with hsame | ⟨now, ht⟩
    · exact hsame.state_eq.symm.trans hq
    · exact htimer hc.ready ht hq

/-- What a step with an event is. -/
inductive Recorded (x y : AckSys) : AckEvent → Prop
  | ahead (hx : x.s.state = .ackWithDataMoreExpectedSeq) (hpc : y.pc = .turn)
      (hy : y.s.state = .ackDatarecsuccSendbackAck)
      (hst : y.s.pr.stb.tc.tDelackState = .immedUpdateXmit) : Recorded x y .ahead
  | sent : Recorded x y (.delack true)
  | silent (hx : x.s.pr.stb.tc.tDelackState = .que) (hy : y.s.pr.stb.tc.tDelackState ≠ .que) :
      Recorded x y (.delack false)
  | returned (hx : x.s.state ≠ .ackDatarecsuccSendbackAck)
      (hst : y.s.pr.stb.tc.tDelackState = x.s.pr.stb.tc.tDelackState) : Recorded x y .returned

theorem AckCore.recorded {e : AckEvent} (hc : AckCore p₀ x) (h : AckStep x (some e) y) :
    Recorded x y e := by
  cases h with
  | @ahead now s s' hs h =>
    obtain ⟨tp, rfl⟩ := ahead_turn (hc.fsm nofun) hs h
    exact Recorded.ahead hs rfl rfl rfl
  | @sendback now s s' hs h =>
    obtain ⟨p, st, hp, rfl, _⟩ := sendback_turn (hc.fsm nofun) hs h
    show Recorded _ _ (.delack (decide (s.pr.sent.length < p.sent.length)))
    rcases AckInv.procDelack hc.ready hp with ⟨_, hsent⟩ | ⟨hque, htable, hsent, _⟩
    · obtain ⟨tx, htx, _⟩ := hsent.sent_eq
      rw [htx, List.length_append, decide_eq_true (by simp)]
      exact Recorded.sent
    · rw [hsent, decide_eq_false (lt_irrefl _)]
      refine Recorded.silent hque ?_
      show p.stb.tc.tDelackState ≠ .que
      rw [htable]
      exact nofun
  | @returned now s r h =>
    have hpr := runStep_done h
    refine Recorded.returned (runStep_done_state h).2 ?_
    show r.pr.stb.tc.tDelackState = _
    rw [hpr]

theorem AckLog.silent (hl : AckLog log x) (hc : AckCore p₀ x) (h : AckStep x none y) : AckLog log y where
  calls := hl.calls
  last_silent hlast hq := hl.last_silent hlast (hc.silent_state h hq)
  answered := hl.answered
  due hlast := by
    obtain ⟨hpc, hs, hst⟩ := hl.due hlast
    cases h with
    | call | move | leave | flag | between => cases hpc
    | quiet _ _ hack => exact absurd hs hack
    | nothing hrec | enter hrec =>
      rw [hs] at hrec
      cases hrec
    | timer h =>
      rcases AckInv.timer hc.ready h with hsame | ⟨hne, _⟩
      · exact ⟨hpc, hs, hsame.state_eq.trans hst⟩
      · exact absurd hst hne

theorem isChain_concat {α : Type} {R : α → α → Prop} {l : List α} {a : α} (h : l.IsChain R)
    (ha : ∀ b, l.getLast? = some b → R b a) : (l ++ [a]).IsChain R := by
  refine h.append (List.isChain_singleton a) ?_
  intro b hb c hc
  cases hc
  exact ha b hb

theorem AckLog.event {e : AckEvent} (hl : AckLog log x) (h : Recorded x y e) : AckLog (log ++ [e]) y := by
  have hcalls : delackCalls (log ++ [e]) = delackCalls log ++ delackCalls [e] := List.filterMap_append
  have hlast : (log ++ [e]).getLast? = some e := List.getLast?_concat
  cases h with
  | ahead hx hpc hy hst =>
    refine ⟨?_, ?_, ?_, fun _ => ⟨hpc, hy, hst⟩⟩
    · rw [hcalls]
      exact (List.append_nil (delackCalls log)).symm ▸ hl.calls
    · intro _ hq
      rw [hst] at hq
      cases hq
    · refine isChain_concat hl.answered ?_
      rintro b hb rfl
      obtain ⟨_, hs, _⟩ := hl.due hb
      rw [hx] at hs
      cases hs
  | sent =>
    refine ⟨?_, ?_, ?_, ?_⟩
    · rw [hcalls]
      exact isChain_concat hl.calls fun _ _ => Or.inr rfl
    · intro hf
      rw [hcalls] at hf
      rw [show delackCalls [AckEvent.delack true] = [true] from rfl, List.getLast?_concat] at hf
      cases hf
    · exact isChain_concat hl.answered fun _ _ _ => rfl
    · intro hd
      rw [hlast] at hd
      cases hd
  | silent hx hy =>
    refine ⟨?_, fun _ => hy, ?_, ?_⟩
    · rw [hcalls]
      refine isChain_concat hl.calls fun b hb => ?_
      cases b with
      | true => exact Or.inl rfl
      | false => exact absurd hx (hl.last_silent hb)
    · refine isChain_concat hl.answered ?_
      rintro b hb rfl
      obtain ⟨_, _, hst⟩ := hl.due hb
      rw [hx] at hst
      cases hst
    · intro hd
      rw [hlast] at hd
      cases hd
  | returned hx hst =>
    have hsame : delackCalls (log ++ [.returned]) = delackCalls log := by
      rw [hcalls]
      exact List.append_nil _
    refine ⟨?_, ?_, ?_, ?_⟩
    · rw [hsame]
      exact hl.calls
    · rw [hsame, hst]
      exact hl.last_silent
    · refine isChain_concat hl.answered ?_
      rintro b hb rfl
      exact absurd (hl.due hb).2.1 hx
    · intro hd
      rw [hlast] at hd
      cases hd

/-! ## Every run -/

theorem Fresh.ackInv {p : Process} (hp : Fresh p) : AckInv p where
  ne_err := by
    rw [hp.tDelackState]
    decide
  deque := Or.inl hp.ackdeque
  queued h := by
    rw [hp.tDelackState] at h
    rcases h with h | h | h <;> cases h

theorem acked_refl (p : Process) : Acked p p := by
  refine Or.inl ?_
  unfold lastAck
  rw [List.drop_length]
  rfl

theorem Fresh.ackCore {p : Process} (hp : Fresh p) : AckCore p (AckSys.ofProcess p) where
  ready := hp.ackInv
  sent_since := List.prefix_refl _
  fsm h := absurd rfl h
  in_recovery h := absurd h RunPc.idle_not_recovery
  acked _ := acked_refl p

theorem AckRun.inv (hp : Fresh p) (h : AckRun (AckSys.ofProcess p) log x) : AckCore p x ∧ AckLog log x := by
  induction h with
  | start =>
    exact ⟨hp.ackCore, List.IsChain.nil, nofun, List.IsChain.nil, nofun⟩
  | silent _ hs ih => exact ⟨ih.1.step hs, ih.2.silent ih.1 hs⟩
  | event _ hs ih => exact ⟨ih.1.step hs, ih.2.event (ih.1.recorded hs)⟩

theorem AckInv.timer_error {e : Halt} (hi : AckInv p) (h : timerProcDelack now p = .error e) :
    e = .assertFail .sendack := by
  rcases of_bind_error h with h | ⟨_, _, h⟩
  · rcases hi.deque with hd | ⟨n, hd, _⟩
    · rw [hd] at h
      cases h
    · rw [hd] at h
      rcases of_bind_error h with h | ⟨_, _, h⟩
      · rcases Timer.procDelackXmit_error h with herr | ⟨he, _⟩
        · exact absurd herr hi.ne_err
        · exact he
      · cases h
  · cases h

theorem AckInv.nodes (hi : AckInv p) (cid tid : ℕ) :
    (p.ackdeque.filter fun n => n.cId = cid ∧ n.tId = tid).length ≤ 1 := by
  refine (List.length_filter_le _ _).trans ?_
  rcases hi.deque with hd | ⟨n, hd, _⟩ <;> rw [hd]
  · exact Nat.zero_le 1
  · exact le_refl 1

theorem AckInv.own_node (hi : AckInv p) (hne : p.ackdeque ≠ []) :
    (p.ackdeque.filter fun n => n.cId = p.stb.sockd ∧ n.tId = timerIdDelack).length = 1 := by
  rcases hi.deque with hd | ⟨n, hd, hown⟩
  · exact absurd hd hne
  · have hall : ∀ m ∈ p.ackdeque, decide (m.cId = p.stb.sockd ∧ m.tId = timerIdDelack) = true := by
      rw [hd]
      intro m hm
      rw [List.mem_singleton.1 hm]
      exact decide_eq_true hown
    rw [List.filter_eq_self.2 hall, hd]
    rfl

theorem AckInv.ackReady (hi : AckInv p) : AckReady p := by
  refine ⟨hi.ne_err, fun hq => ?_⟩
  rcases hi.deque with hd | ⟨n, hd, hown⟩
  · exact absurd hd (hi.queued (Or.inl hq))
  · exact ⟨n, by rw [hd]; exact List.mem_cons_self, hown⟩

/-! ## A call of `run` that nothing interrupts -/

theorem AckRun.recovery {x₀ : AckSys} {rv : ℤ} {stb : SockTb} (hr : Recovery s.pr.stb (.ok (rv, stb)))
    (h : AckRun x₀ log ⟨s, .recovering⟩) :
    AckRun x₀ log ⟨s.goto (s.pr.setTable stb) s.state, .recovered rv⟩ := by
  generalize ht : s.pr.stb = t at hr
  generalize hok : (Except.ok (rv, stb) : Except Halt (ℤ × SockTb)) = r at hr
  induction hr generalizing s with
  | empty hnone =>
    subst ht
    cases hok
    exact h.silent (AckStep.leave (RecoveryEnds.empty hnone))
  | gap htop hlt =>
    subst ht
    cases hok
    exact h.silent (AckStep.leave (RecoveryEnds.gap htop hlt))
  | refused hoff hn =>
    subst ht
    cases hok
    exact h.silent (AckStep.leave (RecoveryEnds.refused hoff hn))
  | failed => cases hok
  | @moved t top n cb r hoff hn _ ih =>
    subst ht
    exact ih (s := s.goto (s.pr.setTable (movedTable s.pr.stb top cb)) s.state)
      (h.silent (AckStep.move hoff hn)) rfl hok

/-- What the turn from `s` to `s'` does that concerns the acknowledgments. -/
def turnEvents (s s' : RunSt) : List AckEvent :=
  if s.state = .ackWithDataMoreExpectedSeq then [.ahead]
  else if s.state = .ackDatarecsuccSendbackAck then [.delack (decide (s.pr.sent.length < s'.pr.sent.length))]
  else []

def callEvents (now : ℕ) : ℕ → RunSt → List AckEvent
  | 0, _ => []
  | k + 1, s =>
    match runStep now s with
    | .ok (.next s') => turnEvents s s' ++ callEvents now k s'
    | .ok (.done _) => [.returned]
    | .error _ => []

theorem AckRun.turn {x₀ : AckSys} (h : AckRun x₀ log ⟨s, .turn⟩) (hs : runStep now s = .ok (.next s')) :
    AckRun x₀ (log ++ turnEvents s s') ⟨s', .turn⟩ := by
  unfold turnEvents
  by_cases hrec : s.state = .pktRecovery
  · rw [if_neg (by rw [hrec]; decide), if_neg (by rw [hrec]; decide), List.append_nil]
    unfold runStep at hs
    rw [hrec] at hs
    obtain ⟨⟨rv, stb⟩, hr, hs⟩ := of_bind_ok hs
    have hnext : ∀ t : SockTb, (rv, stb) = (rv, t) → s' = afterRecovery s t rv := by
      rintro t ⟨⟩
      unfold afterRecovery
      simp only at hs
      split at hs <;> cases hs
      · rw [if_pos ‹_›]
        rfl
      · rw [if_neg ‹_›]
        rfl
    unfold procPktRec at hr
    cases he : s.pr.stb.minhpRecv.isEmpty with
    | true =>
      rw [if_pos he] at hr
      cases hr
      rw [hnext _ rfl]
      exact h.silent (AckStep.nothing hrec he)
    | false =>
      rw [if_neg (by rw [he]; exact Bool.false_ne_true)] at hr
      obtain ⟨⟨rv', stb'⟩, hloop, hr⟩ := of_bind_ok hr
      cases hr
      have hrecov : Recovery s.pr.stb (.ok (rv', stb')) :=
        hloop ▸ doProcPktRecLoop_recovery _ s.pr.stb (le_refl _)
      rw [hnext _ rfl]
      exact (AckRun.recovery hrecov (h.silent (AckStep.enter hrec he))).silent AckStep.flag
  · by_cases hah : s.state = .ackWithDataMoreExpectedSeq
    · rw [if_pos hah]
      exact h.event (AckStep.ahead hah hs)
    · rw [if_neg hah]
      by_cases hack : s.state = .ackDatarecsuccSendbackAck
      · rw [if_pos hack]
        exact h.event (AckStep.sendback hack hs)
      · rw [if_neg hack, List.append_nil]
        exact h.silent (AckStep.quiet hrec hah hack hs)

/-- So an uninterrupted call is one too, and the results on `AckRun` are results on the calls. -/
theorem AckRun.loop {x₀ : AckSys} {k : ℕ} {r : RunRes} (h : AckRun x₀ log ⟨s, .turn⟩)
    (hr : fuelLoop .outOfFuel (runStep now) k s = .ok r) :
    AckRun x₀ (log ++ callEvents now k s) (AckSys.ofProcess r.pr) := by
  induction k generalizing s log with
  | zero => cases hr
  | succ k ih =>
    unfold callEvents
    cases hstep : runStep now s with
    | error e =>
      rw [fuelLoop_halt hstep] at hr
      cases hr
    | ok t =>
      cases t with
      | done r' =>
        rw [fuelLoop_done hstep] at hr
        cases hr
        exact h.event (AckStep.returned hstep)
      | next s' =>
        rw [fuelLoop_next hstep] at hr
        simp only
        rw [← List.append_assoc]
        exact ih (h.turn hstep) hr

theorem AckRun.run {x₀ : AckSys} {pending : List Datagram} {r : RunRes}
    (h : AckRun x₀ log ⟨s, .idle⟩) (hp : ∀ d ∈ pending, NoSyn d)
    (hr : Process.run now s.pr pending = .ok r) :
    AckRun x₀ (log ++ callEvents now (runFuel pending) (runSt s.pr pending)) (AckSys.ofProcess r.pr) :=
  (h.silent (AckStep.call hp)).loop hr

/-- In every state of every interleaving, from a new socket or a completed handshake on: neither
`proc_delack` reaches an `exit`, the deque has at most one node of each kind, and the socket's own one
when an ACK is queued or was sent; of two consecutive calls of `processTou::proc_delack` one sends an
ACK, and an out-of-order segment is followed by such a call before `run` returns; and whenever no call
of `run` is under way, what was received is acknowledged, or a node waits for the timer, or the next
call of `run` begins with recovery. -/
theorem delayed_ack_machine (hp : Fresh p) (h : AckRun (AckSys.ofProcess p) log x) :
    ((∀ now, ∃ q, procDelack now x.s.pr = .ok q) ∧
      (∀ now e, timerProcDelack now x.s.pr = .error e → e = .assertFail .sendack) ∧
      (∀ cid tid, (x.s.pr.ackdeque.filter fun n => n.cId = cid ∧ n.tId = tid).length ≤ 1) ∧
      (x.s.pr.stb.tc.tDelackState = .que ∨ x.s.pr.stb.tc.tDelackState = .quexmit ∨
          x.s.pr.stb.tc.tDelackState = .expxmit →
        (x.s.pr.ackdeque.filter fun n => n.cId = x.s.pr.stb.sockd ∧ n.tId = timerIdDelack).length = 1)) ∧
    ((delackCalls log).IsChain (fun a b => a = true ∨ b = true) ∧
      log.IsChain (fun a b => a = .ahead → b = .delack true) ∧
      (x.pc = .idle → log.getLast? ≠ some .ahead)) ∧
    (x.pc = .idle → Acked p x.s.pr) := by
  obtain ⟨hc, hl⟩ := h.inv hp
  refine ⟨⟨fun now => hc.ready.ackReady.procDelack_returns now, fun _ _ he => hc.ready.timer_error he,
    hc.ready.nodes, fun hq => hc.ready.own_node (hc.ready.queued hq)⟩, ⟨hl.calls, hl.answered, ?_⟩, ?_⟩
  · intro hidle hlast
    have hpc := (hl.due hlast).1
    rw [hidle] at hpc
    cases hpc
  · intro hidle
    refine hc.acked ?_
    unfold Owing
    rw [hidle]
    exact id

/-- A client receives two bytes in order, lets the timer pass, and receives a byte out of order. -/
def delackSession : Except Halt (Process × Process × Process × Process × Process) := do
  let c ← touConnect (Process.init 3 1) ⟨2, 80⟩ 425984 (synAckFrom ⟨2, 80⟩ 0 1)
  let r1 ← run 5 c.2 [segmentFrom ⟨2, 80⟩ 1 1 [65]]
  let r2 ← run 6 r1.pr [segmentFrom ⟨2, 80⟩ 2 1 [66]]
  let q ← timerProcDelack 20000 r2.pr
  let r3 ← run 20001 q [segmentFrom ⟨2, 80⟩ 10 1 [67]]
  return (c.2, r1.pr, r2.pr, q, r3.pr)

/-- The events of a call that finds one segment. -/
def segmentEvents (now seq : ℕ) (b : Byte) (p : Process) : List AckEvent :=
  callEvents now (runFuel [segmentFrom ⟨2, 80⟩ seq 1 [b]]) (runSt p [segmentFrom ⟨2, 80⟩ seq 1 [b]])

/-- The first byte is acknowledged at once, the second by the timer, and the third, which is out of
order, within its call. -/
theorem delayed_ack_machine_segments : ∃ c log x, Opened c ∧ AckRun (AckSys.ofProcess c) log x ∧
    log = [.delack true, .returned, .delack false, .returned, .ahead, .delack true, .returned] ∧
    (delackCalls log).IsChain (fun a b => a = true ∨ b = true) ∧
    log.IsChain (fun a b => a = .ahead → b = .delack true) ∧
    ackNumbers x.s.pr.sent = [2, 3, 3] ∧ Acked c x.s.pr := by
  have hevents : delackSession.toOption.map (fun x => (segmentEvents 5 1 65 x.1,
      segmentEvents 6 2 66 x.2.1, segmentEvents 20001 10 67 x.2.2.2.1, ackNumbers x.2.2.2.2.sent)) =
      some ([.delack true, .returned], [.delack false, .returned], [.ahead, .delack true, .returned],
        [2, 3, 3]) := by decide +kernel
  cases hx : delackSession with
  | error e =>
    rw [hx] at hevents
    cases hevents
  | ok x =>
    rw [hx] at hevents
    obtain ⟨c, hc, hx⟩ := of_bind_ok hx
    obtain ⟨r1, h1, hx⟩ := of_bind_ok hx
    obtain ⟨r2, h2, hx⟩ := of_bind_ok hx
    obtain ⟨q, hq, hx⟩ := of_bind_ok hx
    obtain ⟨r3, h3, hx⟩ := of_bind_ok hx
    cases hx
    simp only [Except.toOption, Option.map_some, Option.some.injEq, Prod.mk.injEq] at hevents
    obtain ⟨he1, he2, he3, hacks⟩ := hevents
    have hopen : Opened c.2 := Opened.connect (b := c.1) hc
    obtain ⟨hs1, hs2, hs3⟩ : (∀ d ∈ [segmentFrom ⟨2, 80⟩ 1 1 [65]], NoSyn d) ∧
        (∀ d ∈ [segmentFrom ⟨2, 80⟩ 2 1 [66]], NoSyn d) ∧
        ∀ d ∈ [segmentFrom ⟨2, 80⟩ 10 1 [67]], NoSyn d := by
      unfold NoSyn
      decide +kernel
    have hrun1 := AckRun.run (@AckRun.start (AckSys.ofProcess c.2)) hs1 h1
    have hrun2 := (hrun1.run hs2 h2).silent (AckStep.timer hq)
    have hrun3 := hrun2.run hs3 h3
    obtain ⟨_, ⟨hcalls, hanswered, _⟩, hacked⟩ := delayed_ack_machine hopen.fresh.1 hrun3
    have hlog := congrArg₂ (· ++ ·) (congrArg₂ (· ++ ·) he1 he2) he3
    exact ⟨c.2, _, _, hopen, hrun3, hlog, hcalls, hanswered, hacks, hacked rfl⟩

end Process
end TcpOverUdp
