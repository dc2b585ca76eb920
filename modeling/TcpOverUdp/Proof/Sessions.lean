import TcpOverUdp.Proof.DelayedAck

/-! # From a socket to a connection

`Opened` are the processes that `touConnect` and `touAccept` leave, a listener having handled whatever
datagrams came before: the numbers are set, nothing was sent or received yet (`Fresh`). A `Session` is
what such a process becomes by any operations.
-/
namespace TcpOverUdp
open MachineInt
set_option autoImplicit false

namespace Process

/-- Nothing was sent or received: queues, buffers and timers are as `touSocket` left them. -/
structure Fresh (p : Process) : Prop where
  runstate : p.stb.runstate = .getPkt
  tDelackState : p.stb.tc.tDelackState = .xmit
  cbSend : p.stb.cbSend.contents = []
  cbRecv : p.stb.cbRecv.contents = []
  minhpRecv : p.stb.minhpRecv.elems = []
  timerheap : p.timerheap.elems = []
  ackdeque : p.ackdeque = []

theorem fresh_init (sockfd : ℕ) (stp : SockPtr) : Fresh (Process.init sockfd stp) where
  runstate := rfl
  tDelackState := rfl
  cbSend := RingBuf.contents_ofSize (by decide) (by decide)
  cbRecv := RingBuf.contents_ofSize (by decide) (by decide)
  minhpRecv := rfl
  timerheap := rfl
  ackdeque := rfl

/-- The handshake writes the destination, the socket state and the control block only. -/
theorem Fresh.of_handshake {p q : Process} (hp : Fresh p) {dst : Addr} {st : SockState} {tc : TouCb}
    (ht : q.stb = { p.stb with dst := dst, sockstate := st, tc := tc })
    (hst : tc.tDelackState = p.stb.tc.tDelackState) (hh : q.timerheap = p.timerheap)
    (hd : q.ackdeque = p.ackdeque) : Fresh q := by
  refine ⟨?_, ?_, ?_, ?_, ?_, by rw [hh]; exact hp.timerheap, by rw [hd]; exact hp.ackdeque⟩
  · rw [ht]
    exact hp.runstate
  · rw [ht]
    exact hst.trans hp.tDelackState
  · rw [ht]
    exact hp.cbSend
  · rw [ht]
    exact hp.cbRecv
  · rw [ht]
    exact hp.minhpRecv

/-! ## The two calls -/

theorem toString_length_pos (p : TouPkg) : p.toString.length > 1 := by
  unfold TouPkg.toString
  simp only [List.length_append, word32_length, word16_length, List.length_cons, List.length_nil]
  omega

/-- A packet of the handshake carries no data and no FIN. -/
structure Bare (pkt : TouPkg) : Prop where
  buf : pkt.buf = []
  buflen : pkt.buflen = 0
  fin : pkt.t.fin = false

/-- The control block as both calls begin: slow start with a window of two segments. -/
def startTcb (tc : TouCb) (rcvbuf : ℤ) : TouCb :=
  { tc with ccState := .ss, sndCwnd := touMss * 2, sndAwnd := initAwnd rcvbuf }

/-- All that a call of `touConnect` that returns has done. -/
theorem touConnect_ok {p : Process} {sockDst : Addr} {rcvbuf : ℤ} {d : Datagram} {r : Bool × Process}
    (h : touConnect p sockDst rcvbuf d = .ok r) :
    ∃ syn ack : Tx, Bare syn.pkt ∧ Bare ack.pkt ∧ r = (true, { p with
      stb := { p.stb with
        dst := sockDst
        sockstate := .established
        tc := { startTcb p.stb.tc rcvbuf with
          sndNxt := 1
          sndUna := (recvPkg d).t.ackSeq
          rcvNxt := u32 (((recvPkg d).t.seq : ℤ) + 1) } }
      sent := p.sent ++ [syn] ++ [ack] }) := by
  obtain ⟨p1, h1, h⟩ := of_bind_ok h
  unfold touConnectSyn at h1
  simp only at h1
  split at h1
  · cases h1
    unfold touConnectAck at h
    split at h
    · cases h
    · simp only at h
      rw [if_pos (toString_length_pos _)] at h
      cases h
      exact ⟨_, _, ⟨rfl, rfl, rfl⟩, ⟨rfl, rfl, rfl⟩, rfl⟩
  · cases h1

/-- What `touConnect` makes of the process, whatever datagram its `recvfrom` delivers. -/
structure ConnectResult (p : Process) (sockDst : Addr) (d : Datagram) (q : Process) : Prop where
  table_eq : ∃ tc, q.stb = { p.stb with dst := sockDst, sockstate := .established, tc := tc }
  tDelackState_eq : q.stb.tc.tDelackState = p.stb.tc.tDelackState
  sndNxt_eq : q.stb.tc.sndNxt = 1
  sndUna_eq : q.stb.tc.sndUna = (recvPkg d).t.ackSeq
  rcvNxt_eq : q.stb.tc.rcvNxt = u32 (((recvPkg d).t.seq : ℤ) + 1)
  timerheap_eq : q.timerheap = p.timerheap
  ackdeque_eq : q.ackdeque = p.ackdeque

theorem touConnect_result {p : Process} {sockDst : Addr} {rcvbuf : ℤ} {d : Datagram}
    {r : Bool × Process} (h : touConnect p sockDst rcvbuf d = .ok r) :
    r.1 = true ∧ ConnectResult p sockDst d r.2 := by
  obtain ⟨syn, ack, _, _, rfl⟩ := touConnect_ok h
  exact ⟨rfl, ⟨_, rfl⟩, rfl, rfl, rfl, rfl, rfl, rfl⟩

theorem touConnect_returns (p : Process) (sockDst : Addr) (rcvbuf : ℤ) (d : Datagram)
    (hbuf : rcvbuf > 0) (hd : d.bytes.length ≠ 0) :
    ∃ q, touConnect p sockDst rcvbuf d = .ok (true, q) := by
  unfold touConnect touConnectSyn
  simp only
  rw [if_pos hbuf, ok_bind]
  unfold touConnectAck
  rw [if_neg hd]
  simp only
  rw [if_pos (toString_length_pos _)]
  exact ⟨_, rfl⟩

theorem isData_segment {seq ackSeq : ℕ} {payload : List Byte} (h : 0 < payload.length) :
    IsData (TouPkg.segment seq ackSeq payload) := ⟨rfl, rfl, rfl, h⟩

/-- What a call of `touAccept` that reaches its `recvfrom` makes of the process. -/
structure AcceptResult (p : Process) (rand : ℕ) (d : Datagram) (q : Process) : Prop where
  was_synReceived : p.stb.sockstate = .synReceived
  table_eq : ∃ tc, q.stb = { p.stb with sockstate := .established, tc := tc }
  tDelackState_eq : q.stb.tc.tDelackState = p.stb.tc.tDelackState
  sndNxt_eq : q.stb.tc.sndNxt = rand % 65535 + 1
  sndUna_eq : q.stb.tc.sndUna =
    if rand % 65535 + 1 = (recvPkg d).t.ackSeq then rand % 65535 + 1 else rand % 65535
  rcvNxt_eq : q.stb.tc.rcvNxt = p.stb.tc.rcvNxt
  timerheap_eq : q.timerheap = p.timerheap
  ackdeque_eq : q.ackdeque = p.ackdeque

theorem touAcceptAck_result (p : Process) (d : Datagram) :
    ∃ una, (touAcceptAck p d).stb = { p.stb with
      sockstate := .established, tc := { p.stb.tc with sndUna := una } } ∧
      una = if u32 ((p.stb.tc.sndUna : ℤ) + 1) = (recvPkg d).t.ackSeq then
        u32 ((p.stb.tc.sndUna : ℤ) + 1) else p.stb.tc.sndUna := by
  unfold touAcceptAck
  simp only
  by_cases hack : u32 ((p.stb.tc.sndUna : ℤ) + 1) = (recvPkg d).t.ackSeq
  · rw [if_pos hack, if_pos hack]
    refine ⟨_, ?_, rfl⟩
    by_cases hseq : p.stb.tc.rcvNxt = (recvPkg d).t.seq
    · have hseq' : (p.stb.setTCB p.stb.tc.sndNxt (u32 ((p.stb.tc.sndUna : ℤ) + 1))).tc.rcvNxt =
          (recvPkg d).t.seq := hseq
      rw [if_pos hseq', ← hseq']
      rfl
    · have hseq' : ¬ (p.stb.setTCB p.stb.tc.sndNxt (u32 ((p.stb.tc.sndUna : ℤ) + 1))).tc.rcvNxt =
          (recvPkg d).t.seq := hseq
      rw [if_neg hseq']
      rfl
  · rw [if_neg hack, if_neg hack]
    refine ⟨_, ?_, rfl⟩
    by_cases hseq : p.stb.tc.rcvNxt = (recvPkg d).t.seq
    · rw [if_pos hseq, ← hseq]
      rfl
    · rw [if_neg hseq]
      rfl

/-- All that a call of `touAccept` has done up to its `recvfrom`. -/
theorem touAcceptSynAck_ok {p : Process} {rand : ℕ} {rcvbuf : ℤ} {r : Bool × Process}
    (h : touAcceptSynAck p rand rcvbuf = .ok r) :
    (p.stb.sockstate = .synReceived ∧ ∃ synack : Tx, Bare synack.pkt ∧ r = (true, { p with
      stb := { p.stb with tc := { startTcb p.stb.tc rcvbuf with
        sndNxt := u32 (((rand % 65535 : ℕ) : ℤ) + 1)
        sndUna := rand % 65535 } }
      sent := p.sent ++ [synack] })) ∨
    p.stb.sockstate ≠ .synReceived ∧ r = (false, { p with
      stb := { p.stb with tc := { startTcb p.stb.tc rcvbuf with
        sndNxt := rand % 65535
        sndUna := rand % 65535 } } }) := by
  unfold touAcceptSynAck at h
  simp only at h
  split at h
  · split at h
    · rename_i hsyn
      cases h
      exact Or.inl ⟨hsyn, _, ⟨rfl, rfl, rfl⟩, rfl⟩
    · rename_i hsyn
      cases h
      exact Or.inr ⟨hsyn, rfl⟩
  · cases h

theorem touAccept_result {p : Process} {rand : ℕ} {rcvbuf : ℤ} {d : Datagram} {r : Bool × Process}
    (h : touAccept p rand rcvbuf d = .ok r) :
    r.1 = true ∧ AcceptResult p rand d r.2 ∨
      r.1 = false ∧ p.stb.sockstate ≠ .synReceived ∧ (∃ tc, r.2.stb = { p.stb with tc := tc } ∧
        tc.tDelackState = p.stb.tc.tDelackState) ∧
        r.2.timerheap = p.timerheap ∧ r.2.ackdeque = p.ackdeque := by
  obtain ⟨r1, h1, h⟩ := of_bind_ok h
  rcases touAcceptSynAck_ok h1 with ⟨hsyn, synack, _, rfl⟩ | ⟨hsyn, rfl⟩
  · rw [if_pos rfl] at h
    cases h
    have hrand : rand % 65535 < 65535 := Nat.mod_lt _ (by decide)
    have hone : u32 (((rand % 65535 : ℕ) : ℤ) + 1) = rand % 65535 + 1 := u32_add _ 1 (by omega)
    refine Or.inl ⟨rfl, hsyn, ?_, ?_, ?_, ?_, ?_, rfl, rfl⟩ <;>
      obtain ⟨una, ht, huna⟩ := touAcceptAck_result _ d <;> rw [ht]
    · exact ⟨_, rfl⟩
    · rfl
    · exact hone
    · rw [huna]
      show (if u32 (((rand % 65535 : ℕ) : ℤ) + 1) = _ then u32 (((rand % 65535 : ℕ) : ℤ) + 1) else _) = _
      rw [hone]
    · rfl
  · rw [if_neg Bool.false_ne_true] at h
    cases h
    exact Or.inr ⟨rfl, hsyn, ⟨_, rfl, rfl⟩, rfl, rfl⟩

/-! ## Reachable processes -/

inductive Listening : Process → Prop
  | listen (sockfd : ℕ) (stp : SockPtr) : Listening (touListen (Process.init sockfd stp))
  | run {now : ℕ} {p : Process} {pending : List Datagram} {r : RunRes} (hp : Listening p)
      (h : Process.run now p pending = .ok r) : Listening r.pr
  | accept {p q : Process} {rand : ℕ} {rcvbuf : ℤ} {d : Datagram} (hp : Listening p)
      (h : touAccept p rand rcvbuf d = .ok (false, q)) : Listening q

/-- The processes that a completed `touConnect` or `touAccept` leaves. -/
inductive Opened : Process → Prop
  | connect {sockfd : ℕ} {stp : SockPtr} {sockDst : Addr} {rcvbuf : ℤ} {d : Datagram} {b : Bool}
      {q : Process} (h : touConnect (Process.init sockfd stp) sockDst rcvbuf d = .ok (b, q)) : Opened q
  | accept {p q : Process} {rand : ℕ} {rcvbuf : ℤ} {d : Datagram} (hp : Listening p)
      (h : touAccept p rand rcvbuf d = .ok (true, q)) : Opened q

def Session (q : Process) : Prop := ∃ p, Opened p ∧ Relation.ReflTransGen ProcStep p q

/-- The states of the automaton on a socket that is not established. -/
def BeforeData (st : ProcState) : Prop :=
  st ≠ .pktRecovery ∧ st ≠ .ackDatarecsuccSendbackAck ∧ st ≠ .ackDatarecsuccNoSendbackAck

theorem beforeData_procEnd : BeforeData .procEnd := ⟨by decide, by decide, by decide⟩

theorem beforeData_clearGetPkt : BeforeData .clearGetPkt := ⟨by decide, by decide, by decide⟩

theorem beforeData_start {p : Process} (h : p.stb.runstate = .getPkt) (pending : List Datagram) :
    BeforeData (runSt p pending).state := by
  rw [runSt_getPkt h]
  exact ⟨by decide, by decide, by decide⟩

theorem beforeData_of_classified {stb : SockTb} {tp : TouPkg} {st : ProcState}
    (hc : processGetPktState stb tp = .ok st) : BeforeData st := by
  cases classified_of_ok hc <;> exact ⟨by decide, by decide, by decide⟩

theorem beforeData_after {st : ProcState} {P : Prop} (h : st = .procEnd ∨ st = .clearGetPkt ∧ P) :
    BeforeData st := by
  rcases h with rfl | ⟨rfl, _⟩
  · exact beforeData_procEnd
  · exact beforeData_clearGetPkt

theorem Handling.closed {D : Datagram → Prop} {s : RunSt} {d : Datagram} (hd : Handling D s d)
    (hne : s.pr.stb.sockstate ≠ .established) : s.state = .procSyn ∨ s.state = .procFin := by
  have hc := classified_of_ok hd.classified
  generalize s.state = st at hc
  cases hc with
  | syn => exact Or.inl rfl
  | fin => exact Or.inr rfl
  | ack hst | inOrder hst | old hst | future hst => exact absurd hst hne

/-- What `run` changes on a socket that is not established: it handles SYN and FIN only. -/
inductive ClosedChange (p : Process) : Process → Prop
  | same : ClosedChange p p
  | syn (dst : Addr) (rcv : ℕ) : ClosedChange p
      (p.setTable (((p.stb.setDst dst).setSocketState .synReceived).setTCBRcv rcv))
  | fin : ClosedChange p (p.setTable (p.stb.setSocketState .closeWait))

theorem ClosedChange.closed {p q : Process} (h : ClosedChange p q) (hne : p.stb.sockstate ≠ .established) :
    q.stb.sockstate ≠ .established := by
  cases h with
  | same => exact hne
  | syn | fin => exact fun h => by cases h

theorem ClosedChange.fresh {p q : Process} (h : ClosedChange p q) (hp : Fresh p) : Fresh q := by
  cases h with
  | same => exact hp
  | syn dst rcv => exact hp.of_handshake rfl rfl rfl rfl
  | fin => exact @Fresh.of_handshake _ _ hp p.stb.dst _ _ rfl rfl rfl rfl

theorem ClosedChange.sent_eq {p q : Process} (h : ClosedChange p q) : q.sent = p.sent := by
  cases h <;> rfl

theorem closed_turn {D : Datagram → Prop} {now : ℕ} {s s' : RunSt}
    (hne : s.pr.stb.sockstate ≠ .established) (hb : BeforeData s.state) (ht : RunTurn D now s s') :
    ClosedChange s.pr s'.pr ∧ BeforeData s'.state := by
  obtain ⟨hrec, hsend, hno⟩ := hb
  cases ht with
  | receive _ _ hc => exact ⟨ClosedChange.same, beforeData_of_classified hc⟩
  | syn => exact ⟨ClosedChange.syn _ _, beforeData_procEnd⟩
  | fin => exact ⟨ClosedChange.fin, beforeData_procEnd⟩
  | ack hst hd | inOrder hst hd | future hst hd =>
    rcases hd.closed hne with h | h <;> rw [h] at hst <;> cases hst
  | recovered hst | unrecovered hst => exact absurd hst hrec
  | sendback hst => exact absurd hst hsend
  | noSendback hst => exact absurd hst hno
  | old _ hnew => exact ⟨ClosedChange.same, beforeData_after hnew⟩

/-- A call of `run` on a socket that is not established. -/
theorem closed_run {now : ℕ} {p : Process} {pending : List Datagram} {r : RunRes}
    (hrun : p.stb.runstate = .getPkt) (hne : p.stb.sockstate ≠ .established)
    (h : run now p pending = .ok r) :
    Relation.ReflTransGen ClosedChange p r.pr ∧ r.pr.stb.sockstate ≠ .established := by
  obtain ⟨s, ⟨hs, _⟩, hr⟩ := run_inv (D := fun _ => True) h (fun _ _ => trivial)
    (fun s => (Relation.ReflTransGen ClosedChange p s.pr ∧ s.pr.stb.sockstate ≠ .established) ∧
      BeforeData s.state)
    ⟨⟨Relation.ReflTransGen.refl, hne⟩, beforeData_start hrun pending⟩
    (by
      rintro s s' _ _ ⟨⟨hs, hne⟩, hb⟩ ht
      obtain ⟨hchange, hb'⟩ := closed_turn hne hb ht
      exact ⟨⟨hs.tail hchange, hchange.closed hne⟩, hb'⟩)
  rw [hr]
  exact hs

theorem Listening.fresh {p : Process} (h : Listening p) :
    Fresh p ∧ p.stb.sockstate ≠ .established := by
  induction h with
  | listen sockfd stp =>
    exact ⟨(fresh_init sockfd stp).of_handshake rfl rfl rfl rfl, fun h => by cases h⟩
  | run _ h ih =>
    obtain ⟨hchanges, hne⟩ := closed_run ih.1.runstate ih.2 h
    exact ⟨reach_inv Fresh (fun _ _ hq hst => hst.fresh hq) ih.1 hchanges, hne⟩
  | accept _ h ih =>
    rcases touAccept_result h with ⟨hb, _⟩ | ⟨_, hne, ⟨tc, ht, hst⟩, hh, hd⟩
    · cases hb
    · refine ⟨ih.1.of_handshake ht hst hh hd, ?_⟩
      rw [ht]
      exact ih.2

theorem Opened.fresh {p : Process} (h : Opened p) : Fresh p ∧ p.stb.sockstate = .established := by
  cases h with
  | connect h =>
    have hr := (touConnect_result h).2
    obtain ⟨tc, ht⟩ := hr.table_eq
    have hst := hr.tDelackState_eq
    refine ⟨(fresh_init _ _).of_handshake ht ?_ hr.timerheap_eq hr.ackdeque_eq, by rw [ht]⟩
    rw [ht] at hst
    exact hst
  | accept hp h =>
    rcases touAccept_result h with ⟨_, hr⟩ | ⟨hb, _⟩
    · obtain ⟨tc, ht⟩ := hr.table_eq
      have hst := hr.tDelackState_eq
      refine ⟨hp.fresh.1.of_handshake ht ?_ hr.timerheap_eq hr.ackdeque_eq, by rw [ht]⟩
      rw [ht] at hst
      exact hst
    · cases hb

theorem Fresh.ackReady {p : Process} (hf : Fresh p) : AckReady p :=
  ⟨by rw [hf.tDelackState]; decide, fun h => by rw [hf.tDelackState] at h; cases h⟩

theorem Fresh.acksBehind {p : Process} (hf : Fresh p) : AcksBehind p := by
  intro n hn
  rw [hf.ackdeque] at hn
  cases hn

theorem exists_client : ∃ q, touConnect (Process.init 3 1) ⟨2, 80⟩ 425984 (synAckFrom ⟨2, 80⟩ 0 1) =
    .ok (true, q) ∧ Opened q ∧ q.stb.tc.rcvNxt = 1 := by
  obtain ⟨q, hq⟩ := touConnect_returns (Process.init 3 1) ⟨2, 80⟩ 425984
    (synAckFrom ⟨2, 80⟩ 0 1) (by decide) (by decide)
  refine ⟨q, hq, Opened.connect hq, ?_⟩
  rw [(touConnect_result hq).2.rcvNxt_eq]
  decide +kernel

end Process
end TcpOverUdp
