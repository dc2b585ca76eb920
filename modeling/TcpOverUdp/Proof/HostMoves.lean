import TcpOverUdp.Model.Interleaving
import TcpOverUdp.Proof.Sides

/-! # What a step of a thread has done

One inversion for each program counter: `SendMove` for `send`, `AckMove` for an ACK, `TurnMove` and `TakeMove` for
the automaton of `run`, `DelackMove` for the pass of the timer thread over the deque.
-/
namespace TcpOverUdp
open MachineInt
set_option autoImplicit false

namespace Process

/-! ## In `send` -/

/-- What a step of `send` has done. -/
inductive SendMove (now : ℕ) (p : Process) : SendAt → Process × Option SendAt → Prop
  | getwnd (v : Option SendVars) : SendMove now p (.getwnd v) (p, some (.compare v p.stb.tc.getwnd))
  | opens {v : Option SendVars} {w : ℕ} (h : p.stb.tc.sndNxt ≤ u32 ((p.stb.tc.sndUna : ℤ) + w)) :
      SendMove now p (.compare v w) (p, some (.subtract v w))
  | shut (v : Option SendVars) (w : ℕ) : SendMove now p (.compare v w) (p, some (.sized v 0))
  | subtract (v : Option SendVars) (w : ℕ) : SendMove now p (.subtract v w) (p, some (.sized v
      (s32 (u32 ((u32 ((p.stb.tc.sndUna : ℤ) + w) : ℤ) - p.stb.tc.sndNxt)))))
  | begin (s : ℤ) : SendMove now p (.sized none s) (p, some (.test ⟨p.stb.dst, calNumCaxmit s⟩))
  | stop (v : SendVars) (s : ℤ) : SendMove now p (.sized (some v) s) (p, none)
  /-- Outside of congestion avoidance the window has room for `MIN_SEND_SIZE`. -/
  | take (v v' : SendVars) {s : ℤ} (h : p.stb.tc.ccState ≠ .ca → minSendSize ≤ s) :
      SendMove now p (.sized (some v) s)
        (p, some (.getAt v' (if s ≥ touSmss then (touSmss : ℤ) else s)))
  | again {v : SendVars} (h : 0 < p.stb.cbSend.contents.length) :
      SendMove now p (.test v) (p, some (.getwnd (some v)))
  | leave (v : SendVars) : SendMove now p (.test v) (p, none)
  | read {v : SendVars} {len : ℤ} {l : ℕ} (hl : l = min (s32 len).toNat p.stb.cbSend.contents.length)
      (h0 : 0 < l) :
      SendMove now p (.getAt v len) (p, some (.remove v l (p.stb.cbSend.contents.take l ++
        List.replicate (touMss - (p.stb.cbSend.contents.take l).length) 0)))
  | readNone {v : SendVars} {len : ℤ} (buf : List Byte)
      (h : 0 = min (s32 len).toNat p.stb.cbSend.contents.length) :
      SendMove now p (.getAt v len) (p, some (.genPkt v 0 buf))
  | remove (v : SendVars) (bread : ℤ) (buf : List Byte) :
      SendMove now p (.remove v bread buf)
        (p.setTable { p.stb with cbSend := (p.stb.cbSend.remove bread).2 },
          some (.genPkt v (if bread ≠ (p.stb.cbSend.remove bread).1 then -1 else bread) buf))
  | genPkt {v : SendVars} {len : ℤ} {buf : List Byte} {pkt : TouPkg}
      (h : Process.genPkt p.stb buf len = .ok pkt) :
      SendMove now p (.genPkt v len buf) (p, some (.advance v len pkt))
  | advance (v : SendVars) (len : ℤ) (pkt : TouPkg) :
      SendMove now p (.advance v len pkt)
        (p.setTable { p.stb with tc := { p.stb.tc with sndNxt := u32 ((p.stb.tc.sndNxt : ℤ) + len) } },
          some (.sendto v len pkt))
  | sendto (v : SendVars) (len : ℤ) (pkt : TouPkg) :
      SendMove now p (.sendto v len pkt)
        (p.sendto [{ site := .send, dst := v.sockaddrs, pkt := pkt }], some (.newNode v len pkt))
  | newNode (v : SendVars) (len : ℤ) (pkt : TouPkg) :
      SendMove now p (.newNode v len pkt) (p, some (.push v (Node.ofPayload p.stb.sockd timerIdSndpkt
        (u32 ((pkt.t.seq : ℤ) + len)) p.stp p.stb pkt.buf now)))
  | push (v : SendVars) (nt : Node) :
      SendMove now p (.push v nt) ({ p with timerheap := p.timerheap.push nt.copy }, some (.test v))

theorem sendMicro_ok {now : ℕ} {p : Process} {pc : SendAt} {r : Process × Option SendAt}
    (h : sendMicro now p pc = .ok r) : SendMove now p pc r := by
  cases pc with
  | getwnd v =>
    cases h
    exact .getwnd v
  | compare v w =>
    simp only [sendMicro] at h
    split at h
    · cases h
      exact .opens ‹_›
    · cases h
      exact .shut v w
  | subtract v w =>
    cases h
    exact .subtract v w
  | sized v s =>
    cases v with
    | none =>
      cases h
      exact .begin s
    | some v =>
      simp only [sendMicro] at h
      split at h
      · split at h
        · cases h
          exact .stop v s
        · cases h
          exact .take v _ fun hca => absurd ‹_› hca
      · split at h
        · cases h
          exact .stop v s
        · cases h
          exact .take v _ fun _ => not_lt.mp ‹_›
  | test v =>
    simp only [sendMicro, RingBuf.getTotalElements_eq] at h
    split at h
    · cases h
      exact .again (by omega)
    · cases h
      exact .leave v
  | getAt v len =>
    have hget := p.stb.cbSend.getAt_spec len
    obtain ⟨l, hl⟩ : ∃ l, l = min (s32 len).toNat p.stb.cbSend.contents.length := ⟨_, rfl⟩
    have htake : p.stb.cbSend.contents.take (s32 len).toNat = p.stb.cbSend.contents.take l := by
      rw [hl]
      exact List.take_eq_take_min
    rw [← hl, htake] at hget
    simp only [sendMicro, hget.1, hget.2] at h
    split at h
    · cases h
      exact .read hl (by omega)
    · have h0 : l = 0 := by omega
      subst h0
      cases h
      exact .readNone _ hl
  | remove v bread buf =>
    cases h
    exact .remove v bread buf
  | genPkt v len buf =>
    obtain ⟨pkt, hpkt, h⟩ := of_bind_ok h
    cases h
    exact .genPkt hpkt
  | advance v len pkt =>
    cases h
    exact .advance v len pkt
  | sendto v len pkt =>
    cases h
    exact .sendto v len pkt
  | newNode v len pkt =>
    cases h
    exact .newNode v len pkt
  | push v nt =>
    cases h
    exact .push v nt

/-! ## In `run` -/

/-- What a step for an ACK has done. -/
inductive AckMove (now : ℕ) (p : Process) : AckAt → Process × Option AckAt → Prop
  | setUna (a : ℕ) : AckMove now p (.setUna a)
      (p.setTable { p.stb with tc := { p.stb.tc with sndUna := a } }, some (.deleteTimer a))
  | deleteTimer {a : ℕ} {r : TimerHeap × Option Node} (rtt rto : ℕ)
      (hr : Timer.deleteTimer p.stb.sockd timerIdSndpkt a p.timerheap = .ok r) :
      AckMove now p (.deleteTimer a) ({ p with
        stb := { p.stb with tc := { p.stb.tc with tRtt := rtt, tRto := rto } }, timerheap := r.1 }, none)
  | setdwnd (a : ℕ) : AckMove now p (.setdwnd a)
      (p.setTable { p.stb with tc := (p.stb.tc.setdwnd a).2 }, some (.ckNumDupack a))
  | third (a : ℕ) : AckMove now p (.ckNumDupack a) (p, some (.rexmit a))
  | other (a : ℕ) : AckMove now p (.ckNumDupack a) (p, none)
  | rexmit {a : ℕ} {r : Bool × TimerHeap × List Tx}
      (hr : Timer.rexmitForDupAck p.table p.stb.sockd timerIdSndpkt a now p.timerheap = .ok r) :
      AckMove now p (.rexmit a) ({ p with timerheap := r.2.1, sent := p.sent ++ r.2.2 }, none)

theorem ackMicro_ok {now : ℕ} {p : Process} {pc : AckAt} {r : Process × Option AckAt}
    (h : ackMicro now p pc = .ok r) : AckMove now p pc r := by
  cases pc with
  | setUna a =>
    cases h
    exact .setUna a
  | deleteTimer a =>
    obtain ⟨cleared, hr, h⟩ := of_bind_ok h
    cases hnode : cleared.2 with
    | none =>
      rw [hnode] at h
      cases h
      exact .deleteTimer p.stb.tc.tRtt p.stb.tc.tRto hr
    | some nt =>
      rw [hnode] at h
      cases h
      obtain ⟨rtt, rto, hcal⟩ := Timer.calRto_frame p.stb nt now
      simp only [hcal]
      exact .deleteTimer rtt rto hr
  | setdwnd a =>
    cases h
    exact .setdwnd a
  | ckNumDupack a =>
    simp only [ackMicro] at h
    split at h
    · cases h
      exact .third a
    · cases h
      exact .other a
  | rexmit a =>
    obtain ⟨rex, hr, h⟩ := of_bind_ok h
    cases h
    exact .rexmit hr

/-- What a step of a turn has done. -/
inductive TakeMove (p : Process) (r : RunVars) : TakeAt → Process × RunAt → Prop
  | setSocketState : TakeMove p r .setSocketState
      (p.setTable (p.stb.setSocketState .synReceived), .take r .setTCBRcv)
  | setTCBRcv {tp : TouPkg} (htp : r.tp = some tp) : TakeMove p r .setTCBRcv
      (p.setTable (p.stb.setTCBRcv (u32 ((tp.t.seq : ℤ) + 1))), .turn { r with state := .procEnd })
  | putcircbuf {tp : TouPkg} {n : ℤ} {cb : SockBuf} (htp : r.tp = some tp)
      (hput : Process.putcircbuf p.stb tp.buf tp.buf.length = (n, { p.stb with cbRecv := cb })) :
      TakeMove p r .putcircbuf
        (p.setTable { p.stb with cbRecv := cb }, .turn { r with state := .pktRecovery })
  | setAckState : TakeMove p r .setAckState
      (p.setTable (p.stb.setAckState .immedUpdateXmit), .turn { r with state := .ackDatarecsuccSendbackAck })
  | recNone (ht : p.stb.minhpRecv.top? = none) : TakeMove p r .recLoop (p, .take r (.recAckState 0))
  | recGap {top : TouPkg} (ht : p.stb.minhpRecv.top? = some top) (hlt : p.stb.tc.rcvNxt < top.t.seq) :
      TakeMove p r .recLoop (p, .take r (.recAckState 0))
  | recNext {top : TouPkg} (ht : p.stb.minhpRecv.top? = some top) (heq : top.t.seq = p.stb.tc.rcvNxt) :
      TakeMove p r .recLoop (p, .take r (.recPut top))
  | recPut {top : TouPkg} {n : ℤ} {cb : SockBuf}
      (hput : Process.putcircbuf p.stb top.buf top.buf.length = (n, { p.stb with cbRecv := cb })) (hn : n > 0) :
      TakeMove p r (.recPut top) (p.setTable { p.stb with cbRecv := cb }, .take r (.recTCBRcv top))
  | recRefused {top : TouPkg} {n : ℤ} {cb : SockBuf}
      (hput : Process.putcircbuf p.stb top.buf top.buf.length = (n, { p.stb with cbRecv := cb }))
      (hn : ¬ n > 0) :
      TakeMove p r (.recPut top) (p.setTable { p.stb with cbRecv := cb }, .take r (.recAckState (-1)))
  | recTCBRcv (top : TouPkg) : TakeMove p r (.recTCBRcv top)
      (p.setTable (p.stb.setTCBRcv (u32 ((top.t.seq : ℤ) + top.buf.length))), .take r .recPop)
  | recPop : TakeMove p r .recPop
      (p.setTable { p.stb with minhpRecv := p.stb.minhpRecv.pop }, .take r .recLoop)
  | recAckState (retval : ℤ) : TakeMove p r (.recAckState retval)
      (p.setTable (p.stb.setAckState .immedUpdateXmit), .take r (.recEnd retval))
  | recovered : TakeMove p r (.recEnd 0)
      (p.setTable (p.stb.setRunstate .getPkt), .turn { r with state := .ackDatarecsuccSendbackAck })
  | unrecovered {retval : ℤ} (h : retval ≠ 0) : TakeMove p r (.recEnd retval)
      (p.setTable (p.stb.setRunstate .pktRecovery), .turn { r with state := .ackDatarecsuccNoSendbackAck })

theorem readTp_ok {r : RunVars} {tp : TouPkg} (h : r.readTp = .ok tp) : r.tp = some tp := by
  unfold RunVars.readTp at h
  split at h
  · cases h
  · cases h
    assumption

theorem takeMicro_ok {p : Process} {r : RunVars} {pc : TakeAt} {q : Process × RunAt}
    (h : takeMicro p r pc = .ok q) : TakeMove p r pc q := by
  cases pc with
  | setSocketState =>
    cases h
    exact .setSocketState
  | setTCBRcv =>
    obtain ⟨tp, htp, h⟩ := of_bind_ok h
    cases h
    exact .setTCBRcv (readTp_ok htp)
  | putcircbuf =>
    obtain ⟨tp, htp, h⟩ := of_bind_ok h
    obtain ⟨n, cb, hput⟩ := putcircbuf_frame p.stb tp.buf tp.buf.length
    rw [hput] at h
    cases h
    exact .putcircbuf (readTp_ok htp) hput
  | setAckState =>
    cases h
    exact .setAckState
  | recLoop =>
    simp only [takeMicro] at h
    split at h
    · rename_i ht
      cases h
      exact .recNone ht
    · rename_i top ht
      split at h
      · rename_i hge
        split at h
        · rename_i heq
          cases h
          exact .recNext ht heq
        · cases h
          exact .recGap ht (by omega)
      · cases h
  | recPut top =>
    obtain ⟨n, cb, hput⟩ := putcircbuf_frame p.stb top.buf top.buf.length
    simp only [takeMicro, hput] at h
    split at h
    · rename_i hn
      cases h
      exact .recPut hput hn
    · rename_i hn
      cases h
      exact .recRefused hput hn
  | recTCBRcv top =>
    cases h
    exact .recTCBRcv top
  | recPop =>
    cases h
    exact .recPop
  | recAckState retval =>
    cases h
    exact .recAckState retval
  | recEnd retval =>
    simp only [takeMicro] at h
    split at h
    · rename_i hret
      cases h
      exact hret ▸ .recovered
    · rename_i hret
      cases h
      exact .unrecovered hret

/-- What the first step of a turn has done. -/
inductive TurnMove (now : ℕ) (c : Host) (r : RunVars) : Host → Prop
  | receive {d : Datagram} {rest : List Datagram} {st : ProcState}
      (hs : r.state = .getPkt ∨ r.state = .clearGetPkt) (hp : c.queue = d :: rest)
      (hc : processGetPktState c.pr.stb (recvPkg d) = .ok st) :
      TurnMove now c r (c.afterTurn (.next ((c.runSt r).took d rest st)))
  | unreceived {rest : List Datagram} (hs : r.state = .getPkt ∨ r.state = .clearGetPkt)
      (hrest : ∀ d ∈ rest, d ∈ c.queue) : TurnMove now c r { c with queue := rest, run := none }
  | ended (hs : r.state = .procEnd) : TurnMove now c r { c with run := none }
  | syn (hs : r.state = .procSyn) : TurnMove now c r { c with
      pr := c.pr.setTable (c.pr.stb.setDst r.sockaddrs), run := some (.take r .setSocketState) }
  | fin (hs : r.state = .procFin) : TurnMove now c r { c with
      pr := c.pr.setTable (c.pr.stb.setSocketState .closeWait)
      run := some (.turn { r with state := .procEnd }) }
  | inOrder {tp : TouPkg} (hs : r.state = .ackWithDataMatchExpectedSeq) (htp : r.tp = some tp) :
      TurnMove now c r { c with
        pr := c.pr.setTable (c.pr.stb.setTCBRcv (u32 ((tp.t.seq : ℤ) + tp.buf.length)))
        run := some (.take r .putcircbuf) }
  | old {st : ProcState} (hs : r.state = .ackWithDataLessExpectedSeq)
      (hst : st = .procEnd ∨ st = .clearGetPkt ∧ c.pr.stb.cbRecv.getAvSize ≥ recvBufSize) :
      TurnMove now c r { c with run := some (.turn { r with state := st }) }
  | future {tp : TouPkg} (hs : r.state = .ackWithDataMoreExpectedSeq) (htp : r.tp = some tp) :
      TurnMove now c r { c with
        pr := c.pr.setTable (c.pr.stb.pushHpRecvBuf tp), run := some (.take r .setAckState) }
  | noPkts (hs : r.state = .pktRecovery) (he : c.pr.stb.minhpRecv.isEmpty = true) :
      TurnMove now c r { c with run := some (.take r (.recEnd 0)) }
  | pkts (hs : r.state = .pktRecovery) (he : ¬ c.pr.stb.minhpRecv.isEmpty = true) :
      TurnMove now c r { c with run := some (.take r .recLoop) }
  | sendback {q : Process} (hs : r.state = .ackDatarecsuccSendbackAck) (hq : procDelack now c.pr = .ok q) :
      TurnMove now c r { c with
        pr := q, run := some (.turn { r with state := .ackDatarecsuccNoSendbackAck }) }
  | noSendback {st : ProcState} (hs : r.state = .ackDatarecsuccNoSendbackAck)
      (hst : st = .procEnd ∨ st = .clearGetPkt ∧ c.pr.stb.cbRecv.getAvSize ≥ recvBufSize ∧
        c.pr.stb.runstate = .getPkt) :
      TurnMove now c r { c with run := some (.turn { r with state := st }) }

theorem getPkt_move {now : ℕ} {c : Host} {r : RunVars} {t : Turn RunSt RunRes}
    (hs : r.state = .getPkt ∨ r.state = .clearGetPkt) (h : getPkt (c.runSt r) = .ok t) :
    TurnMove now c r (c.afterTurn t) := by
  cases hp : c.queue with
  | nil =>
    rw [getPkt_nil hp] at h
    cases h
    exact .unreceived hs (List.forall_mem_nil _)
  | cons d rest =>
    by_cases hd : d.bytes = []
    · rw [getPkt_empty hp hd] at h
      cases h
      exact .unreceived hs fun d' hd' => hp ▸ List.mem_cons_of_mem d hd'
    · rw [getPkt_cons hp hd] at h
      obtain ⟨st, hst, h⟩ := of_bind_ok h
      cases h
      exact .receive hs hp hst

theorem turnMicro_ok {now : ℕ} {c c' : Host} {r : RunVars} (hne : r.state ≠ .ackWithoutData)
    (h : Host.turnMicro now c r = .ok c') : TurnMove now c r c' := by
  unfold Host.turnMicro at h
  cases hs : r.state with
  | procSyn =>
    simp only [hs] at h
    cases h
    exact .syn hs
  | ackWithDataMatchExpectedSeq =>
    simp only [hs] at h
    obtain ⟨tp, htp, h⟩ := of_bind_ok h
    cases h
    exact .inOrder hs (readTp_ok htp)
  | ackWithDataMoreExpectedSeq =>
    simp only [hs] at h
    obtain ⟨tp, htp, h⟩ := of_bind_ok h
    cases h
    exact .future hs (readTp_ok htp)
  | pktRecovery =>
    simp only [hs] at h
    cases h
    by_cases he : c.pr.stb.minhpRecv.isEmpty = true
    · rw [if_pos he]
      exact .noPkts hs he
    · rw [if_neg he]
      exact .pkts hs he
  | ackDatarecsuccSendbackAck =>
    simp only [hs] at h
    obtain ⟨q, hq, h⟩ := of_bind_ok h
    cases h
    exact .sendback hs hq
  | ackWithoutData => exact absurd hs hne
  | getPkt | clearGetPkt =>
    have hrecv : r.state = .getPkt ∨ r.state = .clearGetPkt := by
      rw [hs]
      simp
    simp only [hs] at h
    obtain ⟨t, ht, h⟩ := of_bind_ok h
    cases h
    have hget : runStep now (c.runSt r) = getPkt (c.runSt r) := runStep_receives hrecv
    rw [hget] at ht
    exact getPkt_move hrecv ht
  | procEnd =>
    simp only [hs, Host.runSt, runStep] at h
    cases h
    exact .ended hs
  | procFin =>
    simp only [hs, Host.runSt, runStep] at h
    cases h
    exact .fin hs
  | ackWithDataLessExpectedSeq =>
    simp only [hs, Host.runSt, runStep] at h
    obtain ⟨t, ht, h⟩ := of_bind_ok h
    cases h
    split at ht
    · rename_i hfull
      cases ht
      exact .old hs (Or.inr ⟨rfl, hfull.2⟩)
    · cases ht
      exact .old hs (Or.inl rfl)
  | ackDatarecsuccNoSendbackAck =>
    simp only [hs, Host.runSt, runStep, Process.noSendback] at h
    obtain ⟨t, ht, h⟩ := of_bind_ok h
    cases h
    split at ht
    · rename_i hfull
      cases ht
      exact .noSendback hs (Or.inr ⟨rfl, hfull.2⟩)
    · cases ht
      exact .noSendback hs (Or.inl rfl)

/-- The application's calls have no part in a turn. -/
theorem TurnMove.calls_eq {now : ℕ} {c c' : Host} {r : RunVars} (h : TurnMove now c r c') :
    c'.accepted = c.accepted ∧ c'.recv = c.recv ∧ c'.returned = c.returned := by
  cases h <;> exact ⟨rfl, rfl, rfl⟩

/-! ## In `timerCk::proc_delack` -/

/-- What a step of `timerCk::proc_delack` has done. -/
inductive DelackMove (p : Process) : DelackAt → Process × Option DelackAt → Prop
  | finish {t i : ℕ} (hi : p.ackdeque[i]? = none) : DelackMove p (.node t i) (p, none)
  | waits {t i : ℕ} {n : Node} (hi : p.ackdeque[i]? = some n) :
      DelackMove p (.node t i) (p, some (.node t (i + 1)))
  | due {t i : ℕ} {n : Node} {st : DelackState} (hi : p.ackdeque[i]? = some n)
      (hst : st = .quexmit ∨ st = .expxmit) :
      DelackMove p (.node t i) (p, some (.assertRcvNxt t i n st))
  | received {t i : ℕ} {n : Node} {st : DelackState} (h : n.pId ≤ p.stb.tc.rcvNxt) :
      DelackMove p (.assertRcvNxt t i n st) (p, some (.putSeq t i n st))
  | putSeq (t i : ℕ) (n : Node) (st : DelackState) :
      DelackMove p (.putSeq t i n st) (p, some (.putAck t i n st p.stb.tc.sndNxt))
  | putAck {t i : ℕ} {n : Node} {st : DelackState} {seq : ℕ} :
      DelackMove p (.putAck t i n st seq) (p.sendto [{
        site := .sendack, dst := p.stb.dst, pkt := TouPkg.segment seq p.stb.tc.rcvNxt [] }],
          some (.updateAck t i n st))
  | updateAck (t i : ℕ) (n : Node) (st : DelackState) :
      DelackMove p (.updateAck t i n st) ({ p with
        stb := p.stb.setAckState st
        ackdeque := p.ackdeque.set i (Timer.refreshAck n p.stb t) }, some (.node t (i + 1)))

theorem delackXmit_ok {stb : SockTb} {t i : ℕ} {n : Node} {pc : DelackAt}
    (h : delackXmit stb t i n = .ok pc) :
    pc = .node t (i + 1) ∨ ∃ st, pc = .assertRcvNxt t i n st ∧ (st = .quexmit ∨ st = .expxmit) := by
  unfold delackXmit at h
  cases hst : stb.tc.tDelackState with
  | immedUpdateXmit =>
    rw [hst] at h
    cases h
    exact Or.inl rfl
  | xmit =>
    rw [hst] at h
    cases h
    split
    · exact Or.inr ⟨_, rfl, Or.inl rfl⟩
    · exact Or.inl rfl
  | quexmit | expxmit | que =>
    rw [hst] at h
    cases h
    split
    · exact Or.inr ⟨_, rfl, Or.inr rfl⟩
    · exact Or.inl rfl
  | err =>
    rw [hst] at h
    cases h

theorem delackMicro_ok {p : Process} {pc : DelackAt} {q : Process × Option DelackAt}
    (h : delackMicro p pc = .ok q) : DelackMove p pc q := by
  cases pc with
  | node t i =>
    simp only [delackMicro] at h
    split at h
    · rename_i hi
      cases h
      exact .finish hi
    · rename_i n hi
      obtain ⟨pc, hpc, h⟩ := of_bind_ok h
      cases h
      rcases delackXmit_ok hpc with rfl | ⟨st, rfl, hst⟩
      · exact .waits hi
      · exact .due hi hst
  | assertRcvNxt t i n st =>
    simp only [delackMicro] at h
    split at h
    · cases h
      exact .received ‹_›
    · cases h
  | putSeq t i n st =>
    cases h
    exact .putSeq t i n st
  | putAck t i n st seq =>
    cases h
    exact .putAck
  | updateAck t i n st =>
    cases h
    exact .updateAck t i n st

end Process
end TcpOverUdp
