import TcpOverUdp.Proof.HostMoves
import TcpOverUdp.Proof.Receiver

/-! # What the steps of the threads leave alone

The steps of reception send nothing but ACKs (`OnlyAcks`); those of `send`, of an ACK and of the timer spare the
receive side (`Spares`). So each step counts for one of the two sides, and `Host.SendStep` and `Host.RecvStep`
list what it can be there. What `run` found out about the packet it handles still holds when it goes on
(`Host.RunOk`): of what `processGetPktState` looks at only `snd_nxt` can have changed, and it has advanced.
-/
namespace TcpOverUdp
open MachineInt
set_option autoImplicit false

namespace Process

/-! ## Steps that spare the receive side -/

structure Spares (p q : Process) : Prop where
  recv : RecvSame p.stb q.stb
  sockstate_eq : q.stb.sockstate = p.stb.sockstate
  sockd_eq : q.stb.sockd = p.stb.sockd
  stp_eq : q.stp = p.stp
  ackdeque_eq : q.ackdeque = p.ackdeque
  tDelackState_eq : q.stb.tc.tDelackState = p.stb.tc.tDelackState

theorem Spares.refl (p : Process) : Spares p p := ⟨⟨rfl, rfl, rfl, rfl⟩, rfl, rfl, rfl, rfl, rfl⟩

theorem Spares.of_tc {p : Process} {tc : TouCb} (hr : tc.rcvNxt = p.stb.tc.rcvNxt)
    (hd : tc.tDelackState = p.stb.tc.tDelackState) : Spares p (p.setTable { p.stb with tc := tc }) :=
  ⟨⟨rfl, rfl, hr, rfl⟩, rfl, rfl, rfl, rfl, hd⟩

theorem Spares.of_same {p : Process} {tc : TouCb} (h : TouCb.SameConnection p.stb.tc tc) :
    Spares p (p.setTable { p.stb with tc := tc }) := Spares.of_tc h.rcvNxt h.tDelackState

theorem SendMove.spares {now : ℕ} {p : Process} {pc : SendAt} {r : Process × Option SendAt}
    (h : SendMove now p pc r) : Spares p r.1 := by
  cases h with
  | advance => exact Spares.of_tc rfl rfl
  | remove | sendto | push => exact ⟨⟨rfl, rfl, rfl, rfl⟩, rfl, rfl, rfl, rfl, rfl⟩
  | _ => exact Spares.refl p

theorem ackFirst_spares (p : Process) (tp : TouPkg) : Spares p (ackFirst p tp).1 := by
  unfold ackFirst
  split
  · exact Spares.of_same p.stb.tc.addwnd_frame
  · exact Spares.refl p
  · exact Spares.of_same p.stb.tc.addwnd_frame

theorem AckMove.spares {now : ℕ} {p : Process} {pc : AckAt} {r : Process × Option AckAt}
    (h : AckMove now p pc r) : Spares p r.1 := by
  cases h with
  | setUna => exact Spares.of_tc rfl rfl
  | deleteTimer | rexmit => exact ⟨⟨rfl, rfl, rfl, rfl⟩, rfl, rfl, rfl, rfl, rfl⟩
  | setdwnd a => exact Spares.of_same (p.stb.tc.setdwnd_frame a)
  | third | other => exact Spares.refl p

/-- `run` is at an ACK. -/
def RunAt.AtAck : RunAt → Prop
  | .turn r => r.state = .ackWithoutData
  | .take _ _ => False
  | _ => True

/-- `run` is behind the first step of an ACK. -/
def RunAt.BehindAck : RunAt → Prop
  | .turn r => r.state = .procEnd
  | .take _ _ => False
  | _ => True

/-- What a step beside reception does to `run`. -/
inductive RunBeside : Option RunAt → Option RunAt → Prop
  | same (o : Option RunAt) : RunBeside o o
  | ack {a b : RunAt} (ha : a.AtAck) (hb : b.BehindAck) : RunBeside (some a) (some b)

theorem RunBeside.pc {o o' : Option RunAt} {pc : RunAt} (h : RunBeside o o') (hpc : o' = some pc) :
    o = some pc ∨ pc.BehindAck := by
  cases h with
  | same => exact Or.inl hpc
  | ack _ hb =>
    cases hpc
    exact Or.inr hb

/-- A step beside reception. -/
structure Host.SparesRecv (c c' : Host) : Prop where
  spares : Spares c.pr c'.pr
  queue_eq : c'.queue = c.queue
  recv_eq : c'.recv = c.recv
  returned_eq : c'.returned = c.returned
  delack_eq : c'.delack = c.delack
  run : RunBeside c.run c'.run

theorem afterSend_beside (run : Option RunAt) (o : Option SendAt) :
    RunBeside run (Host.afterSend run o) := by
  cases o with
  | some _ => exact .same run
  | none =>
    unfold Host.afterSend
    simp only
    split
    · exact .ack trivial rfl
    · exact .same _

theorem goOnAck_behind (r : RunVars) (o : Option AckAt) : (Host.goOnAck r o).BehindAck := by
  cases o <;> trivial

/-- What a step is for reception. -/
inductive Host.RecvStep (net : Host → Datagram → Prop) (room : Host → RunVars → Prop) (c : Host) : Host → Prop
  | arrive {d : Datagram} (hd : net c d) : RecvStep net room c { c with queue := c.queue ++ [d] }
  | enterRun (h : c.run = none) : RecvStep net room c
      { c with run := some (.turn (runVars (Process.runSt c.pr c.queue))) }
  | turn {c' : Host} {now : ℕ} {r : RunVars} (hpc : c.run = some (.turn r)) (hfree : c.TurnFree r)
      (hroom : room c r) (h : TurnMove now c r c') : RecvStep net room c c'
  | take {r : RunVars} {pc : TakeAt} {q : Process × RunAt} (hpc : c.run = some (.take r pc))
      (hfree : c.TakeFree pc) (h : TakeMove c.pr r pc q) :
      RecvStep net room c { c with pr := q.1, run := some q.2 }
  | enterDelack (now : ℕ) (h : c.delack = none) :
      RecvStep net room c { c with delack := some (.node now 0) }
  | delack {pc : DelackAt} {q : Process × Option DelackAt} (hpc : c.delack = some pc)
      (h : DelackMove c.pr pc q) : RecvStep net room c { c with pr := q.1, delack := q.2 }
  | recvGetAt (len : ℤ) (h : c.recv = none) : RecvStep net room c
      { c with recv := some (.remove (c.pr.stb.cbRecv.getAt len).1 (c.pr.stb.cbRecv.getAt len).2) }
  | recvRemove {readsize : ℤ} {data : List Byte} (hpc : c.recv = some (.remove readsize data)) :
      RecvStep net room c { c with
        pr := c.pr.setTable { c.pr.stb with cbRecv := (c.pr.stb.cbRecv.remove readsize).2 }
        recv := some (.check
          (if (c.pr.stb.cbRecv.remove readsize).1 ≠ readsize then -1 else readsize) data) }
  | recvCheck {readsize : ℤ} {data : List Byte} (hpc : c.recv = some (.check readsize data)) :
      RecvStep net room c { c with
        recv := none
        returned := c.returned ++
          data.take (if c.pr.stb.sockstate = .closeWait then 0 else readsize).toNat }
  | beside {c' : Host} (h : c.SparesRecv c') : RecvStep net room c c'

theorem Host.Step.recvStep {net : Host → Datagram → Prop} {room : Host → RunVars → Prop} {c c' : Host}
    (h : Host.Step net room c c') : c.RecvStep net room c' := by
  cases h with
  | arrive hd => exact .arrive hd
  | pushsndq | enterSend | clearAcked | fire =>
    exact .beside ⟨⟨⟨rfl, rfl, rfl, rfl⟩, rfl, rfl, rfl, rfl, rfl⟩, rfl, rfl, rfl, rfl, .same _⟩
  | send _ _ _ hm =>
    exact .beside ⟨(sendMicro_ok hm).spares, rfl, rfl, rfl, rfl, afterSend_beside _ _⟩
  | enterRun hnone => exact .enterRun hnone
  | turn hpc hne hfree hroom ht => exact .turn hpc hfree hroom (turnMicro_ok hne ht)
  | take hpc hfree ht => exact .take hpc hfree (takeMicro_ok ht)
  | procAck hpc hst =>
    exact .beside ⟨ackFirst_spares _ _, rfl, rfl, rfl, rfl, hpc ▸ .ack hst (goOnAck_behind _ _)⟩
  | ack _ hpc _ hm =>
    exact .beside ⟨(ackMicro_ok hm).spares, rfl, rfl, rfl, rfl, hpc ▸ .ack trivial (goOnAck_behind _ _)⟩
  | callSend hpc =>
    exact .beside ⟨Spares.refl _, rfl, rfl, rfl, rfl, hpc ▸ .ack trivial trivial⟩
  | enterDelack now hnone => exact .enterDelack now hnone
  | delack hpc hm => exact .delack hpc (delackMicro_ok hm)
  | settwnd =>
    exact .beside ⟨Spares.of_same c.pr.stb.tc.settwnd_frame, rfl, rfl, rfl, rfl, .same _⟩
  | recvGetAt len hnone => exact .recvGetAt len hnone
  | recvRemove hpc => exact .recvRemove hpc
  | recvCheck hpc => exact .recvCheck hpc

/-! ## Steps that spare the send side -/

/-- The send side is the same, but for pure ACKs that were sent. Their `seq` may be older than `snd_nxt`. -/
structure OnlyAcks (p q : Process) : Prop where
  sockd_eq : q.stb.sockd = p.stb.sockd
  cbSend_eq : q.stb.cbSend = p.stb.cbSend
  tc_eq : q.stb.tc = { p.stb.tc with
    rcvNxt := q.stb.tc.rcvNxt, tDelackState := q.stb.tc.tDelackState }
  heap_eq : q.timerheap = p.timerheap
  sent_eq : ∃ txs, q.sent = p.sent ++ txs ∧ ∀ tx ∈ txs, tx.site ≠ .send ∧
    ∃ seq, tx.pkt = TouPkg.segment seq p.stb.tc.rcvNxt []

theorem OnlyAcks.sndUna_eq {p q : Process} (h : OnlyAcks p q) : q.stb.tc.sndUna = p.stb.tc.sndUna := by
  rw [h.tc_eq]

theorem OnlyAcks.sndNxt_eq {p q : Process} (h : OnlyAcks p q) : q.stb.tc.sndNxt = p.stb.tc.sndNxt := by
  rw [h.tc_eq]

theorem SendSame.onlyAcks {p q : Process} (h : SendSame p q) : OnlyAcks p q := by
  obtain ⟨txs, hsent, hacks⟩ := h.sent_eq
  exact ⟨h.sockd_eq, h.cbSend_eq, h.tc_eq, h.heap_eq, txs, hsent,
    fun tx htx => ⟨(hacks tx htx).site_ne, _, (hacks tx htx).pkt⟩⟩

theorem OnlyAcks.refl (p : Process) : OnlyAcks p p :=
  ⟨rfl, rfl, rfl, rfl, [], (List.append_nil _).symm, List.forall_mem_nil _⟩

theorem OnlyAcks.of_table {p : Process} {stb : SockTb} (h1 : stb.sockd = p.stb.sockd)
    (h2 : stb.cbSend = p.stb.cbSend) (h3 : stb.tc = { p.stb.tc with
      rcvNxt := stb.tc.rcvNxt, tDelackState := stb.tc.tDelackState }) : OnlyAcks p (p.setTable stb) :=
  ⟨h1, h2, h3, rfl, [], (List.append_nil _).symm, List.forall_mem_nil _⟩

theorem TurnMove.onlyAcks {now : ℕ} {c c' : Host} {r : RunVars} (h : TurnMove now c r c') :
    OnlyAcks c.pr c'.pr := by
  cases h with
  | receive | unreceived | ended | old | noPkts | pkts | noSendback => exact OnlyAcks.refl _
  | syn | fin | inOrder | future => exact OnlyAcks.of_table rfl rfl rfl
  | sendback _ hq => exact (procDelack_effect hq).sendSame.onlyAcks

theorem TakeMove.onlyAcks {p : Process} {r : RunVars} {pc : TakeAt} {q : Process × RunAt}
    (h : TakeMove p r pc q) : OnlyAcks p q.1 := by
  cases h with
  | recNone | recGap | recNext => exact OnlyAcks.refl _
  | _ => exact OnlyAcks.of_table rfl rfl rfl

theorem DelackMove.onlyAcks {p : Process} {pc : DelackAt} {q : Process × Option DelackAt}
    (h : DelackMove p pc q) : OnlyAcks p q.1 := by
  cases h with
  | finish | waits | due | received | putSeq => exact OnlyAcks.refl _
  | @putAck _ _ _ _ seq =>
    refine ⟨rfl, rfl, rfl, rfl, _, rfl, fun tx htx => ?_⟩
    rw [List.mem_singleton.mp htx]
    exact ⟨(fun hsite => by cases hsite), seq, rfl⟩
  | updateAck => exact ⟨rfl, rfl, rfl, rfl, [], (List.append_nil _).symm, List.forall_mem_nil _⟩

/-- A step of reception, for the send side. -/
structure Host.SparesSend (c c' : Host) : Prop where
  acks : OnlyAcks c.pr c'.pr
  send_eq : c'.send = c.send
  accepted_eq : c'.accepted = c.accepted
  timer_eq : c'.timer = c.timer
  run : ∀ r pc, c'.run = some (.ack r pc) → c.run = some (.ack r pc)

theorem TurnMove.sparesSend {now : ℕ} {c c' : Host} {r : RunVars} (h : TurnMove now c r c') :
    c.SparesSend c' := by
  have hacks := h.onlyAcks
  cases h <;> exact ⟨hacks, rfl, rfl, rfl, fun _ _ hr => by cases hr⟩

theorem TakeMove.not_ack {p : Process} {r r' : RunVars} {pc : TakeAt} {q : Process × RunAt}
    (h : TakeMove p r pc q) (a : AckAt) : q.2 ≠ .ack r' a := by
  cases h <;> exact fun hr => by cases hr

/-- What a step is for the send side. -/
inductive Host.SendStep (c : Host) : Host → Prop
  | pushsndq {buf : List Byte} {len : ℤ} (hlen : s32 len ≤ buf.length) : SendStep c { c with
      pr := (Process.pushsndq c.pr buf len).2
      accepted := c.accepted ++ buf.take (Process.pushsndq c.pr buf len).1.toNat }
  | enterSend (h : c.send = none) : SendStep c { c with send := some (.getwnd none) }
  | send {now : ℕ} {pc : SendAt} {r : Process × Option SendAt} (hnow : Shows now) (hpc : c.send = some pc)
      (h : SendMove now c.pr pc r) :
      SendStep c { c with pr := r.1, send := r.2, run := afterSend c.run r.2 }
  | procAck {r : RunVars} {tp : TouPkg} (hpc : c.run = some (.turn r)) (hst : r.state = .ackWithoutData)
      (htp : r.tp = some tp) : SendStep c { c with
        pr := (ackFirst c.pr tp).1, run := some (goOnAck r (ackFirst c.pr tp).2) }
  | ack {now : ℕ} {r : RunVars} {pc : AckAt} {q : Process × Option AckAt} (hnow : Shows now)
      (hpc : c.run = some (.ack r pc)) (h : AckMove now c.pr pc q) :
      SendStep c { c with pr := q.1, run := some (goOnAck r q.2) }
  | callSend {r : RunVars} (hpc : c.run = some (.callSend r)) (h : c.send = none) :
      SendStep c { c with run := some (.inSend r), send := some (.getwnd none) }
  | clearAcked (h : c.timer = none) : SendStep c { c with
      pr := { c.pr with timerheap := Timer.clearAckedTop c.pr.table c.pr.timerheap }, timer := some .fire }
  | fire {now : ℕ} {f : TimerHeap × Option (SockPtr × Tx)} (hpc : c.timer = some .fire)
      (h : Timer.fireTop c.pr.table now c.pr.timerheap = .ok f) : SendStep c { c with
        pr := { c.pr with timerheap := f.1, sent := c.pr.sent ++ (f.2.map (·.2)).toList }
        timer := f.2.map fun _ => .settwnd }
  | settwnd (hpc : c.timer = some .settwnd) : SendStep c { c with
      pr := c.pr.setTable { c.pr.stb with tc := c.pr.stb.tc.settwnd.2 }, timer := none }
  | aside {c' : Host} (h : c.SparesSend c') : SendStep c c'

theorem Host.Step.sendStep {net : Host → Datagram → Prop} {room : Host → RunVars → Prop} {c c' : Host}
    (h : Host.Step net room c c') : c.SendStep c' := by
  cases h with
  | pushsndq hlen => exact .pushsndq hlen
  | enterSend hnone => exact .enterSend hnone
  | send hnow hpc _ hm => exact .send hnow hpc (sendMicro_ok hm)
  | procAck hpc hst htp => exact .procAck hpc hst htp
  | ack hnow hpc _ hm => exact .ack hnow hpc (ackMicro_ok hm)
  | callSend hpc hnone => exact .callSend hpc hnone
  | clearAcked hnone => exact .clearAcked hnone
  | fire _ hpc hf => exact .fire hpc hf
  | settwnd hpc => exact .settwnd hpc
  | turn _ hne _ _ ht => exact .aside (turnMicro_ok hne ht).sparesSend
  | take _ _ ht =>
    have hmove := takeMicro_ok ht
    exact .aside ⟨hmove.onlyAcks, rfl, rfl, rfl, fun _ a hr => absurd (Option.some.inj hr) (hmove.not_ack a)⟩
  | enterRun => exact .aside ⟨OnlyAcks.refl _, rfl, rfl, rfl, fun _ _ hr => by cases hr⟩
  | delack _ hm => exact .aside ⟨(delackMicro_ok hm).onlyAcks, rfl, rfl, rfl, fun _ _ hr => hr⟩
  | arrive | enterDelack | recvGetAt | recvCheck =>
    exact .aside ⟨OnlyAcks.refl _, rfl, rfl, rfl, fun _ _ hr => hr⟩
  | recvRemove => exact .aside ⟨OnlyAcks.of_table rfl rfl rfl, rfl, rfl, rfl, fun _ _ hr => hr⟩

/-! ## A packet that is being handled -/

theorem processGetPktState_mono {a b : SockTb} {tp : TouPkg} {st : ProcState}
    (hs : b.sockstate = a.sockstate) (hr : b.tc.rcvNxt = a.tc.rcvNxt) (hn : a.tc.sndNxt ≤ b.tc.sndNxt)
    (h : processGetPktState a tp = .ok st) : processGetPktState b tp = .ok st := by
  by_cases hlen : tp.buf.length = 0
  · unfold processGetPktState at h ⊢
    rw [hs]
    simp only [hlen, lt_irrefl, false_and, and_false, if_false, true_and] at h ⊢
    by_cases hsyn : tp.t.syn = true
    · rw [if_pos hsyn] at h ⊢
      exact h
    · by_cases hfin : tp.t.fin = true
      · rw [if_neg hsyn, if_pos hfin] at h ⊢
        exact h
      · rw [if_neg hsyn, if_neg hfin] at h ⊢
        split at h
        · rename_i hack
          rw [if_pos ⟨hack.1, hack.2.1, le_trans hack.2.2 hn⟩]
          exact h
        · cases h
  · have hsame : ∀ n, processGetPktState { b with tc := { b.tc with sndNxt := n } } tp =
        processGetPktState b tp := by
      intro n
      unfold processGetPktState
      simp only [hlen, false_and, and_false, if_false]
    rw [← hsame a.tc.sndNxt, ← h]
    exact processGetPktState_congr tp hs rfl hr

theorem Handling.spares {D : Datagram → Prop} {s s' : RunSt} {d : Datagram} (h : Handling D s d)
    (hst : s'.state = s.state) (htp : s'.tp = s.tp) (hsrc : s'.sockaddrs = s.sockaddrs)
    (hs : s'.pr.stb.sockstate = s.pr.stb.sockstate) (hr : s'.pr.stb.tc.rcvNxt = s.pr.stb.tc.rcvNxt)
    (hn : s.pr.stb.tc.sndNxt ≤ s'.pr.stb.tc.sndNxt) : Handling D s' d where
  given := h.given
  tp_eq := htp.trans h.tp_eq
  src_eq := hsrc.trans h.src_eq
  classified := by
    rw [hst]
    exact processGetPktState_mono hs hr hn h.classified

/-- The packet of a turn that is not over yet. -/
def TakeAt.Known (D : Datagram → Prop) (r : RunVars) : TakeAt → Prop
  | .setSocketState | .setTCBRcv => ∃ d, D d ∧ r.tp = some (recvPkg d) ∧ (recvPkg d).t.syn = true
  | .putcircbuf => ∃ d, D d ∧ r.tp = some (recvPkg d) ∧ IsData (recvPkg d)
  | _ => True

theorem TakeAt.Known.mono {D D' : Datagram → Prop} {r : RunVars} {pc : TakeAt} (h : pc.Known D r)
    (hD : ∀ d, D d → D' d) : pc.Known D' r := by
  cases pc with
  | setSocketState | setTCBRcv | putcircbuf =>
    obtain ⟨d, hd, hrest⟩ := h
    exact ⟨d, hD d hd, hrest⟩
  | _ => trivial

namespace Host
variable {D : Datagram → Prop} {c c' : Host}

/-- `run` handles a packet that was classified on the present table. -/
structure RunOk (D : Datagram → Prop) (c : Host) : Prop where
  queue : ∀ d ∈ c.queue, D d
  turn : ∀ r, c.run = some (.turn r) → FsmOk D (c.runSt r)
  take : ∀ r pc, c.run = some (.take r pc) → pc.Known D r

theorem RunOk.mono {D' : Datagram → Prop} (h : RunOk D c) (hD : ∀ d, D d → D' d) : RunOk D' c where
  queue d hd := hD d (h.queue d hd)
  turn r hr := ⟨fun d hd => hD d ((h.turn r hr).pending d hd), fun hh => by
    obtain ⟨d, hd⟩ := (h.turn r hr).handling hh
    exact ⟨d, hD d hd.given, hd.tp_eq, hd.src_eq, hd.classified⟩⟩
  take r pc hr := (h.take r pc hr).mono hD

/-- `run` is where it was, or it is about to return, and of what it looks at `snd_nxt` has advanced. -/
theorem RunOk.same (h : RunOk D c) (hq : ∀ d ∈ c'.queue, D d)
    (hturn : ∀ r, c'.run = some (.turn r) → c.run = some (.turn r) ∨ ¬ Handles r.state)
    (htake : ∀ r pc, c'.run = some (.take r pc) → c.run = some (.take r pc))
    (hs : c'.pr.stb.sockstate = c.pr.stb.sockstate) (hr : c'.pr.stb.tc.rcvNxt = c.pr.stb.tc.rcvNxt)
    (hn : c.pr.stb.tc.sndNxt ≤ c'.pr.stb.tc.sndNxt) : RunOk D c' := by
  refine ⟨hq, fun r hr' => ⟨hq, fun hh => ?_⟩, fun r pc hr' => h.take r pc (htake r pc hr')⟩
  rcases hturn r hr' with hold | hno
  · obtain ⟨d, hd⟩ := (h.turn r hold).handling hh
    exact ⟨d, hd.spares rfl rfl rfl hs hr hn⟩
  · exact absurd hh hno

/-- `run` goes on with the packets that are left. -/
theorem RunOk.goTo {pr : Process} {queue : List Datagram} {run : Option RunAt} (hq : ∀ d ∈ queue, D d)
    (hturn : ∀ r, run = some (.turn r) → ¬ Handles r.state)
    (htake : ∀ r pc, run = some (.take r pc) → pc.Known D r) :
    RunOk D { c with pr := pr, queue := queue, run := run } :=
  ⟨hq, fun r hr => ⟨hq, fun hh => absurd hh (hturn r hr)⟩, htake⟩

theorem RunOk.turned (h : RunOk D c) {now : ℕ} {r : RunVars} (hpc : c.run = some (.turn r))
    (ht : TurnMove now c r c') : RunOk D c' := by
  have hok := h.turn r hpc
  have hgo : ∀ {pr : Process} {st : ProcState}, ¬ Handles st →
      RunOk D { c with pr := pr, run := some (.turn { r with state := st }) } := by
    intro pr st hst
    refine RunOk.goTo h.queue (fun r' hr => ?_) fun _ _ hr => by cases hr
    cases hr
    exact hst
  cases ht with
  | @receive d rest st hs hp hc =>
    have htook := hok.took (show (c.runSt r).pending = d :: rest from hp) hc
    refine ⟨htook.pending, fun r' hr => ?_, fun _ _ hr => by cases hr⟩
    cases hr
    exact htook
  | unreceived _ hrest =>
    exact RunOk.goTo (fun d hd => h.queue d (hrest d hd)) (fun _ hr => by cases hr) fun _ _ hr => by cases hr
  | ended => exact RunOk.goTo h.queue (fun _ hr => by cases hr) fun _ _ hr => by cases hr
  | fin | sendback => exact hgo id
  | old _ hst | noSendback _ hst => exact hgo (not_handles_after hst)
  | syn hs =>
    obtain ⟨d, hd⟩ := hok.handling (by show Handles r.state; rw [hs]; trivial)
    have hc := classified_of_ok hd.classified
    rw [show (c.runSt r).state = .procSyn from hs] at hc
    refine RunOk.goTo h.queue (fun _ hr => by cases hr) fun r' pc hr => ?_
    cases hr
    cases hc with
    | syn hsyn => exact ⟨d, hd.given, hd.tp_eq, hsyn⟩
  | inOrder hs =>
    obtain ⟨d, hd⟩ := hok.handling (by show Handles r.state; rw [hs]; trivial)
    have hc := classified_of_ok hd.classified
    rw [show (c.runSt r).state = .ackWithDataMatchExpectedSeq from hs] at hc
    refine RunOk.goTo h.queue (fun _ hr => by cases hr) fun r' pc hr => ?_
    cases hr
    cases hc with
    | inOrder _ hdata => exact ⟨d, hd.given, hd.tp_eq, hdata⟩
  | future | noPkts | pkts =>
    refine RunOk.goTo h.queue (fun _ hr => by cases hr) fun r' pc hr => ?_
    cases hr
    trivial

theorem RunOk.took (h : RunOk D c) {r : RunVars} {pc : TakeAt} {q : Process × RunAt}
    (hpc : c.run = some (.take r pc)) (ht : TakeMove c.pr r pc q) :
    RunOk D { c with pr := q.1, run := some q.2 } := by
  have hknown := h.take r pc hpc
  refine RunOk.goTo h.queue (fun r' hr => ?_) fun r' pc' hr => ?_
  · cases ht <;> cases hr <;> exact id
  · cases ht with
    | setSocketState =>
      cases hr
      exact hknown
    | setTCBRcv | putcircbuf | setAckState | recovered | unrecovered => cases hr
    | _ =>
      cases hr
      trivial

theorem RunOk.step {net : Host → Datagram → Prop} {room : Host → RunVars → Prop} (h : RunOk D c)
    (hnet : ∀ d, net c d → D d) (hn : c.pr.stb.tc.sndNxt ≤ c'.pr.stb.tc.sndNxt)
    (hst : c.RecvStep net room c') : RunOk D c' := by
  cases hst with
  | @arrive d hd =>
    refine h.same (fun d' hd' => ?_) (fun _ hr => Or.inl hr) (fun _ _ hr => hr) rfl rfl hn
    rcases List.mem_append.mp hd' with hd' | hd'
    · exact h.queue d' hd'
    · exact (List.mem_singleton.mp hd').symm ▸ hnet d hd
  | enterRun =>
    refine RunOk.goTo h.queue (fun r hr => ?_) fun _ _ hr => by cases hr
    cases hr
    exact not_handles_start c.pr c.queue
  | turn hpc _ _ ht => exact h.turned hpc ht
  | take hpc _ ht => exact h.took hpc ht
  | enterDelack | recvGetAt | recvRemove | recvCheck =>
    exact h.same h.queue (fun _ hr => Or.inl hr) (fun _ _ hr => hr) rfl rfl hn
  | delack hpc hm =>
    cases hm <;> exact h.same h.queue (fun _ hr => Or.inl hr) (fun _ _ hr => hr) rfl rfl hn
  | beside hb =>
    refine h.same (fun d hd => h.queue d (hb.queue_eq ▸ hd)) (fun r hr => ?_)
      (fun _ _ hr => (hb.run.pc hr).resolve_right id) hb.spares.sockstate_eq hb.spares.recv.rcvNxt_eq hn
    refine (hb.run.pc hr).imp_right fun (hend : r.state = .procEnd) => ?_
    rw [hend]
    exact id

end Host
end Process
end TcpOverUdp
