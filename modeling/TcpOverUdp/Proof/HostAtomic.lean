import TcpOverUdp.Proof.HostSteps
import TcpOverUdp.Proof.EndToEnd

/-! # Calls that nothing comes in between

A call that no other thread interferes with is one way for the threads to take their steps: `send`, `run`,
`touRecv` and the passes of the timer, as they were modelled in one piece, are runs of `Host.Step`. So the runs
of whole calls are among the interleavings (`calls_interleave`).
-/
namespace TcpOverUdp
open MachineInt
set_option autoImplicit false

namespace Process
namespace Host

/-- A step of a thread that is neither in `touSend`, in front of `send`, nor in `touRecv`. -/
structure ThreadStep (net : Host → Datagram → Prop) (room : Host → RunVars → Prop) (c c' : Host) : Prop where
  step : Step net room c c'
  accepted_eq : c'.accepted = c.accepted
  recv_eq : c'.recv = c.recv
  returned_eq : c'.returned = c.returned

theorem ThreadStep.steps {net : Host → Datagram → Prop} {room : Host → RunVars → Prop} {c c' : Host}
    (h : Relation.ReflTransGen (ThreadStep net room) c c') : Relation.ReflTransGen (Step net room) c c' :=
  Relation.ReflTransGen.mono (fun _ _ (hst : ThreadStep net room _ _) => hst.step) c c' h

variable {net : Host → Datagram → Prop} {room : Host → RunVars → Prop} {now : ℕ} {c : Host}

/-! ## `send` -/

/-- `c` with the process `p` and the thread in `send` at `pc`. -/
def inSend (c : Host) (p : Process) (pc : SendAt) : Host := { c with pr := p, send := some pc }

/-- Nobody holds the mutexes that a thread in `send` takes. -/
structure Free (c : Host) : Prop where
  timer : c.timer = none
  stb : c.StbFree

theorem Free.send (h : Free c) (p : Process) (pc : SendAt) : (c.inSend p pc).SendFree pc := by
  cases pc with
  | genPkt => exact h.stb
  | push => exact h.timer
  | _ => trivial

theorem inSend_step (hf : Free c) (hnow : Shows now) {p q : Process} {pc pc' : SendAt}
    (h : sendMicro now p pc = .ok (q, some pc')) :
    ThreadStep net room (c.inSend p pc) (c.inSend q pc') :=
  ⟨Step.send (r := (q, some pc')) hnow rfl (hf.send p pc) h, rfl, rfl, rfl⟩

theorem inSend_return (hf : Free c) (hnow : Shows now) {p q : Process} {pc : SendAt}
    (h : sendMicro now p pc = .ok (q, none)) :
    ThreadStep net room (c.inSend p pc) { c with pr := q, send := none, run := afterSend c.run none } :=
  ⟨Step.send (r := (q, none)) hnow rfl (hf.send p pc) h, rfl, rfl, rfl⟩

/-- `getSendSize`. -/
theorem getSendSize_steps (hf : Free c) (hnow : Shows now) (p : Process) (v : Option SendVars) :
    Relation.ReflTransGen (ThreadStep net room) (c.inSend p (.getwnd v))
      (c.inSend p (.sized v (s32 (getSendSize p.stb)))) := by
  have h1 : ThreadStep net room (c.inSend p (.getwnd v)) (c.inSend p (.compare v p.stb.tc.getwnd)) :=
    inSend_step hf hnow rfl
  refine (Relation.ReflTransGen.single h1).trans ?_
  by_cases hge : u32 ((p.stb.tc.sndUna : ℤ) + p.stb.tc.getwnd) ≥ p.stb.tc.sndNxt
  · have h2 : ThreadStep net room (c.inSend p (.compare v p.stb.tc.getwnd))
        (c.inSend p (.subtract v p.stb.tc.getwnd)) := inSend_step hf hnow (if_pos hge)
    unfold getSendSize
    simp only [if_pos hge]
    exact (Relation.ReflTransGen.single h2).tail (inSend_step hf hnow rfl)
  · have h2 : ThreadStep net room (c.inSend p (.compare v p.stb.tc.getwnd)) (c.inSend p (.sized v 0)) :=
      inSend_step hf hnow (if_neg hge)
    unfold getSendSize
    simp only [if_neg hge]
    exact Relation.ReflTransGen.single h2

/-- `popsndq`. -/
theorem popsndq_steps (hf : Free c) (hnow : Shows now) (p : Process) (v : SendVars) (len : ℤ) :
    Relation.ReflTransGen (ThreadStep net room) (c.inSend p (.getAt v len))
      (c.inSend (p.setTable (popsndq p.stb len).2.2)
        (.genPkt v (popsndq p.stb len).1 (popsndq p.stb len).2.1)) := by
  unfold popsndq
  by_cases hpos : 0 < (p.stb.cbSend.getAt len).1
  · simp only [if_pos hpos]
    have h1 : ThreadStep net room (c.inSend p (.getAt v len)) (c.inSend p (.remove v (p.stb.cbSend.getAt len).1
        ((p.stb.cbSend.getAt len).2 ++
          List.replicate (touMss - (p.stb.cbSend.getAt len).2.length) 0))) :=
      inSend_step hf hnow (if_pos hpos)
    exact (Relation.ReflTransGen.single h1).tail (inSend_step hf hnow rfl)
  · simp only [if_neg hpos]
    exact Relation.ReflTransGen.single (inSend_step hf hnow (if_neg hpos))

theorem popsndq_dst (stb : SockTb) (len : ℤ) : (popsndq stb len).2.2.dst = stb.dst := by
  unfold popsndq
  by_cases hpos : 0 < (stb.cbSend.getAt len).1
  · simp only [if_pos hpos]
  · simp only [if_neg hpos]

/-- The rest of a turn of the loop. -/
theorem segment_steps (hf : Free c) (hnow : Shows now) {p q : Process} {v : SendVars} {sndsize : ℤ}
    (hv : v.sockaddrs = p.stb.dst) (h : sendSegment now p sndsize = .ok q) :
    Relation.ReflTransGen (ThreadStep net room)
      (c.inSend p (.getAt v (if sndsize ≥ touSmss then touSmss else sndsize))) (c.inSend q (.test v)) := by
  unfold sendSegment at h
  simp only at h
  have hpop : Relation.ReflTransGen (ThreadStep net room) _ _ :=
    popsndq_steps hf hnow p v (if sndsize ≥ touSmss then (touSmss : ℤ) else sndsize)
  have hdst := popsndq_dst p.stb (if sndsize ≥ touSmss then (touSmss : ℤ) else sndsize)
  generalize popsndq p.stb (if sndsize ≥ touSmss then (touSmss : ℤ) else sndsize) = popped at h hpop hdst
  obtain ⟨pkt, hpkt, h⟩ := of_bind_ok h
  cases h
  have h1 : ThreadStep net room (c.inSend (p.setTable popped.2.2) (.genPkt v popped.1 popped.2.1))
      (c.inSend (p.setTable popped.2.2) (.advance v popped.1 pkt)) := by
    refine inSend_step hf hnow ?_
    show (Process.genPkt popped.2.2 popped.2.1 popped.1 >>= _) = _
    rw [hpkt]
    rfl
  rw [← hv] at hdst
  refine (((((hpop.tail h1).tail (inSend_step hf hnow rfl)).tail (inSend_step hf hnow rfl)).tail
    (inSend_step hf hnow rfl)).tail (inSend_step hf hnow ?_))
  show Except.ok (_, some (SendAt.test v)) = Except.ok (_, some (SendAt.test v))
  rw [← hdst]
  rfl

theorem sendSegment_dst {p q : Process} {sndsize : ℤ} (h : sendSegment now p sndsize = .ok q) :
    q.stb.dst = p.stb.dst := by
  unfold sendSegment at h
  simp only at h
  have hdst := popsndq_dst p.stb (if sndsize ≥ touSmss then (touSmss : ℤ) else sndsize)
  generalize popsndq p.stb (if sndsize ≥ touSmss then (touSmss : ℤ) else sndsize) = popped at h hdst
  obtain ⟨pkt, _, h⟩ := of_bind_ok h
  cases h
  exact hdst

/-- A turn of the loop that goes on. -/
theorem sendStep_next_steps (hf : Free c) (hnow : Shows now) {s s' : SendSt} {v : SendVars}
    (hv : v.sockaddrs = s.pr.stb.dst) (hcnt : v.xmitCnt = s.xmitCnt) (h : sendStep now s = .ok (.next s')) :
    ∃ v' : SendVars, v'.sockaddrs = s'.pr.stb.dst ∧ v'.xmitCnt = s'.xmitCnt ∧
      Relation.ReflTransGen (ThreadStep net room) (c.inSend s.pr (.test v)) (c.inSend s'.pr (.test v')) := by
  unfold sendStep at h
  by_cases hdata : 0 < s.pr.stb.cbSend.getTotalElements
  swap
  · rw [if_neg hdata] at h
    cases h
  rw [if_pos hdata] at h
  simp only at h
  have htest : ThreadStep net room (c.inSend s.pr (.test v)) (c.inSend s.pr (.getwnd (some v))) :=
    inSend_step hf hnow (by simp only [sendMicro, if_pos hdata])
  have hsize : Relation.ReflTransGen (ThreadStep net room) (c.inSend s.pr (.test v)) _ :=
    (Relation.ReflTransGen.single htest).trans (getSendSize_steps hf hnow s.pr (some v))
  by_cases hca : s.pr.stb.tc.ccState = .ca
  · rw [if_pos hca] at h
    by_cases hcount : s.xmitCnt ≤ 0
    · rw [if_pos hcount] at h
      cases h
    rw [if_neg hcount] at h
    obtain ⟨q, hq, h⟩ := of_bind_ok h
    cases h
    have htake : ThreadStep net room (c.inSend s.pr (.sized (some v) (s32 (getSendSize s.pr.stb))))
        (c.inSend s.pr (.getAt { v with xmitCnt := v.xmitCnt - 1 }
          (if s32 (getSendSize s.pr.stb) ≥ touSmss then touSmss else s32 (getSendSize s.pr.stb)))) := by
      refine inSend_step hf hnow ?_
      simp only [sendMicro, if_pos hca, hcnt, if_neg hcount]
    refine ⟨{ v with xmitCnt := v.xmitCnt - 1 }, hv.trans (sendSegment_dst hq).symm, by rw [← hcnt], ?_⟩
    exact (hsize.tail htake).trans (segment_steps hf hnow hv hq)
  · rw [if_neg hca] at h
    by_cases hmin : minSendSize > s32 (getSendSize s.pr.stb)
    · rw [if_pos hmin] at h
      cases h
    rw [if_neg hmin] at h
    obtain ⟨q, hq, h⟩ := of_bind_ok h
    cases h
    have htake : ThreadStep net room (c.inSend s.pr (.sized (some v) (s32 (getSendSize s.pr.stb))))
        (c.inSend s.pr (.getAt v
          (if s32 (getSendSize s.pr.stb) ≥ touSmss then touSmss else s32 (getSendSize s.pr.stb)))) := by
      refine inSend_step hf hnow ?_
      simp only [sendMicro, if_neg hca, if_neg hmin]
    refine ⟨v, hv.trans (sendSegment_dst hq).symm, hcnt, ?_⟩
    exact (hsize.tail htake).trans (segment_steps hf hnow hv hq)

/-- The turn that leaves the loop. -/
theorem sendStep_done_steps (hf : Free c) (hnow : Shows now) {s : SendSt} {q : Process} {v : SendVars}
    (hcnt : v.xmitCnt = s.xmitCnt) (h : sendStep now s = .ok (.done q)) :
    Relation.ReflTransGen (ThreadStep net room) (c.inSend s.pr (.test v))
      { c with pr := q, send := none, run := afterSend c.run none } := by
  unfold sendStep at h
  by_cases hdata : 0 < s.pr.stb.cbSend.getTotalElements
  swap
  · rw [if_neg hdata] at h
    cases h
    exact Relation.ReflTransGen.single (inSend_return hf hnow (by simp only [sendMicro, if_neg hdata]))
  rw [if_pos hdata] at h
  simp only at h
  have htest : ThreadStep net room (c.inSend s.pr (.test v)) (c.inSend s.pr (.getwnd (some v))) :=
    inSend_step hf hnow (by simp only [sendMicro, if_pos hdata])
  have hsize : Relation.ReflTransGen (ThreadStep net room) (c.inSend s.pr (.test v)) _ :=
    (Relation.ReflTransGen.single htest).trans (getSendSize_steps hf hnow s.pr (some v))
  by_cases hca : s.pr.stb.tc.ccState = .ca
  · rw [if_pos hca] at h
    by_cases hcount : s.xmitCnt ≤ 0
    · rw [if_pos hcount] at h
      cases h
      refine hsize.tail (inSend_return hf hnow ?_)
      simp only [sendMicro, if_pos hca, hcnt, if_pos hcount]
    · rw [if_neg hcount] at h
      obtain ⟨q, hq, h⟩ := of_bind_ok h
      cases h
  · rw [if_neg hca] at h
    by_cases hmin : minSendSize > s32 (getSendSize s.pr.stb)
    · rw [if_pos hmin] at h
      cases h
      refine hsize.tail (inSend_return hf hnow ?_)
      simp only [sendMicro, if_neg hca, if_pos hmin]
    · rw [if_neg hmin] at h
      obtain ⟨q, hq, h⟩ := of_bind_ok h
      cases h

theorem send_steps (hf : Free c) (hnow : Shows now) {p q : Process} (h : Process.send now p = .ok q) :
    Relation.ReflTransGen (ThreadStep net room) (c.inSend p (.getwnd none))
      { c with pr := q, send := none, run := afterSend c.run none } := by
  unfold Process.send at h
  simp only at h
  have hbegin : ∀ sndsize, ThreadStep net room (c.inSend p (.sized none sndsize))
      (c.inSend p (.test ⟨p.stb.dst, calNumCaxmit sndsize⟩)) := fun _ => inSend_step hf hnow rfl
  obtain ⟨s, _, ⟨v, _, hcnt, hsteps⟩, hdone⟩ := fuelLoop_inv
    (fun s => ∃ v : SendVars, v.sockaddrs = s.pr.stb.dst ∧ v.xmitCnt = s.xmitCnt ∧
      Relation.ReflTransGen (ThreadStep net room) (c.inSend p (.getwnd none)) (c.inSend s.pr (.test v)))
    ⟨⟨p.stb.dst, calNumCaxmit (s32 (getSendSize p.stb))⟩, rfl, rfl,
      (getSendSize_steps hf hnow p none).tail (hbegin _)⟩ (by
      rintro a b _ ⟨v, hv, hcnt, hsteps⟩ hab
      obtain ⟨v', hv', hcnt', hmore⟩ := sendStep_next_steps hf hnow hv hcnt hab
      exact ⟨v', hv', hcnt', hsteps.trans hmore⟩) h
  exact hsteps.trans (sendStep_done_steps hf hnow hcnt hdone)

/-! ## `run` -/

/-- `c` with the automaton in the state `s`. -/
def running (c : Host) (s : RunSt) : Host :=
  { c with pr := s.pr, queue := s.pending, run := some (.turn (runVars s)) }

/-- `c` with the process `p` and `run` at `pc`. -/
def atRun (c : Host) (p : Process) (pc : RunAt) : Host := { c with pr := p, run := some pc }

theorem ack_step (ht : c.timer = none) (hnow : Shows now) {p q : Process} {r : RunVars} {pc : AckAt}
    {o : Option AckAt} (h : ackMicro now p pc = .ok (q, o)) :
    ThreadStep net room (c.atRun p (.ack r pc)) (c.atRun q (goOnAck r o)) := by
  have hfree : (c.atRun p (.ack r pc)).AckFree pc := by
    cases pc with
    | deleteTimer | rexmit => exact ht
    | _ => trivial
  exact ⟨Step.ack (r := r) (q := (q, o)) hnow rfl hfree h, rfl, rfl, rfl⟩

theorem ack_next (ht : c.timer = none) (hnow : Shows now) {p q : Process} {r : RunVars} {pc pc' : AckAt}
    (h : ackMicro now p pc = .ok (q, some pc')) :
    ThreadStep net room (c.atRun p (.ack r pc)) (c.atRun q (.ack r pc')) := ack_step ht hnow h

theorem ack_last (ht : c.timer = none) (hnow : Shows now) {p q : Process} {r : RunVars} {pc : AckAt}
    (h : ackMicro now p pc = .ok (q, none)) :
    ThreadStep net room (c.atRun p (.ack r pc)) (c.atRun q (.callSend r)) := ack_step ht hnow h

/-- `proc_ack` and what `run` does with its answer. -/
theorem handleAck_steps (ht : c.timer = none) (hnow : Shows now) {p q : Process} {r : RunVars} {tp : TouPkg}
    (h : handleAck now p tp = .ok q) :
    Relation.ReflTransGen (ThreadStep net room) (c.atRun (ackFirst p tp).1 (goOnAck r (ackFirst p tp).2))
      (c.atRun q (.callSend r)) := by
  unfold handleAck procAck at h
  unfold ackFirst procAck
  by_cases hgt : tp.t.ackSeq > p.stb.tc.sndUna
  · simp only [if_pos hgt] at h ⊢
    obtain ⟨cleared, hclear, h⟩ := of_bind_ok h
    have hdelete : ∀ {p₁ : Process}, p₁ = p.setTable { p.stb with
        tc := { p.stb.tc.addwnd.2 with sndUna := tp.t.ackSeq } } →
        ackMicro now p₁ (.deleteTimer tp.t.ackSeq) = .ok (q, none) := by
      rintro p₁ rfl
      unfold ackMicro
      have hclear' : Timer.deleteTimer p.stb.sockd timerIdSndpkt tp.t.ackSeq p.timerheap = .ok cleared :=
        hclear
      show (Timer.deleteTimer p.stb.sockd timerIdSndpkt tp.t.ackSeq p.timerheap >>= _) = _
      rw [hclear', ok_bind]
      cases h
      rfl
    exact (Relation.ReflTransGen.single (ack_next ht hnow rfl)).tail (ack_last ht hnow (hdelete rfl))
  · by_cases heq : tp.t.ackSeq = p.stb.tc.sndUna
    · simp only [if_neg hgt, if_pos heq] at h ⊢
      have hset : ThreadStep net room (c.atRun p (.ack r (.setdwnd tp.t.ackSeq)))
          (c.atRun (p.setTable { p.stb with tc := (p.stb.tc.setdwnd tp.t.ackSeq).2 })
            (.ack r (.ckNumDupack tp.t.ackSeq))) := ack_next ht hnow rfl
      have hstart := Relation.ReflTransGen.single hset
      generalize p.stb.tc.setdwnd tp.t.ackSeq = tc at h hstart
      by_cases hdup : ({ p.stb with tc := tc.2 } : SockTb).ckNumDupack = true
      · rw [if_pos hdup] at h
        obtain ⟨rex, hrex, h⟩ := of_bind_ok h
        have hthird : ThreadStep net room (c.atRun (p.setTable { p.stb with tc := tc.2 })
            (.ack r (.ckNumDupack tp.t.ackSeq))) (c.atRun (p.setTable { p.stb with tc := tc.2 })
            (.ack r (.rexmit tp.t.ackSeq))) := ack_next ht hnow (if_pos hdup)
        refine (hstart.tail hthird).tail (ack_last ht hnow ?_)
        show (Timer.rexmitForDupAck (fun _ => _) _ timerIdSndpkt tp.t.ackSeq now p.timerheap >>= _) = _
        refine (congrArg (· >>= _) hrex).trans ?_
        cases h
        rfl
      · rw [if_neg hdup] at h
        cases h
        exact hstart.tail (ack_last ht hnow (if_neg hdup))
    · simp only [if_neg hgt, if_neg heq] at h ⊢
      cases h
      exact Relation.ReflTransGen.refl

/-! ## A turn in several steps -/

theorem delack_free (hd : c.delack = none) : c.TcAckFree := by
  intro pc h
  rw [hd] at h
  cases h

theorem turn_step (hd : c.delack = none) {p : Process} {r : RunVars} {c' : Host}
    (hne : r.state ≠ .ackWithoutData) (hr : room (c.atRun p (.turn r)) r)
    (h : turnMicro now (c.atRun p (.turn r)) r = .ok c') : ThreadStep net room (c.atRun p (.turn r)) c' := by
  obtain ⟨hacc, hrecv, hret⟩ := (turnMicro_ok hne h).calls_eq
  exact ⟨Step.turn rfl hne (fun _ => hd) hr h, hacc, hrecv, hret⟩

theorem take_step (hd : c.delack = none) {p q : Process} {r : RunVars} {pc : TakeAt} {pc' : RunAt}
    (h : takeMicro p r pc = .ok (q, pc')) : ThreadStep net room (c.atRun p (.take r pc)) (c.atRun q pc') := by
  have hfree : (c.atRun p (.take r pc)).TakeFree pc := by
    cases pc with
    | setAckState | recAckState => exact delack_free hd
    | _ => trivial
  exact ⟨Step.take (r := r) (q := (q, pc')) rfl hfree h, rfl, rfl, rfl⟩

theorem readTp_of_some {r : RunVars} {tp : TouPkg} (h : r.tp = some tp) : r.readTp = .ok tp := by
  unfold RunVars.readTp
  rw [h]

theorem recNext_step (hd : c.delack = none) (p : Process) (r : RunVars) {stb : SockTb} {top : TouPkg} {n : ℤ}
    {cb : SockBuf} (h : Offered stb top n cb) :
    ThreadStep net room (c.atRun (p.setTable stb) (.take r .recLoop))
      (c.atRun (p.setTable stb) (.take r (.recPut top))) := by
  refine take_step hd ?_
  simp only [takeMicro]
  rw [show (p.setTable stb).stb.minhpRecv.top? = some top from h.top_eq]
  simp only
  rw [if_pos (by exact h.seq_eq.ge), if_pos (by exact h.seq_eq)]

/-- `do_proc_pkt_rec`. -/
theorem recovery_steps (hd : c.delack = none) (p : Process) (r : RunVars) {stb : SockTb}
    {o : Except Halt (ℤ × SockTb)} (h : Recovery stb o) : ∀ res, o = .ok res →
      Relation.ReflTransGen (ThreadStep net room) (c.atRun (p.setTable stb) (.take r .recLoop))
        (c.atRun (p.setTable res.2) (.take r (.recAckState res.1))) := by
  induction h with
  | @empty stb ht =>
    rintro _ ⟨⟩
    refine Relation.ReflTransGen.single (take_step hd ?_)
    simp only [takeMicro]
    rw [show (p.setTable stb).stb.minhpRecv.top? = none from ht]
  | @gap stb top ht hlt =>
    rintro _ ⟨⟩
    refine Relation.ReflTransGen.single (take_step hd ?_)
    simp only [takeMicro]
    rw [show (p.setTable stb).stb.minhpRecv.top? = some top from ht]
    simp only
    rw [if_pos (by exact hlt.le), if_neg (by exact hlt.ne')]
  | @refused stb top n cb hoff hn =>
    rintro _ ⟨⟩
    refine (Relation.ReflTransGen.single (recNext_step hd p r hoff)).tail (take_step hd ?_)
    simp only [takeMicro]
    rw [show Process.putcircbuf (p.setTable stb).stb top.buf top.buf.length = _ from hoff.put_eq]
    simp only
    rw [if_neg hn]
    rfl
  | failed =>
    rintro _ ⟨⟩
  | @moved stb top n cb o hoff hn _ ih =>
    intro res hres
    have hput : ThreadStep net room (c.atRun (p.setTable stb) (.take r (.recPut top)))
        (c.atRun (p.setTable { stb with cbRecv := cb }) (.take r (.recTCBRcv top))) := by
      refine take_step hd ?_
      simp only [takeMicro]
      rw [show Process.putcircbuf (p.setTable stb).stb top.buf top.buf.length = _ from hoff.put_eq]
      simp only
      rw [if_pos hn]
      rfl
    have hmove : Relation.ReflTransGen (ThreadStep net room) (c.atRun (p.setTable stb) (.take r .recLoop))
        (c.atRun (p.setTable (movedTable stb top cb)) (.take r .recLoop)) :=
      ((((Relation.ReflTransGen.single (recNext_step hd p r hoff)).tail hput).tail
        (take_step hd rfl)).tail (take_step hd rfl))
    exact hmove.trans (ih res hres)

/-- The turn of an ACK. -/
theorem ack_turn_steps (ht : c.timer = none) (hs : c.send = none) (hnow : Shows now) {p q : Process}
    {r : RunVars} {tp : TouPkg} (hst : r.state = .ackWithoutData) (htp : r.tp = some tp)
    (h : (handleAck now p tp >>= Process.send now) = .ok q) :
    Relation.ReflTransGen (ThreadStep net room) (c.atRun p (.turn r))
      (c.atRun q (.turn { r with state := .procEnd })) := by
  obtain ⟨p₁, hack, hsend⟩ := of_bind_ok h
  have hproc : ThreadStep net room (c.atRun p (.turn r)) (c.atRun (ackFirst p tp).1 (goOnAck r (ackFirst p tp).2)) :=
    ⟨Step.procAck rfl hst htp, rfl, rfl, rfl⟩
  have hcall : ThreadStep net room (c.atRun p₁ (.callSend r))
      (({ c with run := some (.inSend r) } : Host).inSend p₁ (.getwnd none)) := ⟨Step.callSend rfl hs, rfl, rfl, rfl⟩
  have hfree : Free { c with run := some (.inSend r) } := ⟨ht, fun _ _ h => by cases h⟩
  refine (((Relation.ReflTransGen.single hproc).trans (handleAck_steps ht hnow hack)).tail hcall).trans ?_
  have hsame : c.atRun q (.turn { r with state := .procEnd }) =
      { c with pr := q, send := none, run := some (.turn { r with state := .procEnd }) } := by
    unfold atRun
    rw [hs]
  refine hsame ▸ ?_
  exact send_steps hfree hnow hsend

/-- A turn that recovers packets. -/
theorem recovery_turn_steps (hd : c.delack = none) {p : Process} {r : RunVars} (hst : r.state = .pktRecovery)
    (hr : room (c.atRun p (.turn r)) r) {res : ℤ × SockTb} (h : procPktRec p.stb = .ok res) :
    Relation.ReflTransGen (ThreadStep net room) (c.atRun p (.turn r))
      (c.atRun (p.setTable res.2) (.take r (.recEnd res.1))) := by
  have hne : r.state ≠ .ackWithoutData := by
    rw [hst]
    decide
  unfold procPktRec at h
  by_cases hempty : p.stb.minhpRecv.isEmpty = true
  · rw [if_pos hempty] at h
    cases h
    refine Relation.ReflTransGen.single (@turn_step net room 0 c hd _ _ _ hne hr ?_)
    unfold turnMicro
    rw [hst]
    exact congrArg (fun pc => Except.ok (c.atRun p (.take r pc))) (if_pos hempty)
  · rw [if_neg hempty] at h
    obtain ⟨x, hx, h⟩ := of_bind_ok h
    cases h
    have hfirst : ThreadStep net room (c.atRun p (.turn r)) (c.atRun p (.take r .recLoop)) := by
      refine @turn_step net room 0 c hd _ _ _ hne hr ?_
      unfold turnMicro
      rw [hst]
      exact congrArg (fun pc => Except.ok (c.atRun p (.take r pc))) (if_neg hempty)
    have hloop := @recovery_steps net room c hd p r _ _ (doProcPktRecLoop_recovery _ p.stb (le_refl _)) x hx
    exact ((Relation.ReflTransGen.single hfirst).trans hloop).tail (take_step hd rfl)

section Turn
variable {p : Process} {r : RunVars} {tp : TouPkg}

theorem first_step (hd : c.delack = none) (hr : room (c.atRun p (.turn r)) r) {q : Process} {pc : RunAt}
    (hne : r.state ≠ .ackWithoutData)
    (h : turnMicro now (c.atRun p (.turn r)) r = .ok (c.atRun q pc)) :
    Relation.ReflTransGen (ThreadStep net room) (c.atRun p (.turn r)) (c.atRun q pc) :=
  Relation.ReflTransGen.single (turn_step hd hne hr h)

theorem syn_turn_steps (hd : c.delack = none) (hr : room (c.atRun p (.turn r)) r) (hst : r.state = .procSyn)
    (htp : r.tp = some tp) : Relation.ReflTransGen (ThreadStep net room) (c.atRun p (.turn r))
      (c.atRun (p.setTable (((p.stb.setDst r.sockaddrs).setSocketState .synReceived).setTCBRcv
        (u32 ((tp.t.seq : ℤ) + 1)))) (.turn { r with state := .procEnd })) := by
  have hfirst : turnMicro 0 (c.atRun p (.turn r)) r =
      .ok (c.atRun (p.setTable (p.stb.setDst r.sockaddrs)) (.take r .setSocketState)) := by
    unfold turnMicro
    rw [hst]
    rfl
  refine ((first_step hd hr (by rw [hst]; decide) hfirst).tail (take_step hd rfl)).tail (take_step hd ?_)
  simp only [takeMicro, readTp_of_some htp]
  rfl

theorem inOrder_turn_steps (hd : c.delack = none) (hr : room (c.atRun p (.turn r)) r)
    (hst : r.state = .ackWithDataMatchExpectedSeq) (htp : r.tp = some tp) :
    Relation.ReflTransGen (ThreadStep net room) (c.atRun p (.turn r))
      (c.atRun (p.setTable (Process.putcircbuf (p.stb.setTCBRcv (u32 ((tp.t.seq : ℤ) + tp.buf.length))) tp.buf
        tp.buf.length).2) (.turn { r with state := .pktRecovery })) := by
  have hfirst : turnMicro 0 (c.atRun p (.turn r)) r =
      .ok (c.atRun (p.setTable (p.stb.setTCBRcv (u32 ((tp.t.seq : ℤ) + tp.buf.length)))) (.take r .putcircbuf)) := by
    unfold turnMicro
    rw [hst]
    simp only [readTp_of_some htp]
    rfl
  refine (first_step hd hr (by rw [hst]; decide) hfirst).tail (take_step hd ?_)
  simp only [takeMicro, readTp_of_some htp]
  rfl

theorem future_turn_steps (hd : c.delack = none) (hr : room (c.atRun p (.turn r)) r)
    (hst : r.state = .ackWithDataMoreExpectedSeq) (htp : r.tp = some tp) :
    Relation.ReflTransGen (ThreadStep net room) (c.atRun p (.turn r))
      (c.atRun (p.setTable ((p.stb.pushHpRecvBuf tp).setAckState .immedUpdateXmit))
        (.turn { r with state := .ackDatarecsuccSendbackAck })) := by
  have hfirst : turnMicro 0 (c.atRun p (.turn r)) r =
      .ok (c.atRun (p.setTable (p.stb.pushHpRecvBuf tp)) (.take r .setAckState)) := by
    unfold turnMicro
    rw [hst]
    simp only [readTp_of_some htp]
    rfl
  exact (first_step hd hr (by rw [hst]; decide) hfirst).tail (take_step hd rfl)

/-- The states whose turn is one step. -/
def OneStep (st : ProcState) : Prop :=
  st ∉ [.ackWithoutData, .procSyn, .ackWithDataMatchExpectedSeq, .ackWithDataMoreExpectedSeq, .pktRecovery,
    .ackDatarecsuccSendbackAck]

theorem turnMicro_one (h : OneStep r.state) {t : Turn RunSt RunRes} (ht : runStep now (c.runSt r) = .ok t) :
    turnMicro now c r = .ok (c.afterTurn t) := by
  have hwhole : (do let t ← runStep now (c.runSt r); return c.afterTurn t : Except Halt Host) =
      .ok (c.afterTurn t) := by
    rw [ht]
    rfl
  unfold turnMicro
  unfold OneStep at h
  cases hst : r.state <;> rw [hst] at h <;> first | exact absurd (by decide) h | exact hwhole

theorem one_turn_steps (hd : c.delack = none) (hr : room (c.atRun p (.turn r)) r) (hone : OneStep r.state)
    {t : Turn RunSt RunRes} (ht : runStep now ((c.atRun p (.turn r)).runSt r) = .ok t) :
    Relation.ReflTransGen (ThreadStep net room) (c.atRun p (.turn r)) ((c.atRun p (.turn r)).afterTurn t) := by
  refine Relation.ReflTransGen.single (turn_step hd (fun hst => ?_) hr (turnMicro_one hone ht))
  unfold OneStep at hone
  rw [hst] at hone
  exact absurd (by decide) hone

theorem sendback_turn_steps (hd : c.delack = none) (hr : room (c.atRun p (.turn r)) r)
    (hback : ∀ d r, r.state = .ackDatarecsuccNoSendbackAck → room d r)
    (hst : r.state = .ackDatarecsuccSendbackAck) {q : Process} (hq : procDelack now p = .ok q)
    {t : Turn RunSt RunRes}
    (ht : runStep now ((c.atRun q (.turn { r with state := .ackDatarecsuccNoSendbackAck })).runSt
      { r with state := .ackDatarecsuccNoSendbackAck }) = .ok t) :
    Relation.ReflTransGen (ThreadStep net room) (c.atRun p (.turn r)) ((c.atRun q (.turn r)).afterTurn t) := by
  have hfirst : turnMicro now (c.atRun p (.turn r)) r =
      .ok (c.atRun q (.turn { r with state := .ackDatarecsuccNoSendbackAck })) := by
    unfold turnMicro
    rw [hst]
    show (procDelack now p >>= _) = _
    rw [hq]
    rfl
  have hsecond := @one_turn_steps net room now c q { r with state := .ackDatarecsuccNoSendbackAck } hd
    (hback _ _ rfl) (show OneStep .ackDatarecsuccNoSendbackAck by unfold OneStep; decide) t ht
  have hsame : (c.atRun q (.turn { r with state := .ackDatarecsuccNoSendbackAck })).afterTurn t =
      (c.atRun q (.turn r)).afterTurn t := by
    cases t <;> rfl
  exact (first_step hd hr (by rw [hst]; decide) hfirst).trans (hsame ▸ hsecond)

end Turn

theorem readTp_some {s : RunSt} {tp : TouPkg} (h : Process.readTp s = .ok tp) : s.tp = some tp := by
  unfold Process.readTp at h
  split at h
  · cases h
  · cases h
    assumption

/-- A turn of the automaton that goes on. -/
theorem turn_steps (ht : c.timer = none) (hd : c.delack = none) (hs : c.send = none) (hnow : Shows now)
    {s s' : RunSt} (hr : room (c.running s) (runVars s))
    (hback : ∀ d r, r.state = .ackDatarecsuccNoSendbackAck → room d r)
    (h : runStep now s = .ok (.next s')) :
    Relation.ReflTransGen (ThreadStep net room) (c.running s) (c.running s') := by
  obtain ⟨d, hpend⟩ : ∃ d : Host, d = { c with queue := s.pending } := ⟨_, rfl⟩
  have hdt : d.timer = none := hpend ▸ ht
  have hdd : d.delack = none := hpend ▸ hd
  have hds : d.send = none := hpend ▸ hs
  have hgoto : ∀ {q : Process} {st : ProcState}, c.running { s with pr := q, state := st } =
      d.atRun q (.turn { runVars s with state := st }) := by
    intro q st
    rw [hpend]
    rfl
  have hrunning : c.running s = d.atRun s.pr (.turn (runVars s)) := hgoto
  rw [hrunning] at hr ⊢
  by_cases hone : OneStep s.state
  · have hsteps := @one_turn_steps net room now d s.pr (runVars s) hdd hr hone (.next s') (by rw [hpend]; exact h)
    rw [show (d.atRun s.pr (.turn (runVars s))).afterTurn (.next s') = c.running s' by rw [hpend]; rfl] at hsteps
    exact hsteps
  unfold runStep at h
  cases hst : s.state <;> rw [hst] at h hone <;> simp only at h
  case ackWithoutData =>
    obtain ⟨tp, htp, h⟩ := of_bind_ok h
    obtain ⟨p₁, hack, h⟩ := of_bind_ok h
    obtain ⟨q, hsend, h⟩ := of_bind_ok h
    cases h
    rw [hgoto]
    refine ack_turn_steps hdt hds hnow hst (readTp_some htp) ?_
    rw [hack, ok_bind]
    exact hsend
  case procSyn =>
    obtain ⟨tp, htp, h⟩ := of_bind_ok h
    cases h
    rw [hgoto]
    exact syn_turn_steps hdd hr hst (readTp_some htp)
  case ackWithDataMatchExpectedSeq =>
    obtain ⟨tp, htp, h⟩ := of_bind_ok h
    cases h
    rw [hgoto]
    exact inOrder_turn_steps hdd hr hst (readTp_some htp)
  case ackWithDataMoreExpectedSeq =>
    obtain ⟨tp, htp, h⟩ := of_bind_ok h
    cases h
    rw [hgoto]
    exact future_turn_steps hdd hr hst (readTp_some htp)
  case pktRecovery =>
    obtain ⟨res, hres, h⟩ := of_bind_ok h
    refine (recovery_turn_steps hdd hst hr hres).trans (Relation.ReflTransGen.single ?_)
    split at h
    · rename_i hret
      cases h
      rw [hgoto]
      exact take_step hdd (if_pos hret)
    · rename_i hret
      cases h
      rw [hgoto]
      exact take_step hdd (if_neg hret)
  case ackDatarecsuccSendbackAck =>
    obtain ⟨q, hq, h⟩ := of_bind_ok h
    cases h
    have hsame : noSendback { s with pr := q, state := .ackDatarecsuccSendbackAck } =
        noSendback { s with pr := q, state := .ackDatarecsuccNoSendbackAck } := by
      unfold noSendback
      split <;> rfl
    have hsteps := @sendback_turn_steps net room now d s.pr (runVars s) hdd hr hback hst q hq
      (.next (noSendback { s with pr := q, state := .ackDatarecsuccNoSendbackAck })) (by rw [hpend]; rfl)
    rw [hsame]
    subst hpend
    exact hsteps
  all_goals exact absurd (by unfold OneStep; decide) hone

/-! ## Whole calls -/

/-- No thread is at work. -/
structure Quiet (c : Host) : Prop where
  send : c.send = none
  run : c.run = none
  timer : c.timer = none
  delack : c.delack = none
  recv : c.recv = none

theorem Quiet.free (h : Quiet c) : Free c :=
  ⟨h.timer, fun r a hr => by rw [h.run] at hr; cases hr⟩

/-- A datagram arrives, or a call begins and ends with nothing in between. -/
inductive CallStep (net : Host → Datagram → Prop) : Host → Host → Prop
  | arrive {c : Host} {d : Datagram} (hd : net c d) : CallStep net c { c with queue := c.queue ++ [d] }
  | touSend {c : Host} {now : ℕ} {buf : List Byte} {len : ℤ} {r : ℤ × Process} (hnow : Shows now)
      (hlen : s32 len ≤ buf.length) (h : Process.touSend now c.pr buf len = .ok r) :
      CallStep net c { c with pr := r.2, accepted := c.accepted ++ buf.take r.1.toNat }
  | touRecv (c : Host) (len : ℤ) :
      CallStep net c { c with
        pr := (Process.touRecv c.pr len).2.2
        returned := c.returned ++
          (Process.touRecv c.pr len).2.1.take (Process.touRecv c.pr len).1.toNat }
  | run {c : Host} {now : ℕ} {r : RunRes} (hnow : Shows now) (h : Process.run now c.pr c.queue = .ok r) :
      CallStep net c { c with pr := r.pr, queue := r.pending }
  | delack {c : Host} {now : ℕ} {q : Process} (h : timerProcDelack now c.pr = .ok q) :
      CallStep net c { c with pr := q }
  | sndpkt {c : Host} {now : ℕ} {q : Process} (hnow : Shows now) (h : timerProcSndpkt now c.pr = .ok q) :
      CallStep net c { c with pr := q }

/-- A call of `run`, behind its entry. -/
theorem running_steps (hq : Quiet c) (hnow : Shows now) {r : RunRes}
    (hroom : ∀ s, Visits (runStep now) (Process.runSt c.pr c.queue) s → room (c.running s) (runVars s))
    (hback : ∀ d r, r.state = .ackDatarecsuccNoSendbackAck → room d r) (h : Process.run now c.pr c.queue = .ok r) :
    Relation.ReflTransGen (ThreadStep net room) (c.running (Process.runSt c.pr c.queue))
      { c with pr := r.pr, queue := r.pending } := by
  obtain ⟨s, hv, hsteps, hdone⟩ := fuelLoop_inv
    (fun s => Relation.ReflTransGen (ThreadStep net room) (c.running (Process.runSt c.pr c.queue)) (c.running s))
    Relation.ReflTransGen.refl
    (fun a b hva ha hab => ha.trans (turn_steps hq.timer hq.delack hq.send hnow (hroom a hva) hback hab)) h
  have hone : OneStep s.state := by
    unfold OneStep
    rcases runStep_done_cases hdone with ⟨hend, _⟩ | ⟨hrecv | hrecv, _⟩
    · rw [hend]
      decide
    · rw [hrecv]
      decide
    · rw [hrecv]
      decide
  have hleave : Relation.ReflTransGen (ThreadStep net room) (c.running s) ((c.running s).afterTurn (.done r)) :=
    @one_turn_steps net room now { c with queue := s.pending } s.pr (runVars s) hq.delack (hroom s hv) hone _ hdone
  have hsame : (c.running s).afterTurn (.done r) = { c with pr := r.pr, queue := r.pending } := by
    unfold afterTurn running
    rw [hq.run]
  exact hsame ▸ hsteps.trans hleave

theorem run_steps (hq : Quiet c) (hnow : Shows now) {r : RunRes}
    (hroom : ∀ s, Visits (runStep now) (Process.runSt c.pr c.queue) s → room (c.running s) (runVars s))
    (hback : ∀ d r, r.state = .ackDatarecsuccNoSendbackAck → room d r) (h : Process.run now c.pr c.queue = .ok r) :
    Relation.ReflTransGen (ThreadStep net room) c { c with pr := r.pr, queue := r.pending } := by
  have henter : ThreadStep net room c (c.running (Process.runSt c.pr c.queue)) :=
    ⟨Step.enterRun hq.run, rfl, rfl, rfl⟩
  exact Relation.ReflTransGen.head henter (running_steps hq hnow hroom hback h)

/-- A datagram arrives, and a call of `run` takes it. -/
theorem arrival_steps (hq : Quiet c) (hempty : c.queue = []) (hnow : Shows now) {d : Datagram} (hd : net c d)
    {r : RunRes} (hroom : ∀ s, Visits (runStep now) (Process.runSt c.pr [d]) s →
      room (({ c with queue := [d] } : Host).running s) (runVars s))
    (hback : ∀ d r, r.state = .ackDatarecsuccNoSendbackAck → room d r) (h : Process.run now c.pr [d] = .ok r) :
    Relation.ReflTransGen (Step net room) c { c with pr := r.pr, queue := r.pending } := by
  have harrive := @Step.arrive net room c d hd
  rw [hempty, List.nil_append] at harrive
  have hsteps := @run_steps net room now { c with queue := [d] } ⟨hq.send, hq.run, hq.timer, hq.delack, hq.recv⟩
    hnow r hroom hback h
  exact Relation.ReflTransGen.head harrive (ThreadStep.steps hsteps)

theorem touSend_steps (hq : Quiet c) (hnow : Shows now) {buf : List Byte} {len : ℤ} {r : ℤ × Process}
    (hlen : s32 len ≤ buf.length) (h : Process.touSend now c.pr buf len = .ok r) :
    Relation.ReflTransGen (Step net room) c
      { c with pr := r.2, accepted := c.accepted ++ buf.take r.1.toNat } := by
  obtain ⟨hret, hsend⟩ := touSend_ok h
  obtain ⟨d, hd⟩ : ∃ d : Host, d = { c with
      pr := (Process.pushsndq c.pr buf len).2, accepted := c.accepted ++ buf.take r.1.toNat } := ⟨_, rfl⟩
  have hfree : Free d := by
    rw [hd]
    exact ⟨hq.timer, hq.free.stb⟩
  have hds : d.send = none := hd ▸ hq.send
  have hdr : d.run = none := hd ▸ hq.run
  have hpush : Step net room c d := by
    rw [hd, hret]
    exact Step.pushsndq hlen
  have henter : Step net room d (d.inSend d.pr (.getwnd none)) := Step.enterSend hds
  have hpr : d.pr = (Process.pushsndq c.pr buf len).2 := by rw [hd]
  rw [← hpr] at hsend
  have hsteps : Relation.ReflTransGen (Step net room) (d.inSend d.pr (.getwnd none)) _ :=
    ThreadStep.steps (send_steps hfree hnow hsend)
  have hsame : ({ d with pr := r.2, send := none, run := afterSend d.run none } : Host) =
      { c with pr := r.2, accepted := c.accepted ++ buf.take r.1.toNat } := by
    rw [hdr, hd]
    show ({ c with pr := r.2, send := none, run := none, accepted := _ } : Host) = _
    rw [← hq.send, ← hq.run]
  exact hsame ▸ (((Relation.ReflTransGen.single hpush).tail henter).trans hsteps)

theorem touRecv_steps (hq : Quiet c) (len : ℤ) :
    Relation.ReflTransGen (Step net room) c { c with
      pr := (Process.touRecv c.pr len).2.2
      returned := c.returned ++
        (Process.touRecv c.pr len).2.1.take (Process.touRecv c.pr len).1.toNat } := by
  have h1 : Step net room c _ := Step.recvGetAt len hq.recv
  have h3 := ((Relation.ReflTransGen.single h1).tail (Step.recvRemove rfl)).tail (Step.recvCheck rfl)
  have hrecv := hq.recv
  obtain ⟨pr, queue, send, run, timer, delack, recv, accepted, returned⟩ := c
  subst hrecv
  exact h3

theorem sndpkt_steps (hq : Quiet c) (hnow : Shows now) {q : Process}
    (h : timerProcSndpkt now c.pr = .ok q) :
    Relation.ReflTransGen (ThreadStep net room) c { c with pr := q } := by
  obtain ⟨f, hf, h⟩ := of_bind_ok h
  have hclear : ThreadStep net room c _ := ⟨Step.clearAcked hq.timer hq.delack hq.free.stb, rfl, rfl, rfl⟩
  have htimer := hq.timer
  obtain ⟨pr, queue, send, run, timer, delack, recv, accepted, returned⟩ := c
  subst htimer
  have hfire := (Relation.ReflTransGen.single hclear).tail ⟨Step.fire hnow rfl hf, rfl, rfl, rfl⟩
  cases hr : f.2 with
  | none =>
    rw [hr] at hfire h
    cases h
    rw [Option.map_none, Option.toList_none, List.append_nil] at hfire
    exact hfire
  | some g =>
    rw [hr] at hfire h
    cases h
    exact hfire.tail ⟨Step.settwnd rfl, rfl, rfl, rfl⟩

theorem procDelackXmit_micro {stb : SockTb} {n : Node} {t : ℕ} {r : SockTb × Node × List Tx}
    (h : Timer.procDelackXmit stb n t = .ok r) (i : ℕ) :
    (delackXmit stb t i n = .ok (.node t (i + 1)) ∧ r = (stb, n, [])) ∨ ∃ st tx,
      delackXmit stb t i n = .ok (.assertRcvNxt t i n st) ∧ Timer.sendack stb n = .ok tx ∧
        r = (stb.setAckState st, Timer.refreshAck n stb t, [tx]) := by
  unfold Timer.procDelackXmit at h
  unfold delackXmit
  cases hst : stb.tc.tDelackState <;> rw [hst] at h <;> simp only at h ⊢
  case immedUpdateXmit =>
    cases h
    exact Or.inl ⟨trivial, rfl⟩
  case err => cases h
  all_goals
    split at h
    · rename_i hdue
      obtain ⟨tx, htx, h⟩ := of_bind_ok h
      cases h
      rw [if_pos hdue]
      exact Or.inr ⟨_, tx, rfl, htx, rfl⟩
    · rename_i hdue
      cases h
      rw [if_neg hdue]
      exact Or.inl ⟨rfl, rfl⟩

theorem sendack_ok {stb : SockTb} {n : Node} {tx : Tx} (h : Timer.sendack stb n = .ok tx) :
    n.pId ≤ stb.tc.rcvNxt ∧ tx = { site := .sendack, dst := stb.dst, pkt :=
      ((TouPkg.ofSize TouHeader.blank 0).clean.putHeaderSeq stb.tc.sndNxt stb.tc.rcvNxt).setAck true } := by
  unfold Timer.sendack at h
  split at h
  · cases h
    exact ⟨‹_›, rfl⟩
  · cases h

/-- `c` with the process `p` and the pass of `proc_delack` at `pc`. -/
def atDelack (c : Host) (p : Process) (pc : Option DelackAt) : Host := { c with pr := p, delack := pc }

theorem delack_step {p q : Process} {pc : DelackAt} {o : Option DelackAt}
    (h : delackMicro p pc = .ok (q, o)) : ThreadStep net room (c.atDelack p (some pc)) (c.atDelack q o) :=
  ⟨Step.delack (q := (q, o)) rfl h, rfl, rfl, rfl⟩

/-- The pass from the node behind `done` on. -/
theorem delackLoop_steps {t : ℕ} {rest : List Node} : ∀ {p : Process} {done : List Node}
    {r : SockTb × List Node × List Tx}, p.ackdeque = done ++ rest →
    Timer.procDelackLoop t p.stb rest = .ok r →
    Relation.ReflTransGen (ThreadStep net room) (c.atDelack p (some (.node t done.length)))
      (c.atDelack { p with stb := r.1, ackdeque := done ++ r.2.1, sent := p.sent ++ r.2.2 } none) := by
  induction rest with
  | nil =>
    intro p done r hdeque h
    cases h
    rw [List.append_nil] at hdeque
    have hlast : delackMicro p (.node t done.length) = .ok (p, none) := by
      simp only [delackMicro, hdeque, List.getElem?_length]
    have hsame : ({ p with ackdeque := done ++ [], sent := p.sent ++ [] } : Process) = p := by
      rw [List.append_nil, List.append_nil, ← hdeque]
    exact hsame.symm ▸ Relation.ReflTransGen.single (delack_step hlast)
  | cons n rest ih =>
    intro p done r hdeque h
    obtain ⟨r₁, h₁, h⟩ := of_bind_ok h
    obtain ⟨r₂, h₂, h⟩ := of_bind_ok h
    cases h
    have hat : p.ackdeque[done.length]? = some n := by
      rw [hdeque, List.getElem?_append_right (le_refl _), Nat.sub_self]
      rfl
    have hnode : ∀ {pc : DelackAt}, delackXmit p.stb t done.length n = .ok pc →
        delackMicro p (.node t done.length) = .ok (p, some pc) := by
      intro pc hpc
      simp only [delackMicro, hat, hpc]
      rfl
    rcases procDelackXmit_micro h₁ done.length with ⟨hskip, rfl⟩ | ⟨st, tx, hdue, htx, rfl⟩
    · have hmore := @ih p (done ++ [n]) r₂ (by rw [hdeque, List.append_assoc]; rfl) h₂
      rw [List.length_append, List.append_assoc] at hmore
      exact Relation.ReflTransGen.head (delack_step (hnode hskip)) hmore
    · obtain ⟨hrcv, htx'⟩ := sendack_ok htx
      have hset : p.ackdeque.set done.length (Timer.refreshAck n p.stb t) =
          done ++ [Timer.refreshAck n p.stb t] ++ rest := by
        rw [hdeque, List.set_append_right _ _ (le_refl _), Nat.sub_self, List.append_assoc]
        rfl
      have hassert : delackMicro p (.assertRcvNxt t done.length n st) =
          .ok (p, some (.putSeq t done.length n st)) := if_pos hrcv
      have hput : delackMicro p (.putAck t done.length n st p.stb.tc.sndNxt) =
          .ok (p.sendto [tx], some (.updateAck t done.length n st)) := by
        rw [htx']
        rfl
      have hsteps : Relation.ReflTransGen (ThreadStep net room) (c.atDelack p (some (.node t done.length))) _ :=
        ((((Relation.ReflTransGen.single (delack_step (hnode hdue))).tail (delack_step hassert)).tail
          (delack_step rfl)).tail (delack_step hput)).tail (delack_step rfl)
      have hmore := @ih { p.sendto [tx] with
        stb := p.stb.setAckState st, ackdeque := p.ackdeque.set done.length (Timer.refreshAck n p.stb t) }
        (done ++ [Timer.refreshAck n p.stb t]) r₂ hset h₂
      rw [List.length_append, List.append_assoc,
        show (p.sendto [tx]).sent ++ r₂.2.2 = p.sent ++ ([tx] ++ r₂.2.2) from List.append_assoc _ _ _] at hmore
      exact hsteps.trans hmore

/-- A pass of `timerCk::proc_delack`. -/
theorem delack_steps (hq : Quiet c) {q : Process} (h : timerProcDelack now c.pr = .ok q) :
    Relation.ReflTransGen (ThreadStep net room) c { c with pr := q } := by
  obtain ⟨r, hr, h⟩ := of_bind_ok h
  cases h
  have henter : ThreadStep net room c (c.atDelack c.pr (some (.node now 0))) :=
    ⟨Step.enterDelack now hq.delack hq.timer, rfl, rfl, rfl⟩
  have hloop := @delackLoop_steps net room c now c.pr.ackdeque c.pr [] r rfl hr
  have hsame : c.atDelack { c.pr with stb := r.1, ackdeque := [] ++ r.2.1, sent := c.pr.sent ++ r.2.2 } none =
      { c with pr := { c.pr with stb := r.1, ackdeque := r.2.1, sent := c.pr.sent ++ r.2.2 } } := by
    unfold atDelack
    rw [← hq.delack]
    rfl
  exact hsame ▸ Relation.ReflTransGen.head henter hloop

/-- A whole call is a run of the threads' steps, and leaves no thread at work. -/
theorem CallStep.steps {c' : Host} (hq : Quiet c) (h : CallStep net c c') :
    Relation.ReflTransGen (Step net fun _ _ => True) c c' ∧ Quiet c' := by
  cases h with
  | arrive hd => exact ⟨Relation.ReflTransGen.single (Step.arrive hd), ⟨hq.send, hq.run, hq.timer, hq.delack, hq.recv⟩⟩
  | touSend hnow hlen h => exact ⟨touSend_steps hq hnow hlen h, ⟨hq.send, hq.run, hq.timer, hq.delack, hq.recv⟩⟩
  | touRecv len => exact ⟨touRecv_steps hq len, ⟨hq.send, hq.run, hq.timer, hq.delack, hq.recv⟩⟩
  | run hnow h => exact ⟨ThreadStep.steps (run_steps hq hnow (fun _ _ => trivial) (fun _ _ _ => trivial) h),
    ⟨hq.send, hq.run, hq.timer, hq.delack, hq.recv⟩⟩
  | delack h => exact ⟨ThreadStep.steps (delack_steps hq h), ⟨hq.send, hq.run, hq.timer, hq.delack, hq.recv⟩⟩
  | sndpkt hnow h => exact ⟨ThreadStep.steps (sndpkt_steps hq hnow h),
    ⟨hq.send, hq.run, hq.timer, hq.delack, hq.recv⟩⟩

/-- Every run of whole calls is a run of the threads' steps. -/
theorem calls_interleave (net : Host → Datagram → Prop) (c c' : Host) (hq : Quiet c)
    (hrun : Relation.ReflTransGen (CallStep net) c c') :
    Relation.ReflTransGen (Step net fun _ _ => True) c c' ∧ Quiet c' :=
  reach_inv (fun d => Relation.ReflTransGen (Step net fun _ _ => True) c d ∧ Quiet d)
    (fun _ _ hd hst => ⟨hd.1.trans (hst.steps hd.2).1, (hst.steps hd.2).2⟩)
    ⟨Relation.ReflTransGen.refl, hq⟩ hrun

theorem shows_five : Shows 5 := ⟨⟨0, 5000⟩, by decide, by decide⟩

/-- The application of a connected process sends one full segment. -/
theorem exists_touSend : ∃ a b q payload, Connected a b ∧ Lockstep 1 0 (Endpoints.start a b) ∧
    payload.length = 1456 ∧ (0 : Byte) ∉ payload ∧ Process.touSend 5 a payload 1456 = .ok (1456, q) ∧
    SlowStart 1457 1456 q ∧ (∃ tx ∈ q.sent, tx.pkt = TouPkg.segment 1 a.stb.tc.rcvNxt payload) ∧
    a.stb.tc.tRto = touInitTimeo := by
  obtain ⟨a, b, hconn, h₀, hrto⟩ := exists_connected
  have hlen : (List.replicate 1456 (65 : Byte)).length = 1456 := List.length_replicate
  have hnul : (0 : Byte) ∉ List.replicate 1456 (65 : Byte) :=
    fun h => absurd (List.eq_of_mem_replicate h) (by decide)
  obtain ⟨q, htou, hq, htx⟩ := h₀.sender.touSend 5 h₀.flight_le (by decide) hlen
  exact ⟨a, b, q, _, hconn, h₀, hlen, hnul, htou, hq, htx, hrto⟩

theorem calls_interleave_segment : ∃ c c', Quiet c ∧
    Relation.ReflTransGen (CallStep fun _ _ => True) c c' ∧ c'.accepted.length = 1456 ∧
    Relation.ReflTransGen (Step (fun _ _ => True) fun _ _ => True) c c' := by
  obtain ⟨a, _, q, payload, _, _, hlen, _, htou, _⟩ := exists_touSend
  have hq : Quiet (Host.idle a [] [] []) := ⟨rfl, rfl, rfl, rfl, rfl⟩
  have hcall := @CallStep.touSend (fun _ _ => True) (Host.idle a [] [] []) _ _ _ _ shows_five
    (by rw [hlen]; decide) htou
  have hrun := Relation.ReflTransGen.single hcall
  refine ⟨_, _, hq, hrun, ?_, (calls_interleave _ _ _ hq hrun).1⟩
  show ([] ++ payload.take (1456 : ℤ).toNat).length = 1456
  rw [List.nil_append, List.length_take, hlen]
  rfl

end Host
end Process
end TcpOverUdp
