import TcpOverUdp.Proof.HostSender

/-! # A sender whose threads take their steps in any order

Every step of every thread keeps `Streaming`, whatever datagrams arrive. So the sequence numbers keep their
order and their distance, and whatever is transmitted or retransmitted is cut out of what `touSend` accepted.
-/
namespace TcpOverUdp
open MachineInt Pieces
set_option autoImplicit false

namespace Timer

/-- `fireTop` does nothing, or retransmits the least node. -/
inductive FireResult (tb : SockPtr → SockTb) (now : ℕ) (h : TimerHeap) :
    TimerHeap × Option (SockPtr × Tx) → Prop
  | quiet : FireResult tb now h (h, none)
  | fired {n : Node} {g : TimerHeap} (ht : h.top? = some n) (hlate : u32 n.ms < now)
      (hg : g = h.pop.push (firedNode (tb n.st) now n).copy ∨
        ∃ top : Node, (h.pop.push (firedNode (tb n.st) now n).copy).top? = some top ∧
          postponeTimer top.cId top.tId top.pId (u32 (((tb n.st).tc.tRto : ℤ) * 2))
            (h.pop.push (firedNode (tb n.st) now n).copy) = .ok g) :
      FireResult tb now h (g, some (n.st, sendpkt (tb n.st) n))

theorem fireTop_result {tb : SockPtr → SockTb} {now : ℕ} {h : TimerHeap}
    {r : TimerHeap × Option (SockPtr × Tx)} (hr : fireTop tb now h = .ok r) : FireResult tb now h r := by
  unfold fireTop at hr
  split at hr
  · cases hr
    exact .quiet
  · rename_i n hn
    by_cases hlate : u32 n.ms < now
    · rw [if_pos hlate] at hr
      simp only at hr
      split at hr
      · cases hr
        exact .fired hn hlate (Or.inl rfl)
      · rename_i top htop
        split at hr
        · obtain ⟨g, hg, hres⟩ := of_bind_ok hr
          cases hres
          exact .fired hn hlate (Or.inr ⟨top, htop, hg⟩)
        · cases hr
          exact .fired hn hlate (Or.inl rfl)
    · rw [if_neg hlate] at hr
      cases hr
      exact .quiet

theorem fireTop_from {tb : SockPtr → SockTb} {now : ℕ} {h : TimerHeap}
    {r : TimerHeap × Option (SockPtr × Tx)} (hr : fireTop tb now h = .ok r) :
    HeapFrom h r.1 ∧ ∀ f, r.2 = some f → ∃ n ∈ h.elems, f = (n.st, sendpkt (tb n.st) n) := by
  cases fireTop_result hr with
  | quiet => exact ⟨HeapFrom.refl h, by simp⟩
  | @fired n g ht _ hg =>
    have hmem := MinHeap.mem_of_top? ht
    have hpush : HeapFrom h (h.pop.push (firedNode (tb n.st) now n).copy) :=
      (HeapFrom.of_suffix (MinHeap.pop_suffix h)).push ⟨n, hmem, (firedNode_copyOf _ _ n).copy⟩
    refine ⟨?_, ?_⟩
    · rcases hg with rfl | ⟨top, _, hg⟩
      · exact hpush
      · exact hpush.trans (postponeTimer_from hg)
    · intro f hf
      cases hf
      exact ⟨n, hmem, rfl⟩

end Timer

namespace Process

section Steps
variable {k base : ℕ} {pieces : List (List Byte)} {c c' : Host} {D : Datagram → Prop}

/-! ## An ACK -/

/-- The packet that `run` handles was classified on the present table. -/
theorem Host.RunOk.acks (h : Host.RunOk D c) {r : RunVars} {tp : TouPkg} (hpc : c.run = some (.turn r))
    (hst : r.state = .ackWithoutData) (htp : r.tp = some tp) :
    ∃ d, D d ∧ tp = recvPkg d ∧ processGetPktState c.pr.stb tp = .ok .ackWithoutData := by
  obtain ⟨d, hd⟩ := (h.turn r hpc).handling (by show Handles r.state; rw [hst]; trivial)
  have heq : tp = recvPkg d := by
    have hpkt : r.tp = some (recvPkg d) := hd.tp_eq
    rw [htp, Option.some.injEq] at hpkt
    exact hpkt
  refine ⟨d, hd.given, heq, ?_⟩
  have hc := hd.classified
  rw [← heq] at hc
  rw [← hst]
  exact hc

/-- What `proc_ack` has done up to its assignment to `snd_una`. -/
theorem ackFirst_effect (p : Process) (tp : TouPkg) :
    ∃ tc, TouCb.SameConnection p.stb.tc tc ∧ (ackFirst p tp).1 = p.setTable { p.stb with tc := tc } ∧
      ∀ a, (ackFirst p tp).2 = some (.setUna a) → a = tp.t.ackSeq ∧ p.stb.tc.sndUna < a := by
  have hsame : TouCb.SameConnection p.stb.tc p.stb.tc := ⟨rfl, rfl, rfl, rfl, rfl, rfl, rfl, rfl⟩
  have hadd := p.stb.tc.addwnd_frame
  unfold ackFirst procAck
  by_cases hgt : tp.t.ackSeq > p.stb.tc.sndUna
  · refine ⟨p.stb.tc.addwnd.2, hadd, ?_, ?_⟩
    · simp only [if_pos hgt]
    · intro a ha
      simp only [if_pos hgt, Option.some.injEq, AckAt.setUna.injEq] at ha
      exact ⟨ha.symm, ha ▸ hgt⟩
  · by_cases heq : tp.t.ackSeq = p.stb.tc.sndUna
    · refine ⟨p.stb.tc, hsame, ?_, ?_⟩
      · simp only [if_neg hgt, if_pos heq]
        rfl
      · intro a ha
        simp only [if_neg hgt, if_pos heq] at ha
        cases ha
    · refine ⟨p.stb.tc.addwnd.2, hadd, ?_, ?_⟩
      · simp only [if_neg hgt, if_neg heq]
      · intro a ha
        simp only [if_neg hgt, if_neg heq] at ha
        cases ha

theorem goOnAck_setUna {r r' : RunVars} {o : Option AckAt} {a : ℕ}
    (h : Host.goOnAck r o = .ack r' (.setUna a)) : o = some (.setUna a) := by
  cases o with
  | none => cases h
  | some pc =>
    cases h
    rfl

theorem Streaming.procAck (hs : Streaming k base pieces c) (hok : Host.RunOk D c) {r : RunVars} {tp : TouPkg}
    (hpc : c.run = some (.turn r)) (hst : r.state = .ackWithoutData) (htp : r.tp = some tp) :
    Beside base pieces c { c with
      pr := (ackFirst c.pr tp).1, run := some (Host.goOnAck r (ackFirst c.pr tp).2) } := by
  obtain ⟨_, _, _, hc⟩ := hok.acks hpc hst htp
  obtain ⟨tc, hsame, hpr, hack⟩ := ackFirst_effect c.pr tp
  have hu : (ackFirst c.pr tp).1.stb.tc.sndUna = c.pr.stb.tc.sndUna := by
    rw [hpr]
    exact hsame.sndUna
  have hrun : ∀ r' a, some (Host.goOnAck r (ackFirst c.pr tp).2) = some (RunAt.ack r' (.setUna a)) →
      (ackFirst c.pr tp).1.stb.tc.sndUna ≤ a ∧ a ≤ c.pr.stb.tc.sndNxt := by
    intro r' a hr
    rw [Option.some.injEq] at hr
    obtain ⟨rfl, hlt⟩ := hack a (goOnAck_setUna hr)
    rw [hu]
    cases classified_of_ok hc with
    | ack _ hle => exact ⟨hlt.le, hle⟩
  have hun := hs.una_le
  refine ⟨rfl, rfl, ?_, ?_, ?_, le_of_eq hu.symm, ?_, ?_, ⟨[], ?_, fun tx htx => by cases htx⟩, hrun⟩
  · show (ackFirst c.pr tp).1.stb.sockd = _
    rw [hpr]
    rfl
  · show (ackFirst c.pr tp).1.stb.cbSend = _
    rw [hpr]
    rfl
  · show (ackFirst c.pr tp).1.stb.tc.sndNxt = _
    rw [hpr]
    exact hsame.sndNxt
  · rw [hu]
    exact hun
  · show HeapFrom _ (ackFirst c.pr tp).1.timerheap
    rw [hpr]
    exact HeapFrom.refl _
  · show (ackFirst c.pr tp).1.sent = _
    rw [hpr, List.append_nil]
    rfl

theorem not_setUna {r r' : RunVars} {o : Option AckAt} (ho : ∀ a, o ≠ some (.setUna a)) (a : ℕ) :
    some (Host.goOnAck r o) ≠ some (RunAt.ack r' (.setUna a)) := by
  intro h
  rw [Option.some.injEq] at h
  exact ho a (goOnAck_setUna h)

/-- The heap and the packets sent may have changed, as `hfrom` and `hnew` say. -/
theorem Streaming.heapStep (hs : Streaming k base pieces c) (hlt : base + pieces.flatten.length < 4294967296)
    {txs : List Tx} (hsend : c'.send = c.send) (hacc : c'.accepted = c.accepted)
    (hd : c'.pr.stb.sockd = c.pr.stb.sockd) (hcb : c'.pr.stb.cbSend = c.pr.stb.cbSend)
    (hn : c'.pr.stb.tc.sndNxt = c.pr.stb.tc.sndNxt) (hu : c'.pr.stb.tc.sndUna = c.pr.stb.tc.sndUna)
    (hfrom : HeapFrom c.pr.timerheap c'.pr.timerheap) (hsent : c'.pr.sent = c.pr.sent ++ txs)
    (hnew : ∀ tx ∈ txs, ∃ n ∈ c.pr.timerheap.elems, tx = Timer.sendpkt c.pr.stb n)
    (hrun : ∀ r a, c'.run = some (.ack r (.setUna a)) → c.run = some (.ack r (.setUna a))) :
    Beside base pieces c c' := by
  have hun := hs.una_le
  refine ⟨hsend, hacc, hd, hcb, hn, le_of_eq hu.symm, by omega, hfrom, ⟨txs, hsent, ?_⟩, ?_⟩
  · intro tx htx
    obtain ⟨n, hmem, rfl⟩ := hnew tx htx
    obtain ⟨s, hs', hpid, hdata⟩ := hs.armed n hmem
    refine ⟨sentFrom_sendpkt hlt hs' hpid hdata _, ?_⟩
    rw [Timer.sendpkt_eq]
    simp
  · intro r a hr
    rw [hu]
    exact hs.acking r a (hrun r a hr)

theorem Streaming.ackMicro (hs : Streaming k base pieces c) (hlt : base + pieces.flatten.length < 4294967296)
    {now : ℕ} {r : RunVars} {pc : AckAt} {q : Process × Option AckAt} (hpc : c.run = some (.ack r pc))
    (h : AckMove now c.pr pc q) :
    Beside base pieces c { c with pr := q.1, run := some (Host.goOnAck r q.2) } := by
  have hnone : ∀ {o : Option AckAt}, (∀ a, o ≠ some (.setUna a)) → ∀ r' a,
      some (Host.goOnAck r o) = some (RunAt.ack r' (.setUna a)) → c.run = some (.ack r' (.setUna a)) :=
    fun ho r' a hr => absurd hr (not_setUna ho a)
  cases h with
  | setUna a =>
    obtain ⟨hge, hle⟩ := hs.acking r a hpc
    refine ⟨rfl, rfl, rfl, rfl, rfl, hge, hle, HeapFrom.refl _, ⟨[], (List.append_nil _).symm, ?_⟩, ?_⟩
    · exact List.forall_mem_nil _
    · intro r' a' hr
      exact absurd hr (not_setUna (fun _ h => by cases h) a')
  | deleteTimer rtt rto hr =>
    have hfrom := HeapFrom.of_suffix (Timer.deleteTimer_suffix hr)
    exact hs.heapStep hlt rfl rfl rfl rfl rfl rfl hfrom (List.append_nil _).symm (List.forall_mem_nil _)
      (hnone fun _ h => by cases h)
  | setdwnd a =>
    have hsame := c.pr.stb.tc.setdwnd_frame a
    exact hs.heapStep hlt rfl rfl rfl rfl hsame.sndNxt hsame.sndUna (HeapFrom.refl _)
      (List.append_nil _).symm (List.forall_mem_nil _) (hnone fun _ h => by cases h)
  | third a | other a =>
    exact hs.heapStep hlt rfl rfl rfl rfl rfl rfl (HeapFrom.refl _) (List.append_nil _).symm
      (List.forall_mem_nil _) (hnone fun _ h => by cases h)
  | rexmit hr =>
    obtain ⟨hfrom, hnew⟩ := Timer.rexmitForDupAck_from hr
    exact hs.heapStep hlt rfl rfl rfl rfl rfl rfl hfrom rfl hnew (hnone fun _ h => by cases h)

/-! ## The timer -/

theorem Streaming.fire (hs : Streaming k base pieces c) (hlt : base + pieces.flatten.length < 4294967296)
    {now : ℕ} {f : TimerHeap × Option (SockPtr × Tx)}
    (h : Timer.fireTop c.pr.table now c.pr.timerheap = .ok f) :
    Beside base pieces c { c with
      pr := { c.pr with timerheap := f.1, sent := c.pr.sent ++ (f.2.map (·.2)).toList }
      timer := f.2.map fun _ => .settwnd } := by
  obtain ⟨hfrom, hfired⟩ := Timer.fireTop_from h
  refine hs.heapStep hlt rfl rfl rfl rfl rfl rfl hfrom rfl ?_ fun _ _ hr => hr
  intro tx htx
  cases hf : f.2 with
  | none =>
    rw [hf] at htx
    cases htx
  | some g =>
    rw [hf] at htx
    obtain ⟨n, hn, rfl⟩ := hfired g hf
    exact ⟨n, hn, List.mem_singleton.mp htx⟩

theorem SendMove.sndUna_eq {now : ℕ} {p : Process} {pc : SendAt} {r : Process × Option SendAt}
    (h : SendMove now p pc r) : r.1.stb.tc.sndUna = p.stb.tc.sndUna := by
  cases h <;> rfl

theorem Streaming.sndNxt_le (hs : Streaming k base pieces c) (hb : base + c.accepted.length < 4294967296)
    {now : ℕ} {pc : SendAt} {r : Process × Option SendAt} (hpc : c.send = some pc)
    (h : SendMove now c.pr pc r) : c.pr.stb.tc.sndNxt ≤ r.1.stb.tc.sndNxt := by
  cases h with
  | advance v len pkt => exact (hs.advanced hb hpc rfl).2
  | _ => exact le_refl _

/-! ## Any step -/

/-- What one step of any thread leaves of a sender. -/
structure Keeps (k base : ℕ) (pieces : List (List Byte)) (D : Datagram → Prop) (c c' : Host) : Prop where
  streaming : ∃ more, Streaming k base (pieces ++ more) c'
  run_ok : Host.RunOk D c'
  advances : Advances c.pr c'.pr

variable {net : Host → Datagram → Prop} {room : Host → RunVars → Prop}

theorem Streaming.step (hs : Streaming k base pieces c) (hok : Host.RunOk D c) (hnet : ∀ d, net c d → D d)
    (hb : base + c.accepted.length < 4294967296) (h : Host.Step net room c c') :
    Keeps k base pieces D c c' := by
  have hlt : base + pieces.flatten.length < 4294967296 := by
    have hend := hs.end_le
    omega
  have hbeside : ∀ {d : Host}, Beside base pieces c d → c.RecvStep net room d → Keeps k base pieces D c d := by
    intro d hd hrecv
    have hn := le_of_eq hd.sndNxt_eq.symm
    refine ⟨⟨[], ?_⟩, hok.step hnet hn hrecv, hd.una_le, hn⟩
    rw [List.append_nil]
    exact hs.beside hd
  have hself : ∀ {d : Host}, Streaming k base pieces d → d.pr.stb.tc = c.pr.stb.tc →
      c.RecvStep net room d → Keeps k base pieces D c d := by
    intro d hd htc hrecv
    have hn : c.pr.stb.tc.sndNxt ≤ d.pr.stb.tc.sndNxt := by rw [htc]
    refine ⟨⟨[], ?_⟩, hok.step hnet hn hrecv, by rw [htc], hn⟩
    rw [List.append_nil]
    exact hd
  have hrecv := h.recvStep
  cases h.sendStep with
  | pushsndq hlen => exact hself (hs.pushsndq hlen) rfl hrecv
  | enterSend hnone =>
    refine hself (hs.goOn _ ?_ ?_ ?_) rfl hrecv
    · rw [hnone]
      rfl
    · rw [hnone]
      rfl
    · rintro _ ⟨⟩
      trivial
  | send _ hpc hm =>
    have hn := hs.sndNxt_le hb hpc hm
    exact ⟨hs.send hb hpc hm, hok.step hnet hn hrecv, le_of_eq hm.sndUna_eq.symm, hn⟩
  | procAck hpc hst htp => exact hbeside (hs.procAck hok hpc hst htp) hrecv
  | ack _ hpc hm => exact hbeside (hs.ackMicro hlt hpc hm) hrecv
  | callSend hpc hnone =>
    refine hself ?_ rfl hrecv
    have hgo := hs.goOn (some (.getwnd none)) (by rw [hnone]; rfl) (by rw [hnone]; rfl)
      (by rintro _ ⟨⟩; trivial)
    exact hgo.beside (hgo.aside ⟨OnlyAcks.refl _, rfl, rfl, rfl, fun _ _ hr => by cases hr⟩)
  | clearAcked =>
    have hfrom : HeapFrom c.pr.timerheap (Timer.clearAckedTop c.pr.table c.pr.timerheap) :=
      HeapFrom.of_suffix (Timer.clearAckedTop_suffix _ _)
    exact hbeside (hs.heapStep hlt rfl rfl rfl rfl rfl rfl hfrom (List.append_nil _).symm
      (List.forall_mem_nil _) fun _ _ hr => hr) hrecv
  | fire _ hf => exact hbeside (hs.fire hlt hf) hrecv
  | settwnd =>
    have hsame := c.pr.stb.tc.settwnd_frame
    exact hbeside (hs.heapStep hlt rfl rfl rfl rfl hsame.sndNxt hsame.sndUna (HeapFrom.refl _)
      (List.append_nil _).symm (List.forall_mem_nil _) fun _ _ hr => hr) hrecv
  | aside ha => exact hbeside (hs.aside ha) hrecv

end Steps

end Process
end TcpOverUdp
