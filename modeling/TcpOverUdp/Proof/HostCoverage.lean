import TcpOverUdp.Proof.HostStreams
import TcpOverUdp.Proof.HostTimers

/-! # Every unacknowledged segment has its timer in every interleaving

A thread in `send` hands its segment to `sendto` some steps before it arms the timer, and an ACK can come in
between. So an unacknowledged segment is armed, or it is the last one and the thread is about to arm it
(`Watched`). This holds as long as the ACKs name the ends of transmitted segments, as those of the peer do.
-/
namespace TcpOverUdp
open MachineInt Pieces
set_option autoImplicit false

namespace Process

/-- Where an ACK can point to: the first number, or the end of a transmitted segment. -/
def Reached (k base : ℕ) (p : Process) (b : ℕ) : Prop := b = base ∨ b ∈ (segmentsSince k p).map endOf

/-- A datagram without data that is no SYN acknowledges whole segments. -/
def EndAcks (k base : ℕ) (p : Process) (d : Datagram) : Prop :=
  (recvPkg d).t.syn = false → (recvPkg d).buf.length = 0 → Reached k base p (recvPkg d).t.ackSeq

/-- The segment that was handed to `sendto` and has no timer yet. -/
def SendAt.arming : SendAt → Option (List Byte)
  | .newNode _ _ pkt => some pkt.buf
  | .push _ nt => some nt.data
  | _ => none

def armingOf (o : Option SendAt) : Option (List Byte) := o.bind SendAt.arming

/-- What the number of an ACK that is being handled is. -/
def AckAt.Known (P : ℕ → Prop) (una : ℕ) : AckAt → Prop
  | .setUna a => P a
  | .deleteTimer a | .setdwnd a | .ckNumDupack a | .rexmit a => a = una

theorem AckAt.Known.mono {P Q : ℕ → Prop} {una : ℕ} {pc : AckAt} (h : pc.Known P una) (hpq : ∀ a, P a → Q a) :
    pc.Known Q una := by
  cases pc with
  | setUna a => exact hpq a h
  | _ => exact h

structure Watched (k base : ℕ) (c : Host) : Prop where
  una : Reached k base c.pr c.pr.stb.tc.sndUna
  acks : ∀ r pc, c.run = some (.ack r pc) → pc.Known (Reached k base c.pr) c.pr.stb.tc.sndUna
  exact : ∀ n ∈ c.pr.timerheap.elems, ∃ s ∈ segmentsSince k c.pr, n.pId = endOf s ∧ n.data = cstr s.2
  covered : ∀ s ∈ segmentsSince k c.pr, c.pr.stb.tc.sndUna < endOf s →
    (∃ n ∈ c.pr.timerheap.elems, n.pId = endOf s ∧ n.data = cstr s.2) ∨
      (armingOf c.send = some s.2 ∧ endOf s = c.pr.stb.tc.sndNxt)

section Steps
variable {k base : ℕ} {pieces : List (List Byte)} {c c' : Host} {D : Datagram → Prop}
  {net : Host → Datagram → Prop} {room : Host → RunVars → Prop}

theorem Reached.mono {p q : Process} {b : ℕ} (h : Reached k base p b)
    (hlog : segmentsSince k p ⊆ segmentsSince k q) : Reached k base q b := by
  rcases h with h | h
  · exact Or.inl h
  · obtain ⟨s, hs, he⟩ := List.mem_map.mp h
    exact Or.inr (List.mem_map.mpr ⟨s, hlog hs, he⟩)

theorem Streaming.boundary (hs : Streaming k base pieces c) {b : ℕ} (h : Reached k base c.pr b) :
    Boundary base pieces b := by
  rcases h with rfl | h
  · exact boundary_base _ _
  · obtain ⟨s, hmem, rfl⟩ := List.mem_map.mp h
    rw [hs.log_eq] at hmem
    exact boundary_end hmem

/-- No armed segment above `snd_una` begins below it. -/
theorem Streaming.start_ge (hs : Streaming k base pieces c) (hb : base + c.accepted.length < 4294967296)
    (hu : Reached k base c.pr c.pr.stb.tc.sndUna) {n : Node} (hn : n ∈ c.pr.timerheap.elems)
    (hlt : c.pr.stb.tc.sndUna < n.pId) : c.pr.stb.tc.sndUna ≤ Timer.startOf n := by
  obtain ⟨s, hmem, hpid, hdata⟩ := hs.armed n hn
  have hle := hdata.length_le
  have hlast := (boundary_end hmem).le_last
  have hend := hs.end_le
  have hsize : n.payloadSize = n.data.length := rfl
  have hstart : Timer.startOf n = endOf s - n.data.length := by
    unfold Timer.startOf
    rw [hpid, hsize]
    exact u32_sub _ _ (by unfold endOf; omega) (by omega)
  have hendOf : endOf s = s.1 + s.2.length := rfl
  rcases boundary_not_inside (hs.boundary hu) hmem with hin | hin
  · omega
  · omega

/-- The node of a segment without a NUL has the whole segment. -/
theorem Streaming.node_whole (hs : Streaming k base pieces c) (hb : base + c.accepted.length < 4294967296)
    {n : Node} {s : ℕ × List Byte} (hmem : s ∈ segmentsSince k c.pr) (hpid : n.pId = endOf s)
    (hdata : n.data = cstr s.2) (hnul : (0 : Byte) ∉ s.2) : Timer.startOf n = s.1 ∧ n.data = s.2 := by
  rw [(cstr_eq_self_iff s.2).mpr hnul] at hdata
  have hsize : n.payloadSize = s.2.length := congrArg List.length hdata
  have hend := hs.end_le
  rw [hs.log_eq] at hmem
  have hlast := (boundary_end hmem).le_last
  refine ⟨?_, hdata⟩
  unfold Timer.startOf
  rw [hpid, hsize, u32_sub _ _ (by unfold endOf; omega) (by omega)]
  exact Nat.add_sub_cancel _ _

theorem Streaming.no_nul (hs : Streaming k base pieces c) (hnul : (0 : Byte) ∉ c.accepted) :
    ∀ s ∈ segmentsSince k c.pr, (0 : Byte) ∉ s.2 := by
  intro s hmem h0
  rw [hs.log_eq] at hmem
  obtain ⟨pre, post, hpieces, _⟩ := mem_numbered hmem
  refine hnul ?_
  rw [← hs.accepted_eq]
  refine List.mem_append_left _ (List.mem_flatten.mpr ⟨s.2, ?_, h0⟩)
  rw [hpieces]
  exact List.mem_append_right _ List.mem_cons_self

/-- A step that leaves `snd_una` and the transmitted segments alone, and loses no timer above `snd_una`. -/
theorem Watched.keep (hw : Watched k base c) (hlog : segmentsSince k c'.pr = segmentsSince k c.pr)
    (huna : c'.pr.stb.tc.sndUna = c.pr.stb.tc.sndUna)
    (harm : ∀ x, armingOf c.send = some x →
      armingOf c'.send = some x ∧ c'.pr.stb.tc.sndNxt = c.pr.stb.tc.sndNxt)
    (hacks : ∀ r pc, c'.run = some (.ack r pc) → pc.Known (Reached k base c.pr) c.pr.stb.tc.sndUna)
    (hfrom : HeapFrom c.pr.timerheap c'.pr.timerheap)
    (hret : Timer.Retains c.pr.stb.tc.sndUna c.pr.timerheap c'.pr.timerheap) : Watched k base c' := by
  have hcopy : ∀ {m n : Node} {s : ℕ × List Byte}, Node.CopyOf m n → m.pId = endOf s → m.data = cstr s.2 →
      n.pId = endOf s ∧ n.data = cstr s.2 := by
    intro m n s hmn hpid hdata
    refine ⟨hmn.pId_eq.trans hpid, ?_⟩
    rcases hmn.data_eq with hd | hd
    · rw [hd, hdata]
    · rw [hd, hdata, cstr_cstr]
  have hsub : segmentsSince k c.pr ⊆ segmentsSince k c'.pr := by
    rw [hlog]
    exact fun _ h => h
  refine ⟨?_, ?_, ?_, ?_⟩
  · rw [huna]
    exact hw.una.mono hsub
  · intro r pc hr
    rw [huna]
    exact (hacks r pc hr).mono fun a ha => ha.mono hsub
  · intro n hn
    obtain ⟨m, hm, hmn⟩ := hfrom n hn
    obtain ⟨s, hs, hpid, hdata⟩ := hw.exact m hm
    exact ⟨s, hsub hs, hcopy hmn hpid hdata⟩
  · intro s hs hlt
    rw [huna] at hlt
    rw [hlog] at hs
    rcases hw.covered s hs hlt with ⟨n, hn, hpid, hdata⟩ | ⟨hx, hend⟩
    · obtain ⟨b, hb, hnb⟩ := hret n hn (hpid ▸ hlt)
      exact Or.inl ⟨b, hb, hcopy hnb hpid hdata⟩
    · obtain ⟨hx', hnxt⟩ := harm s.2 hx
      exact Or.inr ⟨hx', hend.trans hnxt.symm⟩

/-- A step that touches none of these. -/
theorem Watched.aside (hw : Watched k base c) (hlog : segmentsSince k c'.pr = segmentsSince k c.pr)
    (huna : c'.pr.stb.tc.sndUna = c.pr.stb.tc.sndUna)
    (harm : ∀ x, armingOf c.send = some x →
      armingOf c'.send = some x ∧ c'.pr.stb.tc.sndNxt = c.pr.stb.tc.sndNxt)
    (hrun : ∀ r pc, c'.run = some (.ack r pc) → c.run = some (.ack r pc))
    (hheap : c'.pr.timerheap = c.pr.timerheap) : Watched k base c' := by
  refine hw.keep hlog huna harm (fun r pc hr => hw.acks r pc (hrun r pc hr)) ?_ ?_
  · rw [hheap]
    exact HeapFrom.refl _
  · rw [hheap]
    exact Timer.Retains.refl _ _

/-! ## A step of `send` -/

theorem armingOf_of {pc : SendAt} (h : c.send = some pc) : armingOf c.send = pc.arming := by
  rw [h]
  rfl

/-- The transmitted segment waits for its timer. -/
theorem Watched.sendto (hw : Watched k base c) (hs : Streaming k base pieces c) {v : SendVars} {len : ℤ}
    {pkt : TouPkg} (hpc : c.send = some (.sendto v len pkt)) : Watched k base { c with
      pr := c.pr.sendto [{ site := .send, dst := v.sockaddrs, pkt := pkt }]
      send := some (.newNode v len pkt) } := by
  obtain ⟨rfl, _, ack, hpkt⟩ := hs.send_ok _ hpc
  have hnxt := hs.nxt_eq
  rw [aheadOf_of hpc] at hnxt
  have hseq : pkt.t.seq = base + pieces.flatten.length := by
    rw [hpkt, TouPkg.segment_seq]
  obtain ⟨q, hq⟩ : ∃ q, q = c.pr.sendto [{ site := .send, dst := v.sockaddrs, pkt := pkt }] := ⟨_, rfl⟩
  have hlog : segmentsSince k q = segmentsSince k c.pr ++ [(pkt.t.seq, pkt.buf)] :=
    segmentsSince_sent hs.sent_le (congrArg Process.sent hq)
  have hstb : q.stb = c.pr.stb ∧ q.timerheap = c.pr.timerheap := by
    rw [hq]
    exact ⟨rfl, rfl⟩
  have hsub : segmentsSince k c.pr ⊆ segmentsSince k q := by
    rw [hlog]
    exact fun _ h => List.mem_append_left _ h
  rw [← hq]
  refine ⟨?_, ?_, ?_, ?_⟩
  · show Reached k base q q.stb.tc.sndUna
    rw [hstb.1]
    exact hw.una.mono hsub
  · intro r pc hr
    show pc.Known (Reached k base q) q.stb.tc.sndUna
    rw [hstb.1]
    exact (hw.acks r pc hr).mono fun a ha => ha.mono hsub
  · intro n hn
    have hn' : n ∈ c.pr.timerheap.elems := hstb.2 ▸ hn
    obtain ⟨s, hmem, hrest⟩ := hw.exact n hn'
    exact ⟨s, hsub hmem, hrest⟩
  · intro s hmem hlt
    have hlt' : c.pr.stb.tc.sndUna < endOf s := hstb.1 ▸ hlt
    show (∃ n ∈ q.timerheap.elems, _) ∨ (_ ∧ endOf s = q.stb.tc.sndNxt)
    rw [hstb.1, hstb.2]
    have hmem' : s ∈ segmentsSince k c.pr ++ [(pkt.t.seq, pkt.buf)] := hlog ▸ hmem
    rcases List.mem_append.mp hmem' with hold | hnew
    · rcases hw.covered s hold hlt' with harmed | ⟨hx, _⟩
      · exact Or.inl harmed
      · rw [armingOf_of hpc] at hx
        cases hx
    · rw [List.mem_singleton.mp hnew]
      refine Or.inr ⟨rfl, ?_⟩
      show pkt.t.seq + pkt.buf.length = _
      rw [hseq, hnxt]
      rfl

/-- The segment gets its timer. -/
theorem Watched.push (hw : Watched k base c) (hs : Streaming k base pieces c) {v : SendVars} {nt : Node}
    (hpc : c.send = some (.push v nt)) : Watched k base { c with
      pr := { c.pr with timerheap := c.pr.timerheap.push nt.copy }, send := some (.test v) } := by
  obtain ⟨_, _, pre, hpieces, hpid⟩ := hs.send_ok _ hpc
  have hnxt := hs.nxt_eq
  rw [aheadOf_of hpc] at hnxt
  have hnxt' : c.pr.stb.tc.sndNxt = base + pieces.flatten.length := hnxt
  have hlast : (base + pre.flatten.length, nt.data) ∈ segmentsSince k c.pr := by
    rw [hs.log_eq, hpieces, numbered_append]
    exact List.mem_append_right _ List.mem_cons_self
  have hend : nt.pId = endOf (base + pre.flatten.length, nt.data) := by
    rw [hpid, hpieces, List.flatten_append, List.flatten_singleton, List.length_append]
    exact (Nat.add_assoc _ _ _).symm
  refine ⟨hw.una, hw.acks, ?_, ?_⟩
  · intro n hn
    rcases (MinHeap.mem_push _ _ _).mp hn with rfl | hn
    · exact ⟨_, hlast, hend, nt.data_copy⟩
    · exact hw.exact n hn
  · intro s hmem hlt
    left
    rcases hw.covered s hmem hlt with ⟨n, hn, hrest⟩ | ⟨hx, hs'⟩
    · exact ⟨n, (MinHeap.mem_push _ _ _).mpr (Or.inr hn), hrest⟩
    · rw [armingOf_of hpc] at hx
      have hx' : nt.data = s.2 := Option.some.inj hx
      refine ⟨nt.copy, (MinHeap.mem_push _ _ _).mpr (Or.inl rfl), ?_, ?_⟩
      · show nt.pId = _
        omega
      · rw [Node.data_copy, hx']

theorem Watched.send (hw : Watched k base c) (hs : Streaming k base pieces c) {now : ℕ} {pc : SendAt}
    {r : Process × Option SendAt} (hpc : c.send = some pc) (h : SendMove now c.pr pc r) :
    Watched k base { c with pr := r.1, send := r.2, run := Host.afterSend c.run r.2 } := by
  have hgo : ∀ {q : Process} {o : Option SendAt}, pc.arming = none → segmentsSince k q = segmentsSince k c.pr →
      q.stb.tc.sndUna = c.pr.stb.tc.sndUna → q.timerheap = c.pr.timerheap →
      Watched k base { c with pr := q, send := o, run := Host.afterSend c.run o } := by
    intro q o hnone hlog huna hheap
    refine hw.aside hlog huna (fun x hx => ?_) (fun r' pc' hr => afterSend_ack hr) hheap
    rw [armingOf_of hpc, hnone] at hx
    cases hx
  cases h with
  | sendto v len pkt => exact hw.sendto hs hpc
  | push v nt => exact hw.push hs hpc
  | newNode v len pkt =>
    refine hw.aside rfl rfl (fun x hx => ⟨?_, rfl⟩) (fun r' pc' hr => hr) rfl
    rw [armingOf_of hpc] at hx
    exact hx
  | _ => exact hgo rfl rfl rfl rfl

/-! ## An ACK -/

theorem ackWithoutData_syn {stb : SockTb} {tp : TouPkg}
    (h : processGetPktState stb tp = .ok .ackWithoutData) : tp.t.syn = false := by
  cases hsyn : tp.t.syn with
  | false => rfl
  | true =>
    unfold processGetPktState at h
    rw [if_pos hsyn] at h
    cases h

theorem Watched.procAck (hw : Watched k base c) (hok : Host.RunOk (EndAcks k base c.pr) c) {r : RunVars}
    {tp : TouPkg} (hpc : c.run = some (.turn r)) (hst : r.state = .ackWithoutData) (htp : r.tp = some tp) :
    Watched k base { c with
      pr := (ackFirst c.pr tp).1, run := some (Host.goOnAck r (ackFirst c.pr tp).2) } := by
  obtain ⟨d, hd, rfl, hc⟩ := hok.acks hpc hst htp
  have hreached : Reached k base c.pr (recvPkg d).t.ackSeq := by
    cases classified_of_ok hc with
    | ack _ _ hbuf => exact hd (ackWithoutData_syn hc) hbuf
  obtain ⟨tc, hsame, hpr, _⟩ := ackFirst_effect c.pr (recvPkg d)
  have hknown : ∀ pc, (ackFirst c.pr (recvPkg d)).2 = some pc →
      pc.Known (Reached k base c.pr) c.pr.stb.tc.sndUna := by
    intro pc hpc'
    unfold ackFirst Process.procAck at hpc'
    by_cases hgt : (recvPkg d).t.ackSeq > c.pr.stb.tc.sndUna
    · simp only [if_pos hgt, Option.some.injEq] at hpc'
      exact hpc' ▸ hreached
    · by_cases heq : (recvPkg d).t.ackSeq = c.pr.stb.tc.sndUna
      · simp only [if_neg hgt, if_pos heq, Option.some.injEq] at hpc'
        exact hpc' ▸ heq
      · simp only [if_neg hgt, if_neg heq] at hpc'
        cases hpc'
  generalize (ackFirst c.pr (recvPkg d)).1 = q at hpr
  subst hpr
  refine hw.keep rfl hsame.sndUna (fun x hx => ⟨hx, hsame.sndNxt⟩) ?_ (HeapFrom.refl _)
    (Timer.Retains.refl _ _)
  intro r' pc hr
  cases hfirst : (ackFirst c.pr (recvPkg d)).2 with
  | none =>
    rw [hfirst] at hr
    cases hr
  | some pc' =>
    rw [hfirst] at hr
    cases hr
    exact hknown _ hfirst

theorem Watched.ack (hw : Watched k base c) (hs : Streaming k base pieces c)
    (hb : base + c.accepted.length < 4294967296) {now : ℕ} {r : RunVars} {pc : AckAt}
    {q : Process × Option AckAt} (hpc : c.run = some (.ack r pc)) (h : AckMove now c.pr pc q) :
    Watched k base { c with pr := q.1, run := some (Host.goOnAck r q.2) } := by
  have hknown := hw.acks r pc hpc
  have hend : ∀ {o : Option AckAt}, (∀ pc', o = some pc' → pc'.Known (Reached k base c.pr)
      c.pr.stb.tc.sndUna) → ∀ r' pc', some (Host.goOnAck r o) = some (RunAt.ack r' pc') →
        pc'.Known (Reached k base c.pr) c.pr.stb.tc.sndUna := by
    intro o ho r' pc' hr
    cases o with
    | none => cases hr
    | some pc'' =>
      cases hr
      exact ho _ rfl
  cases h with
  | setUna a =>
    obtain ⟨hge, _⟩ := hs.acking r a hpc
    refine ⟨hknown, ?_, hw.exact, ?_⟩
    · rintro r' pc' ⟨⟩
      rfl
    · intro s hmem hlt
      exact hw.covered s hmem (lt_of_le_of_lt hge hlt)
  | @deleteTimer a res rtt rto hr =>
    have ha : a = c.pr.stb.tc.sndUna := hknown
    refine hw.keep rfl rfl (fun x hx => ⟨hx, rfl⟩) (hend fun _ h => by cases h)
      (HeapFrom.of_suffix (Timer.deleteTimer_suffix hr)) ?_
    rw [← ha]
    exact Timer.deleteTimer_retains hr
  | setdwnd a =>
    have hsame := c.pr.stb.tc.setdwnd_frame a
    refine hw.keep rfl hsame.sndUna (fun x hx => ⟨hx, hsame.sndNxt⟩) (hend ?_) (HeapFrom.refl _)
      (Timer.Retains.refl _ _)
    rintro pc' ⟨⟩
    exact hknown
  | third a =>
    refine hw.keep rfl rfl (fun x hx => ⟨hx, rfl⟩) (hend ?_) (HeapFrom.refl _) (Timer.Retains.refl _ _)
    rintro pc' ⟨⟩
    exact hknown
  | other a =>
    exact hw.keep rfl rfl (fun x hx => ⟨hx, rfl⟩) (hend fun _ h => by cases h) (HeapFrom.refl _)
      (Timer.Retains.refl _ _)
  | @rexmit a res hr =>
    have ha : a = c.pr.stb.tc.sndUna := hknown
    obtain ⟨hfrom, hnew⟩ := Timer.rexmitForDupAck_from hr
    refine hw.keep ?_ rfl (fun x hx => ⟨hx, rfl⟩) (hend fun _ h => by cases h) hfrom
      (Timer.rexmitForDupAck_retains hr ?_)
    · refine segmentsSince_same hs.sent_le rfl fun tx htx => ?_
      obtain ⟨n, _, rfl⟩ := hnew tx htx
      rw [Timer.sendpkt_eq]
      simp
    · intro n hn hlt
      rw [ha]
      exact hs.start_ge hb hw.una hn hlt

/-! ## Any step -/

theorem Host.SparesSend.log_eq (h : c.SparesSend c') (hk : k ≤ c.pr.sent.length) :
    segmentsSince k c'.pr = segmentsSince k c.pr := by
  obtain ⟨txs, hsent, hacks⟩ := h.acks.sent_eq
  exact segmentsSince_same hk hsent fun tx htx => (hacks tx htx).1

theorem Watched.fire (hw : Watched k base c) (hs : Streaming k base pieces c) (ho : c.Owned) {now : ℕ}
    {f : TimerHeap × Option (SockPtr × Tx)}
    (h : Timer.fireTop c.pr.table now c.pr.timerheap = .ok f) : Watched k base { c with
      pr := { c.pr with timerheap := f.1, sent := c.pr.sent ++ (f.2.map (·.2)).toList }
      timer := f.2.map fun _ => .settwnd } := by
  obtain ⟨hfrom, hfired⟩ := Timer.fireTop_from h
  refine hw.keep ?_ rfl (fun x hx => ⟨hx, rfl⟩) hw.acks hfrom
    (Timer.fireTop_retains ho h)
  refine segmentsSince_same hs.sent_le rfl fun tx htx => ?_
  cases hf : f.2 with
  | none =>
    rw [hf] at htx
    cases htx
  | some g =>
    rw [hf] at htx
    obtain ⟨n, _, rfl⟩ := hfired g hf
    rw [List.mem_singleton.mp htx, Timer.sendpkt_eq]
    simp

theorem Watched.step (hw : Watched k base c) (hs : Streaming k base pieces c)
    (hok : Host.RunOk (EndAcks k base c.pr) c) (ho : c.Owned) (hb : base + c.accepted.length < 4294967296)
    (h : c.SendStep c') : Watched k base c' := by
  have hfree : c.send = none → ∀ x, armingOf c.send = some x →
      armingOf c'.send = some x ∧ c'.pr.stb.tc.sndNxt = c.pr.stb.tc.sndNxt := by
    intro hnone x hx
    rw [hnone] at hx
    cases hx
  cases h with
  | pushsndq => exact hw.aside rfl rfl (fun x hx => ⟨hx, rfl⟩) (fun _ _ hr => hr) rfl
  | enterSend hnone => exact hw.aside rfl rfl (hfree hnone) (fun _ _ hr => hr) rfl
  | send _ hpc h => exact hw.send hs hpc h
  | procAck hpc hst htp => exact hw.procAck hok hpc hst htp
  | ack _ hpc h => exact hw.ack hs hb hpc h
  | callSend _ hnone => exact hw.aside rfl rfl (hfree hnone) (fun _ _ hr => by cases hr) rfl
  | clearAcked =>
    exact hw.keep rfl rfl (fun x hx => ⟨hx, rfl⟩) hw.acks (HeapFrom.of_suffix (Timer.clearAckedTop_suffix _ _))
      (Timer.clearAckedTop_retains c.pr.stb c.pr.timerheap)
  | fire _ h => exact hw.fire hs ho h
  | settwnd =>
    have hsame := c.pr.stb.tc.settwnd_frame
    exact hw.aside rfl hsame.sndUna (fun x hx => ⟨hx, hsame.sndNxt⟩) (fun _ _ hr => hr) rfl
  | aside ha =>
    refine hw.aside (ha.log_eq hs.sent_le) ha.acks.sndUna_eq (fun x hx => ⟨?_, ha.acks.sndNxt_eq⟩) ha.run
      ha.acks.heap_eq
    rw [ha.send_eq]
    exact hx

/-! ## Any run -/

/-- A sender with its timers, whatever arrives. -/
def QueuedSender (k base : ℕ) (c : Host) : Prop :=
  ∃ pieces, Streaming k base pieces c ∧ Host.RunOk (fun _ => True) c ∧ c.Owned ∧
    Timer.Lowest c.pr.timerheap.elems ∧ c.Stamped

/-- A sender whose peer acknowledges whole segments. -/
def WatchedSender (k base : ℕ) (c : Host) : Prop :=
  ∃ pieces, Streaming k base pieces c ∧ Host.RunOk (EndAcks k base c.pr) c ∧ c.Owned ∧ Watched k base c

theorem QueuedSender.run (h : QueuedSender k base c) (hrun : Relation.ReflTransGen (Host.Step net room) c c')
    (hb : base + c'.accepted.length < 4294967296) : QueuedSender k base c' := by
  induction hrun with
  | refl => exact h
  | tail _ hst ih =>
    have hle := hst.accepted_le
    obtain ⟨pieces, hs, hok, ho, hl, hstamp⟩ := ih (by omega)
    have hkeeps := hs.step hok (fun _ _ => trivial) (by omega) hst
    obtain ⟨more, hs'⟩ := hkeeps.streaming
    have hsend := hst.sendStep
    exact ⟨pieces ++ more, hs', hkeeps.run_ok, hs.owned ho hsend, hs.lowest ho hl hstamp hsend, hstamp.step hsend⟩

theorem WatchedSender.run (h : WatchedSender k base c)
    (hrun : Relation.ReflTransGen (Host.Step (fun c d => EndAcks k base c.pr d) room) c c')
    (hb : base + c'.accepted.length < 4294967296) : WatchedSender k base c' := by
  induction hrun with
  | refl => exact h
  | @tail a b _ hst ih =>
    have hle := hst.accepted_le
    obtain ⟨pieces, hs, hok, ho, hw⟩ := ih (by omega)
    have hkeeps := hs.step hok (fun _ hd => hd) (by omega) hst
    obtain ⟨more, hs'⟩ := hkeeps.streaming
    have hsub : segmentsSince k a.pr ⊆ segmentsSince k b.pr := by
      rw [hs.log_eq, hs'.log_eq, numbered_append]
      exact List.subset_append_left _ _
    refine ⟨pieces ++ more, hs', hkeeps.run_ok.mono ?_, hs.owned ho hst.sendStep,
      hw.step hs hok ho (by omega) hst.sendStep⟩
    intro d hd hsyn hlen
    exact (hd hsyn hlen).mono hsub

theorem owned_start {p : Process} (hopen : Opened p) (queue : List Datagram) :
    (Host.idle p queue [] []).Owned := by
  show Own p.stb.sockd p.timerheap
  unfold Own
  rw [hopen.fresh.1.timerheap]
  exact List.forall_mem_nil _

theorem lowest_start {p : Process} (hopen : Opened p) : Timer.Lowest p.timerheap.elems := by
  unfold Timer.Lowest
  rw [hopen.fresh.1.timerheap]
  exact List.forall_mem_nil _

theorem queuedSender_start {p : Process} (hopen : Opened p) (hacked : p.stb.tc.sndUna = p.stb.tc.sndNxt) :
    QueuedSender p.sent.length p.stb.tc.sndNxt (Host.idle p [] [] []) :=
  ⟨[], streaming_start hopen hacked [], runOk_start p [] [], owned_start hopen [], lowest_start hopen,
    fun _ _ h => by cases h⟩

theorem watchedSender_start {p : Process} (hopen : Opened p) (hacked : p.stb.tc.sndUna = p.stb.tc.sndNxt) :
    WatchedSender p.sent.length p.stb.tc.sndNxt (Host.idle p [] [] []) := by
  refine ⟨[], streaming_start hopen hacked [], runOk_start p [] [], owned_start hopen [], ?_⟩
  have hlog : segmentsSince p.sent.length p = [] := (streaming_start hopen hacked []).log_eq
  refine ⟨Or.inl hacked, fun _ _ h => (by cases h), ?_, ?_⟩
  · show ∀ n ∈ p.timerheap.elems, _
    rw [hopen.fresh.1.timerheap]
    exact List.forall_mem_nil _
  · show ∀ s ∈ segmentsSince p.sent.length p, _
    rw [hlog]
    exact List.forall_mem_nil _

/-! ## A fast retransmission -/

/-- A node that is not above that of the segment at `snd_una` is this node, unless it begins below. -/
theorem Watched.first_at (hw : Watched k base c) (hs : Streaming k base pieces c)
    (hb : base + c.accepted.length < 4294967296)
    (hsegs : ∀ s ∈ segmentsSince k c.pr, s.2 ≠ [] ∧ (0 : Byte) ∉ s.2) {n : Node}
    (hmem : n ∈ c.pr.timerheap.elems) (hge : c.pr.stb.tc.sndUna ≤ Timer.startOf n)
    (hfirst : ∀ m ∈ c.pr.timerheap.elems, Timer.startOf m = c.pr.stb.tc.sndUna →
      c.pr.stb.tc.sndUna < m.pId → n.pId ≤ m.pId) :
    Timer.startOf n = c.pr.stb.tc.sndUna ∧ (Timer.startOf n, n.data) ∈ segmentsSince k c.pr := by
  obtain ⟨s, hseg, hpid, hdata⟩ := hw.exact n hmem
  obtain ⟨hn, hdata'⟩ := hs.node_whole hb hseg hpid hdata (hsegs s hseg).2
  have hseg' := hs.log_eq ▸ hseg
  have hpos := List.length_pos_iff.mpr (hsegs s hseg).1
  have hpair : (Timer.startOf n, n.data) = s := by rw [hn, hdata']
  refine ⟨?_, hpair ▸ hseg⟩
  by_contra hne
  have hlt : c.pr.stb.tc.sndUna < s.1 := by omega
  have hlast := (boundary_end hseg').le_last
  have hend : endOf s = s.1 + s.2.length := rfl
  -- the segment at `snd_una` is armed too, and comes first
  obtain ⟨s', hseg₁, hs', hne'⟩ := exists_piece_at (hs.boundary hw.una) (by omega)
  have hpos' := List.length_pos_iff.mpr hne'
  have hend' : endOf s' = s'.1 + s'.2.length := rfl
  have hle : endOf s' ≤ s.1 := by
    rcases boundary_not_inside (boundary_start hseg') hseg₁ with hin | hin
    · omega
    · exact hin
  rw [← hs.log_eq] at hseg₁
  rcases hw.covered s' hseg₁ (by omega) with ⟨m, hm, hmid, hmdata⟩ | ⟨_, hnxt⟩
  · have hat := (hs.node_whole hb hseg₁ hmid hmdata (hsegs s' hseg₁).2).1
    have hfirst := hfirst m hm (by omega) (by omega)
    omega
  · have hn' := hs.nxt_eq
    omega

/-- What `rexmit_for_dup_ack` finds on top is the segment that `snd_una` is the number of. -/
theorem Watched.rexmit_at (hw : Watched k base c) (hs : Streaming k base pieces c)
    (hb : base + c.accepted.length < 4294967296) (ho : c.Owned)
    (hsegs : ∀ s ∈ segmentsSince k c.pr, s.2 ≠ [] ∧ (0 : Byte) ∉ s.2) {n : Node}
    (htop : (c.pr.timerheap.popWhile
      (Timer.before c.pr.stb.sockd timerIdSndpkt c.pr.stb.tc.sndUna)).top? = some n) :
    Timer.startOf n = c.pr.stb.tc.sndUna ∧ (Timer.startOf n, n.data) ∈ segmentsSince k c.pr := by
  have ho' : Own c.pr.stb.sockd (c.pr.timerheap.popWhile
      (Timer.before c.pr.stb.sockd timerIdSndpkt c.pr.stb.tc.sndUna)) := Own.suffix ho (List.dropWhile_suffix _)
  have hmem : n ∈ c.pr.timerheap.elems := (List.dropWhile_sublist _).subset (MinHeap.mem_of_top? htop)
  have hge : c.pr.stb.tc.sndUna ≤ Timer.startOf n := by
    have hnot := MinHeap.top?_popWhile_not htop
    have hown := ho n hmem
    by_contra hlt
    exact hnot (decide_eq_true ⟨hown.1, hown.2, not_le.mp hlt⟩)
  refine hw.first_at hs hb hsegs hmem hge fun m hm hat _ => Own.top_le ho' htop (MinHeap.mem_popWhile hm fun hp => ?_)
  have hbelow := (of_decide_eq_true hp).2.2
  exact absurd hbelow (not_lt.mpr hat.ge)

theorem Watched.rexmit (hw : Watched k base c) (hs : Streaming k base pieces c)
    (hb : base + c.accepted.length < 4294967296) (ho : c.Owned)
    (hsegs : ∀ s ∈ segmentsSince k c.pr, s.2 ≠ [] ∧ (0 : Byte) ∉ s.2) (now : ℕ) :
    ∃ q txs, Process.ackMicro now c.pr (.rexmit c.pr.stb.tc.sndUna) = .ok q ∧ q.1.sent = c.pr.sent ++ txs ∧
      txs.length ≤ 1 ∧ ((∃ n ∈ c.pr.timerheap.elems, c.pr.stb.tc.sndUna < n.pId) → txs ≠ []) ∧
      ∀ tx ∈ txs, tx.pkt.t.seq = c.pr.stb.tc.sndUna ∧
        (tx.pkt.t.seq, tx.pkt.buf) ∈ segmentsSince k c.pr := by
  unfold Process.ackMicro
  simp only [Timer.rexmitForDupAck_eq]
  cases htop : (c.pr.timerheap.popWhile
      (Timer.before c.pr.stb.sockd timerIdSndpkt c.pr.stb.tc.sndUna)).top? with
  | none =>
    unfold Timer.rexmitAt
    rw [htop]
    refine ⟨_, [], rfl, rfl, Nat.zero_le _, ?_, List.forall_mem_nil _⟩
    rintro ⟨n, hn, hlt⟩
    -- a node above `snd_una` is not popped
    have hstart := hs.start_ge hb hw.una hn hlt
    have hleft := @MinHeap.mem_popWhile _ _ _ _ _
      (Timer.before c.pr.stb.sockd timerIdSndpkt c.pr.stb.tc.sndUna) n hn
      fun hp => absurd hstart (not_le.mpr (of_decide_eq_true hp).2.2)
    rw [MinHeap.top?_eq_none.mp htop] at hleft
    cases hleft
  | some n =>
    obtain ⟨hat, hseg⟩ := hw.rexmit_at hs hb ho hsegs htop
    have hown := ho n ((List.dropWhile_sublist _).subset (MinHeap.mem_of_top? htop))
    unfold Timer.rexmitAt
    rw [htop]
    simp only [hown.1, hown.2, hat, and_self, if_true]
    refine ⟨_, [Timer.sendpkt c.pr.stb n], rfl, rfl, le_refl _, fun _ => List.cons_ne_nil _ _, ?_⟩
    intro tx htx
    rw [List.mem_singleton.mp htx, Timer.sendpkt_eq]
    have hseq : u32 ((n.pId : ℤ) - n.payloadSize) = Timer.startOf n := rfl
    rw [hseq]
    exact ⟨hat, hseg⟩

/-- When no thread is in `send`, the segment at `snd_una` is armed. -/
theorem Watched.inFlight (hw : Watched k base c) (hs : Streaming k base pieces c) (hnone : c.send = none)
    (hflight : c.pr.stb.tc.sndUna < c.pr.stb.tc.sndNxt) :
    ∃ s ∈ segmentsSince k c.pr, c.pr.stb.tc.sndUna < endOf s ∧
      ∃ n ∈ c.pr.timerheap.elems, n.pId = endOf s ∧ n.data = cstr s.2 := by
  have hnxt := hs.nxt_eq
  rw [hnone] at hnxt
  have hnxt' : c.pr.stb.tc.sndNxt = base + pieces.flatten.length := hnxt
  obtain ⟨s, hmem, hs1, hne⟩ := exists_piece_at (hs.boundary hw.una) (by omega)
  have hpos := List.length_pos_iff.mpr hne
  have hlt : c.pr.stb.tc.sndUna < endOf s := by
    unfold endOf
    omega
  rw [← hs.log_eq] at hmem
  refine ⟨s, hmem, hlt, ?_⟩
  rcases hw.covered s hmem hlt with harmed | ⟨hx, _⟩
  · exact harmed
  · rw [hnone] at hx
    cases hx

/-! ## The results -/

/-- In whatever order the threads take their steps and whatever datagrams arrive, no step of `send` and no call of
`delete_timer` ends the process, and no pass of the timer while no node was made when the clock showed 0. -/
theorem interleaved_no_halt (p : Process) (hopen : Opened p) (hacked : p.stb.tc.sndUna = p.stb.tc.sndNxt)
    (c : Host)
    (hrun : Relation.ReflTransGen (Host.Step (fun _ _ => True) fun _ _ => True) (Host.idle p [] [] []) c)
    (hb : p.stb.tc.sndNxt + c.accepted.length < 4294967296) (now : ℕ) :
    (∀ pc, c.send = some pc → ∃ r, sendMicro now c.pr pc = .ok r) ∧
      (∀ a, ∃ r, ackMicro now c.pr (.deleteTimer a) = .ok r) ∧
      ((∀ n ∈ c.pr.timerheap.elems, n.xmitms ≠ 0) →
        ∃ f, Timer.fireTop c.pr.table now c.pr.timerheap = .ok f) := by
  obtain ⟨pieces, hs, _, ho, hl, _⟩ := (queuedSender_start hopen hacked).run hrun hb
  refine ⟨fun pc hpc => hs.send_returns now hpc, fun a => ?_, fun htimed => hl.fireTop_returns htimed ho _ now⟩
  obtain ⟨r, hr⟩ := Timer.deleteTimer_returns a ho
  unfold ackMicro
  simp only [hr]
  exact ⟨_, rfl⟩

theorem interleaved_no_halt_segment : ∃ p c, Opened p ∧
    Relation.ReflTransGen (Host.Step (fun _ _ => True) fun _ _ => True) (Host.idle p [] [] []) c ∧
    c.pr.stb.tc.sndUna ≠ c.pr.stb.tc.sndNxt ∧ ∃ f, Timer.fireTop c.pr.table 5 c.pr.timerheap = .ok f := by
  obtain ⟨p, c, hopen, hacked, hrun, _, hflight, _, htimed, hb⟩ := exists_segment
  exact ⟨p, c, hopen, hrun _, hflight.ne, (interleaved_no_halt p hopen hacked c (hrun _) hb 5).2.2 htimed⟩

/-- In whatever order the threads take their steps, if the ACKs that arrive name the ends of transmitted segments,
every segment that ends above `snd_una` is armed, or it is the last one and the thread in `send` is about to arm
it. -/
theorem interleaved_coverage (p : Process) (hopen : Opened p) (hacked : p.stb.tc.sndUna = p.stb.tc.sndNxt)
    (c : Host) (hrun : Relation.ReflTransGen
      (Host.Step (fun c d => EndAcks p.sent.length p.stb.tc.sndNxt c.pr d) fun _ _ => True)
      (Host.idle p [] [] []) c)
    (hb : p.stb.tc.sndNxt + c.accepted.length < 4294967296) :
    ∀ s ∈ segmentsSince p.sent.length c.pr, c.pr.stb.tc.sndUna < endOf s →
      (∃ n ∈ c.pr.timerheap.elems, n.pId = endOf s ∧ n.data = cstr s.2) ∨
        (armingOf c.send = some s.2 ∧ endOf s = c.pr.stb.tc.sndNxt) := by
  obtain ⟨_, _, _, _, hw⟩ := (watchedSender_start hopen hacked).run hrun hb
  exact hw.covered

theorem interleaved_coverage_segment : ∃ p c s, Opened p ∧ Relation.ReflTransGen
    (Host.Step (fun c d => EndAcks p.sent.length p.stb.tc.sndNxt c.pr d) fun _ _ => True)
      (Host.idle p [] [] []) c ∧
    s ∈ segmentsSince p.sent.length c.pr ∧ c.pr.stb.tc.sndUna < endOf s ∧
    ∃ n ∈ c.pr.timerheap.elems, n.pId = endOf s ∧ n.data = cstr s.2 := by
  obtain ⟨p, c, hopen, hacked, hrun, hnone, hflight, _, _, hb⟩ := exists_segment
  obtain ⟨pieces, hs, _, _, hw⟩ := (watchedSender_start hopen hacked).run (hrun _) hb
  obtain ⟨s, hmem, hlt, _⟩ := hw.inFlight hs hnone hflight
  rcases interleaved_coverage p hopen hacked c (hrun _) hb s hmem hlt with harmed | ⟨hx, _⟩
  · exact ⟨p, c, s, hopen, hrun _, hmem, hlt, harmed⟩
  · rw [hnone] at hx
    cases hx

/-- In whatever order the threads take their steps, if the ACKs that arrive name the ends of transmitted segments,
no transmitted segment is empty and the application sends no NUL, then no step for an ACK ends the process, and a
fast retransmission sends again the segment that `snd_una` is the number of, if it is still armed, and nothing
else. -/
theorem interleaved_fast_retransmit (p : Process) (hopen : Opened p)
    (hacked : p.stb.tc.sndUna = p.stb.tc.sndNxt) (c : Host)
    (hrun : Relation.ReflTransGen
      (Host.Step (fun c d => EndAcks p.sent.length p.stb.tc.sndNxt c.pr d) fun _ _ => True)
      (Host.idle p [] [] []) c)
    (hb : p.stb.tc.sndNxt + c.accepted.length < 4294967296)
    (hsegs : ∀ s ∈ segmentsSince p.sent.length c.pr, s.2 ≠ []) (hnul : (0 : Byte) ∉ c.accepted) (now : ℕ) :
    (∀ r pc, c.run = some (.ack r pc) → ∃ q, ackMicro now c.pr pc = .ok q) ∧
      ∃ q txs, ackMicro now c.pr (.rexmit c.pr.stb.tc.sndUna) = .ok q ∧ q.1.sent = c.pr.sent ++ txs ∧
        txs.length ≤ 1 ∧ ((∃ n ∈ c.pr.timerheap.elems, c.pr.stb.tc.sndUna < n.pId) → txs ≠ []) ∧
        ∀ tx ∈ txs, tx.pkt.t.seq = c.pr.stb.tc.sndUna ∧
          (tx.pkt.t.seq, tx.pkt.buf) ∈ segmentsSince p.sent.length c.pr := by
  obtain ⟨pieces, hs, _, ho, hw⟩ := (watchedSender_start hopen hacked).run hrun hb
  have hclean : ∀ s ∈ segmentsSince p.sent.length c.pr, s.2 ≠ [] ∧ (0 : Byte) ∉ s.2 :=
    fun s hmem => ⟨hsegs s hmem, hs.no_nul hnul s hmem⟩
  have hrexmit := hw.rexmit hs hb ho hclean now
  refine ⟨?_, hrexmit⟩
  intro r pc hpc
  have hknown := hw.acks r pc hpc
  cases pc with
  | setUna | setdwnd => exact ⟨_, rfl⟩
  | deleteTimer a =>
    obtain ⟨res, hres⟩ := Timer.deleteTimer_returns a ho
    unfold ackMicro
    simp only [hres]
    exact ⟨_, rfl⟩
  | ckNumDupack a =>
    unfold ackMicro
    simp only
    split <;> exact ⟨_, rfl⟩
  | rexmit a =>
    have ha : a = c.pr.stb.tc.sndUna := hknown
    obtain ⟨q, _, hret, _⟩ := hrexmit
    exact ⟨q, ha ▸ hret⟩

theorem interleaved_fast_retransmit_segment : ∃ p c q tx, Opened p ∧ Relation.ReflTransGen
    (Host.Step (fun c d => EndAcks p.sent.length p.stb.tc.sndNxt c.pr d) fun _ _ => True)
      (Host.idle p [] [] []) c ∧
    ackMicro 5 c.pr (.rexmit c.pr.stb.tc.sndUna) = .ok q ∧ q.1.sent = c.pr.sent ++ [tx] ∧
    tx.pkt.t.seq = c.pr.stb.tc.sndUna := by
  obtain ⟨p, c, hopen, hacked, hrun, hnone, hflight, ⟨hsegs, hnul⟩, _, hb⟩ := exists_segment
  obtain ⟨pieces, hs, _, _, hw⟩ := (watchedSender_start hopen hacked).run (hrun _) hb
  obtain ⟨_, q, txs, hret, hsent, hone, hsome, hall⟩ :=
    interleaved_fast_retransmit p hopen hacked c (hrun _) hb hsegs hnul 5
  obtain ⟨s, hmem, hlt, harmed⟩ := hw.inFlight hs hnone hflight
  obtain ⟨n, hn, hpid, _⟩ := harmed
  obtain ⟨tx, rest, rfl⟩ := List.exists_cons_of_ne_nil (hsome ⟨n, hn, hpid ▸ hlt⟩)
  have hrest : rest = [] := by
    rw [List.length_cons] at hone
    exact List.length_eq_zero_iff.mp (by omega)
  subst hrest
  exact ⟨p, c, q, tx, hopen, hrun _, hret, hsent, (hall tx List.mem_cons_self).1⟩

end Steps
end Process
end TcpOverUdp
