import TcpOverUdp.Proof.HostCoverage

/-! # The ACKs that two processes send each other

What a process acknowledges is its own `rcv_nxt`, and this is the end of a segment of the other one. So the ACKs
that arrive are those that `Watched` needs, and on both sides of a connection every unacknowledged segment has
its timer, whatever the network does and in whatever order the threads take their steps.
-/
namespace TcpOverUdp
open MachineInt Pieces
set_option autoImplicit false

namespace Process

/-- The packet acknowledges one of the numbers `P`, or it is the SYN in front of the stream that begins at
`base`. -/
inductive Acks (base : ℕ) (P : ℕ → Prop) (pkt : TouPkg) : Prop
  | syn (h : pkt.t.syn = true) (hseq : pkt.t.seq + 1 = base)
  | number (h : pkt.t.syn = false) (hflag : pkt.t.ack = true) (hack : P pkt.t.ackSeq)

theorem Acks.mono {base : ℕ} {P Q : ℕ → Prop} {pkt : TouPkg} (h : Acks base P pkt) (hpq : ∀ b, P b → Q b) :
    Acks base Q pkt := by
  cases h with
  | syn hsyn hseq => exact .syn hsyn hseq
  | number hsyn hflag hack => exact .number hsyn hflag (hpq _ hack)

theorem acks_segment {base seq ackSeq : ℕ} {P : ℕ → Prop} (payload : List Byte) (h : P ackSeq) :
    Acks base P (TouPkg.segment seq ackSeq payload) := .number rfl rfl h

theorem acks_sendpkt {base : ℕ} {P : ℕ → Prop} {stb : SockTb} (h : P stb.tc.rcvNxt) (n : Node) :
    Acks base P (Timer.sendpkt stb n).pkt := by
  rw [Timer.sendpkt_eq]
  exact acks_segment _ h

/-! ## The handshake -/

theorem touConnect_acks {sockfd : ℕ} {stp : SockPtr} {sockDst : Addr} {rcvbuf : ℤ} {d : Datagram}
    {r : Bool × Process} (h : touConnect (Process.init sockfd stp) sockDst rcvbuf d = .ok r) :
    ∀ tx ∈ r.2.sent, Acks r.2.stb.tc.sndNxt (· = r.2.stb.tc.rcvNxt) tx.pkt := by
  obtain ⟨p1, h1, h⟩ := of_bind_ok h
  unfold touConnectSyn at h1
  simp only at h1
  split at h1
  swap
  · cases h1
  cases h1
  unfold touConnectAck at h
  simp only at h
  split at h
  · cases h
  split at h <;> cases h
  all_goals
    intro tx htx
    rcases List.mem_append.mp htx with htx | htx
    · rw [List.mem_singleton.mp htx]
      exact .syn rfl rfl
    · rw [List.mem_singleton.mp htx]
      exact .number rfl rfl rfl

theorem Listening.sent_nil {p : Process} (h : Listening p) : p.sent = [] := by
  induction h with
  | listen => rfl
  | run hp h ih =>
    refine reach_inv (fun q : Process => q.sent = []) ?_ ih (closed_run hp.fresh.1.runstate hp.fresh.2 h).1
    intro a b ha hst
    rw [hst.sent_eq, ha]
  | accept _ h ih =>
    obtain ⟨r1, h1, h⟩ := of_bind_ok h
    rcases touAcceptSynAck_ok h1 with ⟨_, synack, _, rfl⟩ | ⟨_, rfl⟩
    · cases h
    · cases h
      exact ih

theorem touAcceptAck_numbers (p : Process) (d : Datagram) : (touAcceptAck p d).sent = p.sent ∧
    (touAcceptAck p d).stb.tc.sndNxt = p.stb.tc.sndNxt ∧ (touAcceptAck p d).stb.tc.rcvNxt = p.stb.tc.rcvNxt := by
  unfold touAcceptAck
  simp only
  by_cases hack : u32 ((p.stb.tc.sndUna : ℤ) + 1) = (recvPkg d).t.ackSeq
  · rw [if_pos hack]
    by_cases hseq : (p.stb.setTCB p.stb.tc.sndNxt (u32 ((p.stb.tc.sndUna : ℤ) + 1))).tc.rcvNxt =
        (recvPkg d).t.seq
    · rw [if_pos hseq, ← hseq]
      exact ⟨rfl, rfl, rfl⟩
    · rw [if_neg hseq]
      exact ⟨rfl, rfl, rfl⟩
  · rw [if_neg hack]
    by_cases hseq : p.stb.tc.rcvNxt = (recvPkg d).t.seq
    · rw [if_pos hseq, ← hseq]
      exact ⟨rfl, rfl, rfl⟩
    · rw [if_neg hseq]
      exact ⟨rfl, rfl, rfl⟩

theorem touAccept_acks {p q : Process} {rand : ℕ} {rcvbuf : ℤ} {d : Datagram} (hp : p.sent = [])
    (h : touAccept p rand rcvbuf d = .ok (true, q)) :
    ∀ tx ∈ q.sent, Acks q.stb.tc.sndNxt (· = q.stb.tc.rcvNxt) tx.pkt := by
  have hseq : rand % 65535 + 1 = u32 (((rand % 65535 : ℕ) : ℤ) + 1) := (u32_add _ 1 (by omega)).symm
  obtain ⟨r1, h1, h⟩ := of_bind_ok h
  unfold touAcceptSynAck at h1
  simp only at h1
  split at h1
  swap
  · cases h1
  split at h1 <;> cases h1
  swap
  · cases h
  cases h
  obtain ⟨hsent, hnxt, hrcv⟩ := touAcceptAck_numbers _ d
  rw [hsent, hnxt, hrcv]
  intro tx htx
  rcases List.mem_append.mp htx with htx | htx
  · have hold : tx ∈ p.sent := htx
    rw [hp] at hold
    cases hold
  · rw [List.mem_singleton.mp htx]
    exact .syn rfl hseq

theorem Opened.acks {p : Process} (h : Opened p) :
    ∀ tx ∈ p.sent, Acks p.stb.tc.sndNxt (· = p.stb.tc.rcvNxt) tx.pkt := by
  cases h with
  | connect h => exact touConnect_acks h
  | accept hp h => exact touAccept_acks hp.sent_nil h

/-! ## A datagram -/

theorem recvPkg_wire {pkt : TouPkg} {d : Datagram} (hlen : pkt.buflen = pkt.buf.length)
    (hle : pkt.buf.length ≤ touSmss) (hd : d.bytes = pkt.toString) : recvPkg d = pkt.wire := by
  unfold touSmss at hle
  have hsize : pkt.toString.length ≤ recvBufSize := by
    unfold TouPkg.toString recvBufSize
    simp only [List.length_append, word32_length, word16_length, List.length_cons, List.length_nil]
    split
    · rw [hlen, Int.toNat_natCast, List.take_length]
      omega
    · exact (by decide)
  unfold recvPkg
  rw [hd, List.take_of_length_le hsize]
  exact TouPkg.ofString_wire hlen (by omega)

theorem SentFrom.wire {base : ℕ} {pieces : List (List Byte)} {pkt : TouPkg} (h : SentFrom base pieces pkt)
    (hsize : ∀ x ∈ pieces, x.length ≤ touSmss) {d : Datagram} (hd : d.bytes = pkt.toString) :
    recvPkg d = pkt.wire := by
  cases h with
  | bare hbuf hlen _ =>
    refine recvPkg_wire ?_ ?_ hd
    · rw [hlen, hbuf]
      rfl
    · rw [hbuf]
      exact Nat.zero_le _
  | @data s ackSeq payload hs hp =>
    obtain ⟨pre, post, hpieces, _⟩ := mem_numbered hs
    have hmem : s.2 ∈ pieces := by
      rw [hpieces]
      exact List.mem_append_right _ List.mem_cons_self
    exact recvPkg_wire rfl (le_trans hp.length_le (hsize _ hmem)) hd

/-- What the two numbers of a packet that arrives say. -/
theorem Acks.arrives {base : ℕ} {P : ℕ → Prop} {pkt : TouPkg} (h : Acks base P pkt)
    (hbase : base < 4294967296) (hP : ∀ b, P b → b < 4294967296) {d : Datagram} (hd : recvPkg d = pkt.wire) :
    ((recvPkg d).t.syn = true → (recvPkg d).t.seq + 1 = base) ∧
      ((recvPkg d).t.syn = false → (recvPkg d).t.ack = true ∧ P (recvPkg d).t.ackSeq) := by
  rw [hd]
  cases h with
  | syn hsyn hseq =>
    have hwire : pkt.wire.t.seq = pkt.t.seq := Nat.mod_eq_of_lt (by omega)
    refine ⟨fun _ => by rw [hwire, hseq], fun hno => ?_⟩
    have hsyn' : pkt.wire.t.syn = true := hsyn
    rw [hsyn'] at hno
    cases hno
  | number hsyn hflag hack =>
    have hwire : pkt.wire.t.ackSeq = pkt.t.ackSeq := Nat.mod_eq_of_lt (hP _ hack)
    refine ⟨fun hyes => ?_, fun _ => ⟨hflag, by rw [hwire]; exact hack⟩⟩
    have hsyn' : pkt.wire.t.syn = false := hsyn
    rw [hsyn'] at hyes
    cases hyes

/-! ## What a process sends -/

/-- The packet that `send` has made and not handed to `sendto`. -/
def SendAt.made : SendAt → Option TouPkg
  | .advance _ _ pkt | .sendto _ _ pkt => some pkt
  | _ => none

structure Acking (base : ℕ) (P : ℕ → Prop) (c : Host) : Prop where
  rcvNxt : P c.pr.stb.tc.rcvNxt
  sent : ∀ tx ∈ c.pr.sent, Acks base P tx.pkt
  made : ∀ pc pkt, c.send = some pc → pc.made = some pkt → Acks base P pkt

section Acking
variable {k base origin : ℕ} {pieces theirs : List (List Byte)} {P Q : ℕ → Prop} {c c' : Host}
  {D : Datagram → Prop} {net : Host → Datagram → Prop} {room : Host → RunVars → Prop}

theorem Acking.mono (h : Acking base P c) (hpq : ∀ b, P b → Q b) : Acking base Q c where
  rcvNxt := hpq _ h.rcvNxt
  sent tx htx := (h.sent tx htx).mono hpq
  made pc pkt hpc hmade := (h.made pc pkt hpc hmade).mono hpq

/-- A step that sends `txs` and leaves the thread in `send` where it is. -/
theorem Acking.sends (h : Acking base P c) (hrcv : P c'.pr.stb.tc.rcvNxt) (hsend : c'.send = c.send)
    {txs : List Tx} (hsent : c'.pr.sent = c.pr.sent ++ txs) (hnew : ∀ tx ∈ txs, Acks base P tx.pkt) :
    Acking base P c' := by
  refine ⟨hrcv, fun tx htx => ?_, fun pc pkt hpc => h.made pc pkt (hsend ▸ hpc)⟩
  rw [hsent] at htx
  rcases List.mem_append.mp htx with htx | htx
  · exact h.sent tx htx
  · exact hnew tx htx

theorem Acking.silent (h : Acking base P c) (hrcv : P c'.pr.stb.tc.rcvNxt) (hsend : c'.send = c.send)
    (hsent : c'.pr.sent = c.pr.sent) : Acking base P c' :=
  h.sends hrcv hsend (hsent.trans (List.append_nil _).symm) (List.forall_mem_nil _)

/-- The thread in `send` begins a call. -/
theorem Acking.enters (h : Acking base P c) {run : Option RunAt} :
    Acking base P { c with send := some (.getwnd none), run := run } := by
  refine ⟨h.rcvNxt, h.sent, ?_⟩
  rintro pc pkt ⟨⟩ hmade
  cases hmade

theorem Acking.send (h : Acking base P c) (hs : Streaming k base pieces c) {now : ℕ} {pc : SendAt}
    {r : Process × Option SendAt} (hpc : c.send = some pc) (hm : SendMove now c.pr pc r) :
    Acking base P { c with pr := r.1, send := r.2, run := Host.afterSend c.run r.2 } := by
  have hrcv : P r.1.stb.tc.rcvNxt := by
    rw [hm.spares.recv.rcvNxt_eq]
    exact h.rcvNxt
  have hquiet : ∀ {q : Process} {pc' : SendAt}, P q.stb.tc.rcvNxt → q.sent = c.pr.sent → pc'.made = none →
      Acking base P { c with pr := q, send := some pc', run := Host.afterSend c.run (some pc') } := by
    intro q pc' hq hsent hnone
    refine ⟨hq, fun tx htx => h.sent tx (hsent ▸ htx), ?_⟩
    rintro _ pkt ⟨⟩ hmade
    rw [hnone] at hmade
    cases hmade
  cases hm with
  | @genPkt v len buf pkt hpkt =>
    obtain ⟨l, rfl, _, _, hbuf⟩ := hs.send_ok _ hpc
    refine ⟨hrcv, h.sent, ?_⟩
    rintro _ _ ⟨⟩ ⟨⟩
    rw [genPkt_segment hbuf hpkt]
    exact acks_segment _ h.rcvNxt
  | advance v len pkt =>
    refine ⟨hrcv, h.sent, ?_⟩
    rintro _ _ ⟨⟩ ⟨⟩
    exact h.made _ pkt hpc rfl
  | sendto v len pkt =>
    refine ⟨hrcv, ?_, ?_⟩
    · intro tx htx
      rcases List.mem_append.mp htx with htx | htx
      · exact h.sent tx htx
      · rw [List.mem_singleton.mp htx]
        exact h.made _ pkt hpc rfl
    · rintro _ pkt' ⟨⟩ hmade
      cases hmade
  | stop | leave => exact ⟨hrcv, h.sent, fun _ _ hnone => by cases hnone⟩
  | _ => exact hquiet hrcv rfl rfl

theorem Acking.fire (h : Acking base P c) {now : ℕ} {f : TimerHeap × Option (SockPtr × Tx)}
    (hf : Timer.fireTop c.pr.table now c.pr.timerheap = .ok f) : Acking base P { c with
      pr := { c.pr with timerheap := f.1, sent := c.pr.sent ++ (f.2.map (·.2)).toList }
      timer := f.2.map fun _ => .settwnd } := by
  obtain ⟨_, hfired⟩ := Timer.fireTop_from hf
  refine h.sends h.rcvNxt rfl rfl fun tx htx => ?_
  cases hres : f.2 with
  | none =>
    rw [hres] at htx
    cases htx
  | some g =>
    rw [hres] at htx
    obtain ⟨n, _, rfl⟩ := hfired g hres
    rw [List.mem_singleton.mp htx]
    exact acks_sendpkt h.rcvNxt n

/-- Whatever a step sends acknowledges the `rcv_nxt` in front of it. -/
theorem Acking.step (h : Acking base P c) (hs : Streaming k base pieces c) (hrcv : P c'.pr.stb.tc.rcvNxt)
    (hst : c.SendStep c') : Acking base P c' := by
  cases hst with
  | pushsndq | clearAcked | settwnd => exact h.silent hrcv rfl rfl
  | enterSend => exact h.enters
  | callSend => exact h.enters
  | send _ hpc hm => exact h.send hs hpc hm
  | @procAck r tp =>
    obtain ⟨tc, _, hpr, _⟩ := ackFirst_effect c.pr tp
    refine h.silent hrcv rfl ?_
    show (ackFirst c.pr tp).1.sent = _
    rw [hpr]
    rfl
  | ack _ _ hm =>
    cases hm with
    | rexmit hr =>
      obtain ⟨_, hnew⟩ := Timer.rexmitForDupAck_from hr
      refine h.sends hrcv rfl rfl fun tx htx => ?_
      obtain ⟨n, _, rfl⟩ := hnew tx htx
      exact acks_sendpkt h.rcvNxt n
    | _ => exact h.silent hrcv rfl rfl
  | fire _ hf => exact h.fire hf
  | aside ha =>
    obtain ⟨txs, hsent, hacks⟩ := ha.acks.sent_eq
    refine h.sends hrcv ha.send_eq hsent fun tx htx => ?_
    obtain ⟨_, seq, hpkt⟩ := hacks tx htx
    rw [hpkt]
    exact acks_segment [] h.rcvNxt

/-! ## What a process acknowledges -/

/-- The SYN that arrives is the one in front of the stream. -/
def SynOf (origin : ℕ) (d : Datagram) : Prop := (recvPkg d).t.syn = true → (recvPkg d).t.seq + 1 = origin

/-- What a process may acknowledge: the end of a segment that `run` has taken. -/
structure Acknowledges (origin : ℕ) (theirs : List (List Byte)) (c : Host) (b : ℕ) : Prop where
  boundary : Boundary origin theirs b
  received : b ≤ origin + (receivedOf c).length

theorem Acknowledges.first (c : Host) : Acknowledges origin theirs c origin :=
  ⟨boundary_base _ _, Nat.le_add_right _ _⟩

/-- While segments are taken `rcv_nxt` counts no more than was received. -/
theorem Reading.acknowledges (h : Reading origin theirs c) (hest : c.pr.stb.sockstate = .established) :
    Acknowledges origin theirs c c.pr.stb.tc.rcvNxt := by
  rcases h.standing with hs | he
  · have hcount := hs.holds.count
    exact ⟨hs.boundary, by omega⟩
  · rw [he.sockstate] at hest
    cases hest

theorem receivedOf_le {m : List Byte} (hstored : storedOf c' = storedOf c ++ m)
    (hun : (unputOf c.run).length ≤ (m ++ unputOf c'.run).length) :
    (receivedOf c).length ≤ (receivedOf c').length := by
  rw [List.length_append] at hun
  unfold receivedOf
  rw [hstored]
  simp only [List.length_append]
  omega

theorem receivedOf_same (hstored : storedOf c' = storedOf c) (hun : unputOf c'.run = unputOf c.run) :
    (receivedOf c).length ≤ (receivedOf c').length := by
  unfold receivedOf
  rw [hstored, hun]

/-- What was received stays received. -/
theorem Reading.received_le (h : Reading origin theirs c) (hst : c.RecvStep net room c') :
    (receivedOf c).length ≤ (receivedOf c').length := by
  cases hst with
  | arrive | enterDelack => exact receivedOf_same rfl rfl
  | enterRun hnone => exact receivedOf_same rfl (by rw [hnone]; rfl)
  | turn hpc _ _ ht =>
    obtain ⟨hcb, hrecv, hret⟩ := ht.cbRecv_eq
    have hb : SameBytes c c' := ⟨hcb, hrecv, hret⟩
    refine receivedOf_le (m := []) (by rw [hb.storedOf_eq, List.append_nil]) ?_
    rw [hpc]
    exact Nat.zero_le _
  | @take r pc q hpc _ ht =>
    obtain ⟨more, hmore⟩ := ht.appends
    have hstored : storedOf { c with pr := q.1, run := some q.2 } = storedOf c ++ more := by
      unfold storedOf
      rw [hmore, List.append_assoc (c.returned ++ takenOf c.recv)]
    refine receivedOf_le hstored ?_
    rw [hpc]
    cases ht with
    | @putcircbuf tp n cb htp hput =>
      rcases h.standing with hs | he
      · have hall : more = tp.buf := List.append_cancel_left (hmore.symm.trans (hs.puts hpc htp hput).2)
        show ((r.tp.map TouPkg.buf).getD []).length ≤ (more ++ []).length
        rw [htp, hall, List.append_nil]
        exact le_refl _
      · rcases he.run _ hpc with hno | hno <;> cases hno
    | _ => exact Nat.zero_le _
  | delack _ hm => exact receivedOf_same (by unfold storedOf; rw [hm.recvSame.1.cbRecv_eq]) rfl
  | recvGetAt _ hnone => exact receivedOf_same (by unfold storedOf; rw [hnone]; rfl) rfl
  | recvRemove hpc =>
    obtain ⟨_, _, _, _, hmove⟩ := h.moves hpc
    exact receivedOf_same hmove rfl
  | recvCheck hpc =>
    refine receivedOf_same ?_ rfl
    unfold storedOf
    rw [h.hands hpc]
    show c.returned ++ takenOf c.recv ++ [] ++ c.pr.stb.cbRecv.contents = _
    rw [List.append_nil]
  | beside hb =>
    refine receivedOf_same ?_ hb.run.unputOf
    unfold storedOf
    rw [hb.returned_eq, hb.recv_eq, hb.spares.recv.cbRecv_eq]

/-- `rcv_nxt` stays what it was, or it counts what was received, or it goes back to the beginning. -/
inductive RcvNxtMove (origin : ℕ) (c c' : Host) : Prop
  | same (h : c'.pr.stb.tc.rcvNxt = c.pr.stb.tc.rcvNxt)
  | taken (h : c'.pr.stb.sockstate = .established)
  | back (h : c'.pr.stb.tc.rcvNxt = origin)

theorem Reading.rcvNxt_turn (hok : Host.RunOk D c) {r : RunVars} {now : ℕ} (hpc : c.run = some (.turn r))
    (ht : TurnMove now c r c') : RcvNxtMove origin c c' := by
  cases ht with
  | inOrder hs htp =>
    obtain ⟨_, _, _, _, hest, _⟩ := hok.data hpc htp (Or.inl hs)
    exact .taken hest
  | sendback _ hq => exact .same (procDelack_effect hq).recvSame.rcvNxt_eq
  | _ => exact .same rfl

theorem Reading.rcvNxt_take (h : Reading origin theirs c) (hlt : origin < 4294967296)
    (hok : Host.RunOk (SynOf origin) c) {r : RunVars} {pc : TakeAt} {q : Process × RunAt}
    (hpc : c.run = some (.take r pc)) (ht : TakeMove c.pr r pc q) :
    RcvNxtMove origin c { c with pr := q.1, run := some q.2 } := by
  cases ht with
  | @setTCBRcv tp htp =>
    obtain ⟨d, hd, htp', hsyn⟩ := hok.take r _ hpc
    cases htp.symm.trans htp'
    have hseq := hd hsyn
    exact .back ((u32_add _ 1 (by omega)).trans hseq)
  | recTCBRcv top =>
    rcases h.standing with hs | he
    · exact .taken hs.established
    · rcases he.run _ hpc with hno | hno <;> cases hno
  | _ => exact .same rfl

theorem Reading.rcvNxt_step (h : Reading origin theirs c) (hlt : origin < 4294967296)
    (hok : Host.RunOk (SynOf origin) c) (hst : c.RecvStep net room c') : RcvNxtMove origin c c' := by
  cases hst with
  | arrive | enterRun | enterDelack | recvGetAt | recvRemove | recvCheck => exact .same rfl
  | turn hpc _ _ ht => exact Reading.rcvNxt_turn hok hpc ht
  | take hpc _ ht => exact h.rcvNxt_take hlt hok hpc ht
  | delack _ hm => exact .same hm.recvSame.1.rcvNxt_eq
  | beside hb => exact .same hb.spares.recv.rcvNxt_eq

/-- What a process acknowledges stays what it may acknowledge. -/
theorem Acking.reads (ha : Acking base (Acknowledges origin theirs c) c) (h : Reading origin theirs c)
    (h' : Reading origin theirs c') (hs : Streaming k base pieces c) (hok : Host.RunOk (SynOf origin) c)
    (hlt : origin < 4294967296) (hst : Host.Step net room c c') :
    Acking base (Acknowledges origin theirs c') c' := by
  have hle := h.received_le hst.recvStep
  have hgrow : ∀ b, Acknowledges origin theirs c b → Acknowledges origin theirs c' b :=
    fun b hb => ⟨hb.boundary, le_trans hb.received (by omega)⟩
  refine (ha.mono hgrow).step hs ?_ hst.sendStep
  cases h.rcvNxt_step hlt hok hst.recvStep with
  | same heq =>
    rw [heq]
    exact hgrow _ ha.rcvNxt
  | taken hest => exact h'.acknowledges hest
  | back heq =>
    rw [heq]
    exact Acknowledges.first c'

end Acking

/-! ## What arrives -/

/-- A datagram of the peer, which has received `n` bytes of the stream from `base`: a segment of its own stream,
a SYN, or an ACK for the end of a segment that it has received. -/
structure FromPeer (k base origin : ℕ) (theirs : List (List Byte)) (n : ℕ) (p : Process) (d : Datagram) :
    Prop where
  data : FromSender origin theirs d
  syn : SynOf origin d
  flag : (recvPkg d).t.syn = false → (recvPkg d).t.ack = true
  ends : EndAcks k base p d
  received : (recvPkg d).t.syn = false → (recvPkg d).t.ackSeq ≤ base + n

section FromPeer
variable {k base origin n m : ℕ} {pieces theirs : List (List Byte)} {p q : Process} {d : Datagram}
  {c c' : Host} {D : Datagram → Prop} {net : Host → Datagram → Prop} {room : Host → RunVars → Prop}

theorem FromPeer.mono (h : FromPeer k base origin theirs n p d) (more : List (List Byte))
    (hlog : segmentsSince k p ⊆ segmentsSince k q) (hnm : n ≤ m) :
    FromPeer k base origin (theirs ++ more) m q d where
  data := ⟨h.data.1, fun hpos => (h.data.2 hpos).append more⟩
  syn := h.syn
  flag := h.flag
  ends hsyn hlen := (h.ends hsyn hlen).mono hlog
  received hsyn := le_trans (h.received hsyn) (by omega)

/-- The numbers at the boundaries of the pieces are the ends of the transmitted segments. -/
theorem Streaming.reached (hs : Streaming k base pieces c) {b : ℕ} (h : Boundary base pieces b) :
    Reached k base c.pr b := by
  obtain ⟨pre, post, hpieces, rfl⟩ := h
  rcases List.eq_nil_or_concat pre with rfl | ⟨init, last, hpre⟩
  · exact Or.inl rfl
  · rw [List.concat_eq_append] at hpre
    refine Or.inr (List.mem_map.mpr ⟨(base + init.flatten.length, last), ?_, ?_⟩)
    · rw [hs.log_eq, hpieces, hpre, List.append_assoc, numbered_append]
      exact List.mem_append_right _ List.mem_cons_self
    · rw [hpre]
      simp only [endOf, List.flatten_append, List.length_append, List.flatten_singleton]
      omega

/-! ## What is acknowledged -/

/-- Nothing above `top` is acknowledged, or about to be. -/
structure AckedTo (top : ℕ) (c : Host) : Prop where
  una_le : c.pr.stb.tc.sndUna ≤ top
  acks : ∀ r a, c.run = some (.ack r (.setUna a)) → a ≤ top

theorem AckedTo.same {top : ℕ} (h : AckedTo top c) (huna : c'.pr.stb.tc.sndUna = c.pr.stb.tc.sndUna)
    (hrun : ∀ r a, c'.run = some (.ack r (.setUna a)) → c.run = some (.ack r (.setUna a))) : AckedTo top c' :=
  ⟨le_of_eq_of_le huna h.una_le, fun r a hr => h.acks r a (hrun r a hr)⟩

theorem AckedTo.step {top : ℕ} (h : AckedTo top c) (hok : Host.RunOk D c)
    (hD : ∀ d, D d → (recvPkg d).t.syn = false → (recvPkg d).t.ackSeq ≤ top) (hst : c.SendStep c') :
    AckedTo top c' := by
  cases hst with
  | pushsndq | enterSend | clearAcked | fire => exact h.same rfl fun _ _ hr => hr
  | callSend => exact h.same rfl fun _ _ hr => by cases hr
  | send _ _ hm => exact h.same hm.sndUna_eq fun _ _ hr => afterSend_ack hr
  | @procAck r tp hpc hs htp =>
    obtain ⟨d, hd, rfl, hc⟩ := hok.acks hpc hs htp
    obtain ⟨tc, hsame, hpr, hack⟩ := ackFirst_effect c.pr (recvPkg d)
    refine ⟨?_, fun r' a hr => ?_⟩
    · show (ackFirst c.pr (recvPkg d)).1.stb.tc.sndUna ≤ top
      rw [hpr]
      exact le_of_eq_of_le hsame.sndUna h.una_le
    · obtain ⟨rfl, _⟩ := hack a (goOnAck_setUna (Option.some.inj hr))
      exact hD d hd (ackWithoutData_syn hc)
  | @ack now r pc q _ hpc hm =>
    have hnot : ∀ {o : Option AckAt}, (∀ a, o ≠ some (.setUna a)) → ∀ r' a,
        some (Host.goOnAck r o) = some (RunAt.ack r' (.setUna a)) → c.run = some (.ack r' (.setUna a)) :=
      fun ho r' a hr => absurd hr (not_setUna ho a)
    cases hm with
    | setUna a =>
      exact ⟨h.acks r a hpc, fun r' a' hr => absurd hr (not_setUna (fun _ h => by cases h) a')⟩
    | deleteTimer | third | other | rexmit => exact h.same rfl (hnot fun _ h => by cases h)
    | setdwnd a => exact h.same (c.pr.stb.tc.setdwnd_frame a).sndUna (hnot fun _ h => by cases h)
  | settwnd => exact h.same c.pr.stb.tc.settwnd_frame.sndUna fun _ _ hr => hr
  | aside ha => exact h.same ha.acks.sndUna_eq fun r a hr => ha.run r _ hr

end FromPeer

/-! ## Two processes -/

/-- A process that sends `pieces`, receives `theirs`, and has a peer that has received `n` bytes. -/
structure Party (k base : ℕ) (pieces : List (List Byte)) (origin : ℕ) (theirs : List (List Byte)) (n : ℕ)
    (c : Host) : Prop where
  side : Side k base pieces origin theirs c
  known : Host.RunOk (FromPeer k base origin theirs n c.pr) c
  acking : Acking base (Acknowledges origin theirs c) c
  acked : AckedTo (base + n) c
  owned : c.Owned
  lowest : Timer.Lowest c.pr.timerheap.elems
  stamped : c.Stamped
  watched : Watched k base c

section Party
variable {k l base origin n m : ℕ} {pieces theirs : List (List Byte)} {c c' : Host}
  {net : Host → Datagram → Prop}

theorem Party.append (h : Party k base pieces origin theirs n c) (more : List (List Byte)) (hnm : n ≤ m) :
    Party k base pieces origin (theirs ++ more) m c where
  side := h.side.append more
  known := h.known.mono fun _ hd => hd.mono more (fun _ hs => hs) hnm
  acking := h.acking.mono fun _ hb => ⟨hb.boundary.append more, hb.received⟩
  acked := ⟨le_trans h.acked.una_le (by omega), fun r a hr => le_trans (h.acked.acks r a hr) (by omega)⟩
  owned := h.owned
  lowest := h.lowest
  stamped := h.stamped
  watched := h.watched

theorem Party.step (h : Party k base pieces origin theirs n c)
    (hnet : ∀ d, net c d → FromPeer k base origin theirs n c.pr d)
    (hb : base + c.accepted.length < 4294967296) (hlt : origin + theirs.flatten.length < 4294967296)
    (hst : Host.Step net RoomWhenTaken c c') :
    (∃ more, Party k base (pieces ++ more) origin theirs n c') ∧
      (receivedOf c).length ≤ (receivedOf c').length := by
  have hs := h.side.streaming
  obtain ⟨more, hside⟩ := h.side.step (fun d hd => (hnet d hd).data) hb hlt hst
  have hknown := (hs.step h.known hnet hb hst).run_ok
  have hsub : segmentsSince k c.pr ⊆ segmentsSince k c'.pr := by
    rw [hs.log_eq, hside.streaming.log_eq, numbered_append]
    exact List.subset_append_left _ _
  refine ⟨⟨more, hside, hknown.mono fun d hd => ?_, ?_, ?_, ?_, ?_, h.stamped.step hst.sendStep, ?_⟩, ?_⟩
  · have hd' := hd.mono [] hsub (le_refl n)
    rw [List.append_nil] at hd'
    exact hd'
  · exact h.acking.reads h.side.reading hside.reading hs (h.known.mono fun _ hd => hd.syn) (by omega) hst
  · exact h.acked.step h.known (fun _ hd => hd.received) hst.sendStep
  · exact hs.owned h.owned hst.sendStep
  · exact hs.lowest h.owned h.lowest h.stamped hst.sendStep
  · exact h.watched.step hs (h.known.mono fun _ hd => hd.ends) h.owned hb hst.sendStep
  · exact h.side.reading.received_le hst.recvStep

/-- What the network delivers of the packets of a process to its peer. -/
theorem Party.delivers (h : Party k base pieces origin theirs n c) (hb : base + c.accepted.length < 4294967296)
    (hlt : origin + theirs.flatten.length < 4294967296) (hs : Streaming l origin theirs c') {d : Datagram}
    (hd : Carries c.pr.sent d) : FromPeer l origin base pieces (receivedOf c).length c'.pr d := by
  have hdata := h.side.delivers hb hd
  obtain ⟨tx, htx, hbytes⟩ := hd
  have hwire := (h.side.streaming.sent tx htx).wire h.side.streaming.size_le hbytes
  have hlast : ∀ b, Acknowledges origin theirs c b → b < 4294967296 := by
    intro b hb'
    have hle := hb'.boundary.le_last
    omega
  obtain ⟨hsyn, hack⟩ := (h.acking.sent tx htx).arrives (by omega) hlast hwire
  exact ⟨hdata, hsyn, fun hno => (hack hno).1, fun hno _ => hs.reached (hack hno).2.boundary,
    fun hno => (hack hno).2.received⟩

end Party

/-- Each of the two processes acknowledges what it has received of the other one's stream. -/
def Parties (k l base origin : ℕ) (x : Hosts) : Prop :=
  ∃ pieces theirs, Party k base pieces origin theirs (receivedOf x.right).length x.left ∧
    Party l origin theirs base pieces (receivedOf x.left).length x.right

section Parties
variable {k l base origin : ℕ} {x y : Hosts}

theorem Parties.step (hx : Parties k l base origin x) (hb : base + x.left.accepted.length < 4294967296)
    (ho : origin + x.right.accepted.length < 4294967296) (hst : Hosts.Step RoomWhenTaken x y) :
    Parties k l base origin y := by
  obtain ⟨pieces, theirs, hleft, hright⟩ := hx
  have hlt := hleft.side.end_lt hb
  have hlt' := hright.side.end_lt ho
  cases hst with
  | left h =>
    obtain ⟨⟨more, hleft'⟩, hle⟩ :=
      hleft.step (fun d hd => hright.delivers ho hlt hleft.side.streaming hd) hb hlt' h
    exact ⟨pieces ++ more, theirs, hleft', hright.append more hle⟩
  | right h =>
    obtain ⟨⟨more, hright'⟩, hle⟩ :=
      hright.step (fun d hd => hleft.delivers hb hlt' hright.side.streaming hd) ho hlt h
    exact ⟨pieces, theirs ++ more, hleft.append more hle, hright'⟩

theorem Parties.run (hx : Parties k l base origin x)
    (hrun : Relation.ReflTransGen (Hosts.Step RoomWhenTaken) x y)
    (hb : base + y.left.accepted.length < 4294967296)
    (ho : origin + y.right.accepted.length < 4294967296) : Parties k l base origin y := by
  induction hrun with
  | refl => exact hx
  | tail _ hst ih =>
    have hle := hst.accepted_le
    exact (ih (by omega) (by omega)).step (by omega) (by omega) hst

theorem party_start {a b : Process} (h : Connected a b) (n : ℕ) : Party a.sent.length a.stb.tc.sndNxt []
    b.stb.tc.sndNxt [] n (Host.idle a [] [] []) := by
  have hside := side_start h
  have hrcv : a.stb.tc.rcvNxt = b.stb.tc.sndNxt := Connected.rcvNxt_eq ⟨h.peer_opened, h.opened, h.agree.symm⟩
  have hacked : a.stb.tc.sndUna = a.stb.tc.sndNxt := by
    rcases h.agree with hab | hab
    · exact hab.client_acked
    · exact hab.server_acked
  obtain ⟨_, _, _, _, hwatched⟩ := watchedSender_start h.opened hacked
  have hfirst := @Acknowledges.first b.stb.tc.sndNxt [] (Host.idle a [] [] [])
  refine ⟨hside, runOk_start a [] [], ⟨?_, ?_, fun _ _ hnone => by cases hnone⟩, ⟨?_, fun _ _ hr => by cases hr⟩,
    owned_start h.opened [], lowest_start h.opened, (fun _ _ hno => by cases hno), hwatched⟩
  · show Acknowledges _ _ _ a.stb.tc.rcvNxt
    rw [hrcv]
    exact hfirst
  · intro tx htx
    refine (h.opened.acks tx htx).mono fun b' hb' => ?_
    rw [hb', hrcv]
    exact hfirst
  · show a.stb.tc.sndUna ≤ _
    omega

theorem parties_start {a b : Process} (h : Connected a b) :
    Parties a.sent.length b.sent.length a.stb.tc.sndNxt b.stb.tc.sndNxt (Hosts.start a b) :=
  ⟨[], [], party_start h _, party_start ⟨h.peer_opened, h.opened, h.agree.symm⟩ _⟩

/-! ## The results -/

/-- What a process holds acknowledged was received by its peer, which has stored it, but for a last payload that is
about to be put into `cb_recv` and fits. -/
structure Delivered (base : ℕ) (c peer : Host) : Prop where
  acked : c.accepted.take (c.pr.stb.tc.sndUna - base) <+: storedOf peer ++ unputOf peer.run
  in_order : storedOf peer ++ unputOf peer.run <+: c.accepted
  fits : unputOf peer.run ≠ [] → ((unputOf peer.run).length : ℤ) < peer.pr.stb.cbRecv.getAvSize

theorem Reading.unput_fits {pieces : List (List Byte)} {c : Host} (h : Reading base pieces c)
    (hne : unputOf c.run ≠ []) : ((unputOf c.run).length : ℤ) < c.pr.stb.cbRecv.getAvSize := by
  rcases h.standing with hs | he
  · cases hrun : c.run with
    | none =>
      rw [hrun] at hne
      exact absurd rfl hne
    | some pc =>
      cases pc with
      | take r pc =>
        cases pc with
        | putcircbuf =>
          obtain ⟨tp, htp, _, hfit⟩ : ∃ tp, r.tp = some tp ∧ 0 < tp.buf.length ∧
            (tp.buf.length : ℤ) < c.pr.stb.cbRecv.getAvSize := hs.run _ hrun
          show ((((r.tp.map TouPkg.buf).getD []).length : ℕ) : ℤ) < _
          rw [htp]
          exact hfit
        | _ =>
          rw [hrun] at hne
          exact absurd rfl hne
      | _ =>
        rw [hrun] at hne
        exact absurd rfl hne
  · exact absurd (RunAt.AfterSyn.unputOf he.run) hne

theorem Party.delivered {pieces theirs : List (List Byte)} {c c' : Host}
    (h : Party k base pieces origin theirs (receivedOf c').length c) (hread : Reading base pieces c') :
    Delivered base c c' := by
  have hprefix : receivedOf c' <+: c.accepted := hread.received_prefix.trans h.side.cut
  have hla := h.acked.una_le
  refine ⟨?_, hprefix, hread.unput_fits⟩
  show _ <+: receivedOf c'
  rw [List.prefix_iff_eq_take.mp hprefix]
  exact List.take_prefix_take_left (by omega)

/-- In whatever order the threads of the two processes of a connection take their steps and whatever the network
does, if every segment that `run` takes first in a call fits, the bytes that a process holds acknowledged were
received by the other one, in order and with nothing in between. -/
theorem interleaved_acked_received (a b : Process) (hconn : Connected a b) (x : Hosts)
    (hrun : Relation.ReflTransGen (Hosts.Step RoomWhenTaken) (Hosts.start a b) x)
    (ha : a.stb.tc.sndNxt + x.left.accepted.length < 4294967296)
    (hb : b.stb.tc.sndNxt + x.right.accepted.length < 4294967296) :
    Delivered a.stb.tc.sndNxt x.left x.right ∧ Delivered b.stb.tc.sndNxt x.right x.left := by
  obtain ⟨pieces, theirs, hleft, hright⟩ := (parties_start hconn).run hrun ha hb
  exact ⟨hleft.delivered hright.side.reading, hright.delivered hleft.side.reading⟩

theorem interleaved_acked_received_transfer : ∃ (a b : Process) (x y : Hosts), Connected a b ∧
    Relation.ReflTransGen (Hosts.Step RoomWhenTaken) (Hosts.start a b) y ∧
    x.left.pr.stb.tc.sndUna < y.left.pr.stb.tc.sndUna ∧ Delivered a.stb.tc.sndNxt x.left x.right ∧
    Delivered a.stb.tc.sndNxt y.left y.right := by
  obtain ⟨a, b, x, y, hconn, hrun, hacked, ha, hb, hleft, hright, _, hmore, _⟩ := exists_transfer
  exact ⟨a, b, x, y, hconn, hrun.trans hacked, hmore, (interleaved_acked_received a b hconn x hrun ha hb).1,
    (interleaved_acked_received a b hconn y (hrun.trans hacked) (hleft ▸ ha) (hright ▸ hb)).1⟩

/-- Where the bytes are that a process has accepted: received by the peer, which has stored them or has room for
them, or in a segment that has its timer or is about to get it, or not transmitted yet. -/
structure Guarded (k base : ℕ) (c peer : Host) : Prop where
  transmitted : ∃ pieces, segmentsSince k c.pr = numbered base pieces ∧
    pieces.flatten ++ (handOf c.send ++ c.pr.stb.cbSend.contents) = c.accepted
  guarded : ∀ s ∈ segmentsSince k c.pr, endOf s ≤ base + (storedOf peer ++ unputOf peer.run).length ∨
    (∃ n ∈ c.pr.timerheap.elems, n.pId = endOf s ∧ n.data = cstr s.2) ∨
    (armingOf c.send = some s.2 ∧ endOf s = c.pr.stb.tc.sndNxt)
  received : storedOf peer ++ unputOf peer.run <+: c.accepted
  fits : unputOf peer.run ≠ [] → ((unputOf peer.run).length : ℤ) < peer.pr.stb.cbRecv.getAvSize

theorem Party.guarded {pieces theirs : List (List Byte)} {c c' : Host}
    (h : Party k base pieces origin theirs (receivedOf c').length c) (hread : Reading base pieces c') :
    Guarded k base c c' := by
  have hdel := h.delivered hread
  refine ⟨⟨pieces, h.side.streaming.log_eq, h.side.streaming.accepted_eq⟩, fun s hs => ?_, hdel.in_order, hdel.fits⟩
  have hla : c.pr.stb.tc.sndUna ≤ base + (storedOf c' ++ unputOf c'.run).length := h.acked.una_le
  by_cases hlt : c.pr.stb.tc.sndUna < endOf s
  · exact Or.inr (h.watched.covered s hs hlt)
  · exact Or.inl (by omega)

/-- In whatever order the threads of the two processes of a connection take their steps and whatever the network
does, if every segment that `run` takes first in a call fits, no accepted byte is without a keeper. -/
theorem interleaved_no_loss (a b : Process) (hconn : Connected a b) (x : Hosts)
    (hrun : Relation.ReflTransGen (Hosts.Step RoomWhenTaken) (Hosts.start a b) x)
    (ha : a.stb.tc.sndNxt + x.left.accepted.length < 4294967296)
    (hb : b.stb.tc.sndNxt + x.right.accepted.length < 4294967296) :
    Guarded a.sent.length a.stb.tc.sndNxt x.left x.right ∧
      Guarded b.sent.length b.stb.tc.sndNxt x.right x.left := by
  obtain ⟨pieces, theirs, hleft, hright⟩ := (parties_start hconn).run hrun ha hb
  exact ⟨hleft.guarded hright.side.reading, hright.guarded hleft.side.reading⟩

theorem interleaved_no_loss_transfer : ∃ (a b : Process) (x y : Hosts), Connected a b ∧
    Relation.ReflTransGen (Hosts.Step RoomWhenTaken) (Hosts.start a b) y ∧
    a.stb.tc.sndNxt < x.left.pr.stb.tc.sndNxt ∧ x.left.pr.stb.tc.sndUna < y.left.pr.stb.tc.sndUna ∧
    Guarded a.sent.length a.stb.tc.sndNxt x.left x.right ∧
    Guarded a.sent.length a.stb.tc.sndNxt y.left y.right := by
  obtain ⟨a, b, x, y, hconn, hrun, hacked, ha, hb, hleft, hright, hsent, hmore, _⟩ := exists_transfer
  exact ⟨a, b, x, y, hconn, hrun.trans hacked, hsent, hmore, (interleaved_no_loss a b hconn x hrun ha hb).1,
    (interleaved_no_loss a b hconn y (hrun.trans hacked) (hleft ▸ ha) (hright ▸ hb)).1⟩

end Parties

end Process
end TcpOverUdp
