import TcpOverUdp.Proof.HostAcks
import TcpOverUdp.Proof.OutOfOrder
import TcpOverUdp.Proof.RcvNxt

/-! # A receiver that no datagram ends, in every interleaving

A sender whose bytes have no NUL retransmits whole segments only, so what arrives at the other end is cut at the
boundaries of one stream. Then the packets in `minhp_recv` stay at or above `rcv_nxt`, but for the one that recovery
has counted and not popped yet, while the timer thread and the reader come in between the steps of `run`. As long as
no SYN is taken again, no step of a turn and no step of `timerCk::proc_delack` ends the process.
-/
namespace TcpOverUdp
open MachineInt Pieces
set_option autoImplicit false

namespace Process

section Steps
variable {k base : ℕ} {pieces more : List (List Byte)} {c c' : Host} {D D' : Datagram → Prop}
  {net : Host → Datagram → Prop} {room : Host → RunVars → Prop}

/-! ## What a step sends -/

/-- What a step of a thread hands to `sendto`. -/
inductive Transmits (c : Host) : List Tx → Prop
  | segment {v : SendVars} {len : ℤ} {pkt : TouPkg} (hpc : c.send = some (.sendto v len pkt)) :
      Transmits c [{ site := .send, dst := v.sockaddrs, pkt := pkt }]
  | empty {txs : List Tx} (h : ∀ tx ∈ txs, tx.pkt.buf = []) : Transmits c txs
  | again {txs : List Tx} (h : ∀ tx ∈ txs, ∃ n ∈ c.pr.timerheap.elems, tx = Timer.sendpkt c.pr.stb n) :
      Transmits c txs

theorem Host.SendStep.transmits (h : c.SendStep c') :
    ∃ txs, c'.pr.sent = c.pr.sent ++ txs ∧ Transmits c txs := by
  have hnone : ∀ {d : Host}, d.pr.sent = c.pr.sent → ∃ txs, d.pr.sent = c.pr.sent ++ txs ∧ Transmits c txs :=
    fun hsent => ⟨[], by rw [hsent, List.append_nil], .empty (List.forall_mem_nil _)⟩
  cases h with
  | pushsndq | enterSend | callSend | clearAcked | settwnd => exact hnone rfl
  | send _ hpc hm =>
    cases hm with
    | sendto => exact ⟨_, rfl, .segment hpc⟩
    | _ => exact hnone rfl
  | @procAck r tp =>
    obtain ⟨tc, _, hpr, _⟩ := ackFirst_effect c.pr tp
    refine hnone ?_
    show (ackFirst c.pr tp).1.sent = _
    rw [hpr]
    rfl
  | ack _ _ hm =>
    cases hm with
    | rexmit hr => exact ⟨_, rfl, .again (Timer.rexmitForDupAck_from hr).2⟩
    | _ => exact hnone rfl
  | @fire now f _ hf =>
    obtain ⟨_, hfired⟩ := Timer.fireTop_from hf
    refine ⟨_, rfl, .again fun tx htx => ?_⟩
    cases hres : f.2 with
    | none =>
      rw [hres] at htx
      cases htx
    | some g =>
      rw [hres] at htx
      obtain ⟨n, hn, rfl⟩ := hfired g hres
      exact ⟨n, hn, List.mem_singleton.mp htx⟩
  | aside ha =>
    obtain ⟨txs, hsent, hacks⟩ := ha.acks.sent_eq
    refine ⟨txs, hsent, .empty fun tx htx => ?_⟩
    obtain ⟨_, seq, hpkt⟩ := hacks tx htx
    rw [hpkt]
    rfl

/-- Whatever has data is a transmitted segment as a whole. -/
def Whole (k : ℕ) (p : Process) : Prop :=
  ∀ tx ∈ p.sent, 0 < tx.pkt.buf.length → (tx.pkt.t.seq, tx.pkt.buf) ∈ segmentsSince k p

theorem Whole.step (h : Whole k c.pr) (hs : Streaming k base pieces c) (hw : Watched k base c)
    (hb : base + c.accepted.length < 4294967296) (hnul : (0 : Byte) ∉ c.accepted) (hst : c.SendStep c') :
    Whole k c'.pr := by
  obtain ⟨txs, hsent, htrans⟩ := hst.transmits
  have hlog := segmentsSince_sent hs.sent_le hsent
  intro tx htx hpos
  rw [hlog]
  rw [hsent] at htx
  rcases List.mem_append.mp htx with hold | hnew
  · exact List.mem_append_left _ (h tx hold hpos)
  cases htrans with
  | segment hpc =>
    rw [List.mem_singleton.mp hnew]
    exact List.mem_append_right _ List.mem_cons_self
  | empty hempty =>
    rw [hempty tx hnew] at hpos
    exact absurd hpos (lt_irrefl 0)
  | again hfrom =>
    obtain ⟨n, hn, rfl⟩ := hfrom tx hnew
    obtain ⟨s, hmem, hpid, hdata⟩ := hw.exact n hn
    obtain ⟨hstart, hwhole⟩ := hs.node_whole hb hmem hpid hdata (hs.no_nul hnul s hmem)
    have hpair : ((Timer.sendpkt c.pr.stb n).pkt.t.seq, (Timer.sendpkt c.pr.stb n).pkt.buf) = s := by
      rw [Timer.sendpkt_eq]
      exact Prod.ext hstart hwhole
    rw [hpair]
    exact List.mem_append_left _ hmem

/-- The datagram is a segment of the stream, or it has no data. -/
def Cut (origin : ℕ) (theirs : List (List Byte)) (d : Datagram) : Prop :=
  0 < (recvPkg d).buf.length → IsPiece origin theirs (recvPkg d)

theorem IsPiece.append {tp : TouPkg} (h : IsPiece base pieces tp) (more : List (List Byte)) :
    IsPiece base (pieces ++ more) tp := ⟨h.pos, mem_numbered_append_left more h.mem⟩

theorem Whole.delivers (h : Whole k c.pr) (hs : Streaming k base pieces c)
    (hb : base + c.accepted.length < 4294967296) {d : Datagram} (hd : Carries c.pr.sent d) :
    Cut base pieces d := by
  intro hpos
  obtain ⟨tx, htx, hbytes⟩ := hd
  have hwire := (hs.sent tx htx).wire hs.size_le hbytes
  have hbuf : (recvPkg d).buf = tx.pkt.buf := by rw [hwire]; rfl
  have hmem := h tx htx (hbuf ▸ hpos)
  rw [hs.log_eq] at hmem
  have hlast := (boundary_start hmem).le_last
  have hend := hs.end_le
  have hseq : (recvPkg d).t.seq = tx.pkt.t.seq := by
    rw [hwire]
    exact Nat.mod_eq_of_lt (by simp only at hlast; omega)
  refine ⟨hpos, ?_⟩
  rw [hseq, hbuf]
  exact hmem

/-- No step opens a socket. -/
theorem Host.RecvStep.established (hst : c.RecvStep net room c') (h : c'.pr.stb.sockstate = .established) :
    c.pr.stb.sockstate = .established := by
  cases hst with
  | arrive | enterRun | enterDelack | recvGetAt | recvRemove | recvCheck => exact h
  | turn _ _ _ ht =>
    cases ht with
    | fin => cases h
    | sendback _ hq => exact (congrArg SockTb.sockstate (procDelack_effect hq).table_eq).symm.trans h
    | _ => exact h
  | take _ _ ht =>
    cases ht with
    | setSocketState => cases h
    | _ => exact h
  | delack _ hm => exact hm.recvSame.2.symm.trans h
  | beside hb => exact hb.spares.sockstate_eq.symm.trans h

/-! ## The order of what is put aside -/

/-- The timer thread acknowledges what was received, if `proc_delack` of `run` has not done so. -/
structure Noted (base : ℕ) (p : Process) : Prop where
  ne_immed : p.stb.tc.tDelackState ≠ .immedUpdateXmit
  node : p.stb.tc.rcvNxt = base ∨ p.ackdeque ≠ []

/-- `minhp_recv` without the packet that was counted and is popped next. -/
def waitingOf (minhpRecv : PktHeap) : Option RunAt → PktHeap
  | some (.take _ .recPop) => minhpRecv.pop
  | _ => minhpRecv

/-- Where `run` stands when no packet waits at `rcv_nxt`: recovery has been through, or nothing was received since. -/
def GapAt (runstate : RunState) : Option RunAt → Prop
  | some (.turn r) => r.state ≠ .pktRecovery ∧ runstate = .getPkt
  | some (.take _ (.recAckState retval)) | some (.take _ (.recEnd retval)) => retval = 0
  | some (.take _ .setSocketState) | some (.take _ .setTCBRcv) | some (.take _ .setAckState) => runstate = .getPkt
  | some (.take _ _) => False
  | _ => runstate = .getPkt

/-- Where `run` stands when `proc_delack` has run behind all that was received. -/
def NotedAt (runstate : RunState) : Option RunAt → Prop
  | some (.turn r) => r.state ≠ .pktRecovery ∧ r.state ≠ .ackDatarecsuccSendbackAck ∧ runstate = .getPkt
  | some (.take _ _) => False
  | _ => runstate = .getPkt

/-- What the pass of the timer thread over the deque has found out. -/
def DelackAt.Ok (p : Process) : DelackAt → Prop
  | .node _ _ => True
  | .assertRcvNxt _ _ n state => n.pId ≤ p.stb.tc.rcvNxt ∧ (state = .quexmit ∨ state = .expxmit)
  | .putSeq _ _ _ state | .putAck _ _ _ state _ | .updateAck _ _ _ state => state = .quexmit ∨ state = .expxmit

/-- The receive side between two steps. -/
structure Settled (base : ℕ) (pieces : List (List Byte)) (c : Host) : Prop where
  ahead : Ahead base pieces { c.pr.stb with minhpRecv := waitingOf c.pr.stb.minhpRecv c.run }
  top : ∀ r pkt, c.run = some (.take r (.recPut pkt)) ∨ c.run = some (.take r (.recTCBRcv pkt)) →
    c.pr.stb.minhpRecv.top? = some pkt
  gap : GapAt c.pr.stb.runstate c.run → Gap c.pr.stb
  ready : AckReady c.pr
  behind : AcksBehind c.pr
  noted : NotedAt c.pr.stb.runstate c.run → Noted base c.pr
  delack : ∀ pc, c.delack = some pc → pc.Ok c.pr

theorem Settled.append (h : Settled base pieces c) (more : List (List Byte)) :
    Settled base (pieces ++ more) c where
  ahead := ⟨h.ahead.boundary.append more, fun pkt hp => (h.ahead.held pkt hp).append more, h.ahead.nodup,
    h.ahead.ge⟩
  top := h.top
  gap := h.gap
  ready := h.ready
  behind := h.behind
  noted := h.noted
  delack := h.delack

theorem DelackAt.Ok.mono {pc : DelackAt} {p q : Process} (h : pc.Ok p)
    (hle : p.stb.tc.rcvNxt ≤ q.stb.tc.rcvNxt) : pc.Ok q := by
  cases pc with
  | assertRcvNxt => exact ⟨le_trans h.1 hle, h.2⟩
  | _ => exact h

theorem AcksBehind.mono {p q : Process} (h : AcksBehind p) (hd : q.ackdeque = p.ackdeque)
    (hle : p.stb.tc.rcvNxt ≤ q.stb.tc.rcvNxt) : AcksBehind q := by
  intro n hn
  rw [hd] at hn
  exact le_trans (h n hn) hle

theorem Noted.of_eq {p q : Process} (h : Noted base p) (hr : q.stb.tc.rcvNxt = p.stb.tc.rcvNxt)
    (hs : q.stb.tc.tDelackState = p.stb.tc.tDelackState) (hd : q.ackdeque = p.ackdeque) : Noted base q := by
  refine ⟨hs ▸ h.ne_immed, ?_⟩
  rw [hr, hd]
  exact h.node

/-! ## Beside reception -/

theorem RunBeside.gapAt {o o' : Option RunAt} (h : RunBeside o o') {st : RunState} (hg : GapAt st o') :
    GapAt st o := by
  cases h with
  | same => exact hg
  | @ack a b ha hb =>
    have hst : st = .getPkt := by
      cases b with
      | turn => exact hg.2
      | take => exact absurd hb id
      | ack | callSend | inSend => exact hg
    cases a with
    | turn r =>
      have hack : r.state = .ackWithoutData := ha
      exact ⟨by rw [hack]; decide, hst⟩
    | take => exact absurd ha id
    | ack | callSend | inSend => exact hst

theorem RunBeside.notedAt {o o' : Option RunAt} (h : RunBeside o o') {st : RunState} (hn : NotedAt st o') :
    NotedAt st o := by
  cases h with
  | same => exact hn
  | @ack a b ha hb =>
    have hst : st = .getPkt := by
      cases b with
      | turn => exact hn.2.2
      | take => exact absurd hb id
      | ack | callSend | inSend => exact hn
    cases a with
    | turn r =>
      have hack : r.state = .ackWithoutData := ha
      exact ⟨by rw [hack]; decide, by rw [hack]; decide, hst⟩
    | take => exact absurd ha id
    | ack | callSend | inSend => exact hst

theorem RunBeside.waitingOf {o o' : Option RunAt} (h : RunBeside o o') (m : PktHeap) :
    Process.waitingOf m o' = Process.waitingOf m o := by
  cases h with
  | same => rfl
  | @ack a b ha hb =>
    cases a <;> cases b <;> first | rfl | exact absurd ha id | exact absurd hb id

theorem Settled.beside (h : Settled base pieces c) (hb : c.SparesRecv c') : Settled base pieces c' := by
  have hsp := hb.spares
  have hr := hsp.recv
  refine ⟨?_, fun r pkt hpc => ?_, fun hg => ?_, ?_, ?_, fun hn => ?_, fun pc hpc => ?_⟩
  · refine h.ahead.of_eq ?_ hr.rcvNxt_eq
    show waitingOf c'.pr.stb.minhpRecv c'.run = _
    rw [hb.run.waitingOf, hr.minhpRecv_eq]
  · rw [hr.minhpRecv_eq]
    exact h.top r pkt (hpc.imp (fun ht => (hb.run.pc ht).resolve_right id) fun ht =>
      (hb.run.pc ht).resolve_right id)
  · rw [hr.runstate_eq] at hg
    exact (h.gap (hb.run.gapAt hg)).of_eq hr.minhpRecv_eq hr.rcvNxt_eq
  · exact h.ready.of_eq hsp.sockd_eq (Or.inl hsp.tDelackState_eq) hsp.ackdeque_eq
  · exact h.behind.mono hsp.ackdeque_eq hr.rcvNxt_eq.ge
  · rw [hr.runstate_eq] at hn
    exact (h.noted (hb.run.notedAt hn)).of_eq hr.rcvNxt_eq hsp.tDelackState_eq hsp.ackdeque_eq
  · exact (h.delack pc (hb.delack_eq ▸ hpc)).mono hr.rcvNxt_eq.ge

theorem Settled.of_same (h : Settled base pieces c) (hs : OrderSame c.pr.stb c'.pr.stb) (hrun : c'.run = c.run)
    (hready : AckReady c'.pr) (hbehind : AcksBehind c'.pr) (hnoted : Noted base c.pr → Noted base c'.pr)
    (hdelack : ∀ pc, c'.delack = some pc → pc.Ok c'.pr) : Settled base pieces c' := by
  refine ⟨?_, ?_, ?_, hready, hbehind, ?_, hdelack⟩
  · rw [hrun]
    exact h.ahead.of_eq (congrArg (waitingOf · c.run) hs.minhpRecv_eq) hs.rcvNxt_eq
  · rw [hrun, hs.minhpRecv_eq]
    exact h.top
  · rw [hrun, hs.runstate_eq]
    exact fun hg => (h.gap hg).of_eq hs.minhpRecv_eq hs.rcvNxt_eq
  · rw [hrun, hs.runstate_eq]
    exact fun hn => hnoted (h.noted hn)

/-! ## A step of a turn -/

section Turn
variable {now : ℕ} {r : RunVars}

/-- `run` goes on and has taken no data. -/
theorem Settled.turns (h : Settled base pieces c) (hpc : c.run = some (.turn r)) (hne : r.state ≠ .pktRecovery)
    {q : Process} {queue : List Datagram} {run : Option RunAt} (hs : OrderSame c.pr.stb q.stb)
    (hready : AckReady q) (hbehind : AcksBehind q) (hrun : run = none ∨ ∃ r', run = some (.turn r'))
    (hnoted : NotedAt q.stb.runstate run → Noted base q) :
    Settled base pieces { c with pr := q, queue := queue, run := run } := by
  have hwait : waitingOf q.stb.minhpRecv run = waitingOf c.pr.stb.minhpRecv c.run := by
    rw [hs.minhpRecv_eq, hpc]
    rcases hrun with rfl | ⟨_, rfl⟩ <;> rfl
  refine ⟨h.ahead.of_eq hwait hs.rcvNxt_eq, fun r' pkt hno => ?_, fun hg => ?_, hready, hbehind, hnoted,
    fun pc hd => (h.delack pc hd).mono hs.rcvNxt_eq.ge⟩
  · have hno' : run = some (.take r' (.recPut pkt)) ∨ run = some (.take r' (.recTCBRcv pkt)) := hno
    rcases hrun with rfl | ⟨_, rfl⟩ <;> rcases hno' with hno' | hno' <;> cases hno'
  · have hst : q.stb.runstate = .getPkt := by
      rcases hrun with rfl | ⟨_, rfl⟩
      · exact hg
      · exact hg.2
    refine (h.gap ?_).of_eq hs.minhpRecv_eq hs.rcvNxt_eq
    rw [hpc]
    exact ⟨hne, hs.runstate_eq.symm.trans hst⟩

theorem Settled.onward (h : Settled base pieces c) (hpc : c.run = some (.turn r)) (hne : r.state ≠ .pktRecovery)
    (hack : r.state ≠ .ackDatarecsuccSendbackAck) {queue : List Datagram} {run : Option RunAt}
    (hrun : run = none ∨ ∃ r', run = some (.turn r')) :
    Settled base pieces { c with queue := queue, run := run } := by
  refine h.turns hpc hne ⟨rfl, rfl, rfl⟩ h.ready h.behind hrun fun hn => h.noted ?_
  rw [hpc]
  refine ⟨hne, hack, ?_⟩
  rcases hrun with rfl | ⟨_, rfl⟩
  · exact hn
  · exact hn.2.2

/-- `run` is at a step that comes before `proc_delack`. -/
theorem Settled.table (h : Settled base pieces c) {stb : SockTb} {pc : RunAt}
    (hahead : Ahead base pieces { stb with minhpRecv := waitingOf stb.minhpRecv (some pc) })
    (htop : ∀ r' pkt, pc = .take r' (.recPut pkt) ∨ pc = .take r' (.recTCBRcv pkt) →
      stb.minhpRecv.top? = some pkt)
    (hgap : GapAt stb.runstate (some pc) → Gap stb) (hnoted : ¬ NotedAt stb.runstate (some pc))
    (hle : c.pr.stb.tc.rcvNxt ≤ stb.tc.rcvNxt) (hsockd : stb.sockd = c.pr.stb.sockd)
    (hst : stb.tc.tDelackState = c.pr.stb.tc.tDelackState ∨ stb.tc.tDelackState = .immedUpdateXmit) :
    Settled base pieces { c with pr := c.pr.setTable stb, run := some pc } where
  ahead := hahead
  top r' pkt hpc := htop r' pkt (hpc.imp Option.some.inj Option.some.inj)
  gap := hgap
  ready := h.ready.of_eq hsockd hst rfl
  behind := h.behind.mono rfl hle
  noted hn := absurd hn hnoted
  delack pc' hd := (h.delack pc' hd).mono hle

theorem procDelack_noted {now : ℕ} {p q : Process} (h : procDelack now p = .ok q) : Noted base q := by
  cases procDelack_ok h with
  | putOff _ hdeque | sent _ hdeque =>
    obtain ⟨⟨n, hn, _⟩, _⟩ := Timer.updateAck_spec hdeque
    exact ⟨fun himmed => (by cases himmed), Or.inr (List.ne_nil_of_mem hn)⟩

/-- A segment that `run` takes first in a call finds room, and none is put aside while it is there already. -/
def RoomFresh (c : Host) (r : RunVars) : Prop := RoomWhenTaken c r ∧ NotHeld (c.runSt r)

theorem Settled.turn (h : Settled base pieces c) (hlt : base + pieces.flatten.length < 4294967296)
    (hok : Host.RunOk (Cut base pieces) c) (hpc : c.run = some (.turn r)) (hout : PutOff (c.runSt r))
    (hnew : NotHeld (c.runSt r)) (hest : c'.pr.stb.sockstate = .established) (ht : TurnMove now c r c') :
    Settled base pieces c' := by
  have hahead : Ahead base pieces c.pr.stb := by
    have ha := h.ahead
    rw [hpc] at ha
    exact ha
  have hgap : r.state ≠ .pktRecovery → c.pr.stb.runstate = .getPkt → Gap c.pr.stb := by
    intro hne hst
    refine h.gap ?_
    rw [hpc]
    exact ⟨hne, hst⟩
  cases ht with
  | receive hs =>
    refine h.onward hpc ?_ ?_ (Or.inr ⟨_, rfl⟩) <;> rcases hs with hs | hs <;> rw [hs] <;> decide
  | unreceived hs =>
    refine h.onward hpc ?_ ?_ (Or.inl rfl) <;> rcases hs with hs | hs <;> rw [hs] <;> decide
  | ended hs => exact h.onward hpc (by rw [hs]; decide) (by rw [hs]; decide) (Or.inl rfl)
  | old hs => exact h.onward hpc (by rw [hs]; decide) (by rw [hs]; decide) (Or.inr ⟨_, rfl⟩)
  | noSendback hs => exact h.onward hpc (by rw [hs]; decide) (by rw [hs]; decide) (Or.inr ⟨_, rfl⟩)
  | fin => cases hest
  | syn hs =>
    exact h.table (hahead.of_eq rfl rfl) (by rintro _ _ (hno | hno) <;> cases hno)
      (fun hst => (hgap (by rw [hs]; decide) hst).of_eq rfl rfl) id (le_refl _) rfl (Or.inl rfl)
  | @inOrder tp hs htp =>
    obtain ⟨d, hd, rfl, hdata, _, hseq, _⟩ := hok.data hpc htp (Or.inl hs)
    have hpiece := hd hdata.pos
    have hnew : u32 (((recvPkg d).t.seq : ℤ) + (recvPkg d).buf.length) =
        (recvPkg d).t.seq + (recvPkg d).buf.length := hpiece.fits hlt
    have hgap' := hgap (by rw [hs]; decide) (hout.runstate_eq hs (by decide))
    refine h.table (hahead.advance hgap' hpiece (hseq hs) rfl hnew) (by rintro _ _ (hno | hno) <;> cases hno)
      (fun hg => absurd hg id) id ?_ rfl (Or.inl rfl)
    show _ ≤ u32 (((recvPkg d).t.seq : ℤ) + (recvPkg d).buf.length)
    rw [hnew, hseq hs]
    exact Nat.le_add_right _ _
  | @future tp hs htp =>
    obtain ⟨d, hd, rfl, hdata, _, _, hseq⟩ := hok.data hpc htp (Or.inr hs)
    have hpiece := hd hdata.pos
    rw [pushHpRecvBuf_eq _ hdata.pos]
    refine h.table ((hahead.push hpiece (hseq hs) (hnew hs _ htp)).of_eq rfl rfl)
      (by rintro _ _ (hno | hno) <;> cases hno) (fun hst pkt hp => ?_) id (le_refl _) rfl (Or.inl rfl)
    rcases (MinHeap.mem_push _ _ _).mp hp with rfl | hp
    · exact hseq hs
    · exact hgap (by rw [hs]; decide) hst pkt hp
  | noPkts hs he =>
    refine h.table (hahead.of_eq rfl rfl) (by rintro _ _ (hno | hno) <;> cases hno) (fun _ pkt hp => ?_) id
      (le_refl _) rfl (Or.inl rfl)
    rw [List.isEmpty_iff.mp he] at hp
    cases hp
  | pkts =>
    exact h.table (hahead.of_eq rfl rfl) (by rintro _ _ (hno | hno) <;> cases hno) (fun hg => absurd hg id) id
      (le_refl _) rfl (Or.inl rfl)
  | sendback hs hq =>
    exact h.turns hpc (by rw [hs]; decide) (procDelack_effect hq).recvSame.orderSame (procDelack_ready hq)
      (procDelack_behind hq h.behind) (Or.inr ⟨_, rfl⟩) fun _ => procDelack_noted hq

end Turn

theorem Settled.take (h : Settled base pieces c) (hs : Storing base pieces c)
    (hlt : base + pieces.flatten.length < 4294967296) {r : RunVars} {pc : TakeAt} {q : Process × RunAt}
    (hpc : c.run = some (.take r pc)) (hest : q.1.stb.sockstate = .established) (ht : TakeMove c.pr r pc q) :
    Settled base pieces { c with pr := q.1, run := some q.2 } := by
  have hahead := h.ahead
  rw [hpc] at hahead
  have htaking := hs.run _ hpc
  have hno : ∀ {st : ProcState} {r' : RunVars} {pkt : TouPkg},
      RunAt.turn { r with state := st } = .take r' (.recPut pkt) ∨
        RunAt.turn { r with state := st } = .take r' (.recTCBRcv pkt) → False := by
    rintro _ _ _ (hno | hno) <;> cases hno
  cases ht with
  | setSocketState => cases hest
  | setTCBRcv => exact absurd htaking id
  | putcircbuf =>
    exact h.table (hahead.of_eq rfl rfl) (fun _ _ hp => absurd hp hno) (fun hg => absurd rfl hg.1)
      (fun hn => hn.1 rfl) (le_refl _) rfl (Or.inl rfl)
  | setAckState =>
    refine h.table (hahead.of_eq rfl rfl) (fun _ _ hp => absurd hp hno) (fun hg => ?_) (fun hn => hn.2.1 rfl)
      (le_refl _) rfl (Or.inr rfl)
    refine (h.gap ?_).of_eq rfl rfl
    rw [hpc]
    exact hg.2
  | recNone hnone =>
    refine h.table hahead (by rintro _ _ (hp | hp) <;> cases hp) (fun _ pkt hp => ?_) id (le_refl _) rfl
      (Or.inl rfl)
    rw [MinHeap.top?_eq_none.mp hnone] at hp
    cases hp
  | recGap htop hlt' =>
    refine h.table hahead (by rintro _ _ (hp | hp) <;> cases hp) (fun _ pkt hp => ?_) id (le_refl _) rfl
      (Or.inl rfl)
    have hle := MinHeap.top?_le htop hp
    exact lt_of_lt_of_le hlt' hle
  | recNext htop =>
    refine h.table hahead ?_ (fun hg => absurd hg id) id (le_refl _) rfl (Or.inl rfl)
    rintro _ _ (hp | hp) <;> cases hp
    exact htop
  | @recPut top =>
    refine h.table (hahead.of_eq rfl rfl) ?_ (fun hg => absurd hg id) id (le_refl _) rfl (Or.inl rfl)
    rintro _ _ (hp | hp) <;> cases hp
    exact h.top r top (Or.inl hpc)
  | recRefused =>
    exact h.table (hahead.of_eq rfl rfl) (by rintro _ _ (hp | hp) <;> cases hp)
      (fun hg => absurd (show (-1 : ℤ) = 0 from hg) (by decide)) id (le_refl _) rfl (Or.inl rfl)
  | recTCBRcv top =>
    obtain ⟨hseq, _⟩ : top.t.seq = c.pr.stb.tc.rcvNxt ∧ EndsPiece base pieces top := htaking
    have htop := h.top r top (Or.inr hpc)
    have hpiece : IsPiece base pieces top := hahead.held top (MinHeap.mem_of_top? htop)
    have hnew : u32 ((top.t.seq : ℤ) + top.buf.length) = top.t.seq + top.buf.length := hpiece.fits hlt
    refine h.table (hahead.popped hlt htop hseq rfl rfl) (by rintro _ _ (hp | hp) <;> cases hp)
      (fun hg => absurd hg id) id ?_ rfl (Or.inl rfl)
    show _ ≤ u32 ((top.t.seq : ℤ) + top.buf.length)
    rw [hnew, hseq]
    exact Nat.le_add_right _ _
  | recPop =>
    exact h.table (hahead.of_eq rfl rfl) (by rintro _ _ (hp | hp) <;> cases hp) (fun hg => absurd hg id) id
      (le_refl _) rfl (Or.inl rfl)
  | recAckState retval =>
    refine h.table (hahead.of_eq rfl rfl) (by rintro _ _ (hp | hp) <;> cases hp) (fun hg => ?_) id (le_refl _) rfl
      (Or.inr rfl)
    refine (h.gap ?_).of_eq rfl rfl
    rw [hpc]
    exact hg
  | recovered =>
    refine h.table (hahead.of_eq rfl rfl) (fun _ _ hp => absurd hp hno) (fun _ => ?_) (fun hn => hn.2.1 rfl)
      (le_refl _) rfl (Or.inl rfl)
    refine (h.gap ?_).of_eq rfl rfl
    rw [hpc]
    exact rfl
  | unrecovered =>
    exact h.table (hahead.of_eq rfl rfl) (fun _ _ hp => absurd hp hno) (fun hg => by cases hg.2)
      (fun hn => by cases hn.2.2) (le_refl _) rfl (Or.inl rfl)

/-! ## The pass over the deque -/

theorem Settled.delackMove (h : Settled base pieces c) {pc : DelackAt} {q : Process × Option DelackAt}
    (hpc : c.delack = some pc) (hm : DelackMove c.pr pc q) :
    Settled base pieces { c with pr := q.1, delack := q.2 } := by
  have hok := h.delack pc hpc
  have hgo : ∀ {p : Process} {o : Option DelackAt}, p.stb = c.pr.stb → p.ackdeque = c.pr.ackdeque →
      (∀ pc', o = some pc' → pc'.Ok c.pr) → Settled base pieces { c with pr := p, delack := o } := by
    intro p o hstb hdeque ho
    have hsame : OrderSame c.pr.stb p.stb := by
      rw [hstb]
      exact ⟨rfl, rfl, rfl⟩
    refine h.of_same hsame rfl (h.ready.of_eq (by rw [hstb]) (Or.inl (by rw [hstb])) hdeque)
      (h.behind.mono hdeque hsame.rcvNxt_eq.ge) (fun hn => hn.of_eq hsame.rcvNxt_eq (by rw [hstb]) hdeque)
      fun pc' hpc' => (ho pc' hpc').mono hsame.rcvNxt_eq.ge
  cases hm with
  | finish => exact hgo rfl rfl fun _ hno => by cases hno
  | waits =>
    refine hgo rfl rfl ?_
    rintro _ ⟨⟩
    trivial
  | due hi hst =>
    refine hgo rfl rfl ?_
    rintro _ ⟨⟩
    exact ⟨h.behind _ (List.mem_of_getElem? hi), hst⟩
  | received =>
    refine hgo rfl rfl ?_
    rintro _ ⟨⟩
    exact hok.2
  | putSeq | putAck =>
    refine hgo rfl rfl ?_
    rintro _ ⟨⟩
    exact hok
  | updateAck t i n st =>
    have hst : st = .quexmit ∨ st = .expxmit := hok
    refine h.of_same ⟨rfl, rfl, rfl⟩ rfl ⟨?_, ?_⟩ (fun m hm => ?_) (fun hn => ⟨?_, hn.node.imp id fun hne => ?_⟩) ?_
    · show st ≠ .err
      rcases hst with rfl | rfl <;> decide
    · rintro (hque : st = .que)
      rcases hst with rfl | rfl <;> cases hque
    · rcases List.mem_or_eq_of_mem_set hm with hm | rfl
      · exact h.behind m hm
      · exact le_refl _
    · show st ≠ .immedUpdateXmit
      rcases hst with rfl | rfl <;> decide
    · show c.pr.ackdeque.set i _ ≠ []
      rw [ne_eq, List.set_eq_nil_iff]
      exact hne
    · rintro _ ⟨⟩
      trivial

theorem Settled.step (h : Settled base pieces c) (hread : Reading base pieces c)
    (hlt : base + pieces.flatten.length < 4294967296) (hok : Host.RunOk (Cut base pieces) c)
    (hest' : c'.pr.stb.sockstate = .established) (hst : c.RecvStep net RoomFresh c') :
    Settled base pieces c' := by
  have hs : Storing base pieces c := by
    rcases hread.standing with hs | he
    · exact hs
    · have hest := hst.established hest'
      rw [he.sockstate] at hest
      cases hest
  cases hst with
  | arrive | recvGetAt | recvCheck =>
    exact h.of_same ⟨rfl, rfl, rfl⟩ rfl h.ready h.behind id h.delack
  | recvRemove =>
    exact h.of_same ⟨rfl, rfl, rfl⟩ rfl (h.ready.of_eq rfl (Or.inl rfl) rfl) h.behind (fun hn => ⟨hn.1, hn.2⟩)
      fun pc hpc => (h.delack pc hpc).mono (le_refl _)
  | enterDelack now =>
    refine h.of_same ⟨rfl, rfl, rfl⟩ rfl h.ready h.behind id ?_
    rintro _ ⟨⟩
    trivial
  | enterRun hnone =>
    have hahead := h.ahead
    rw [hnone] at hahead
    refine ⟨hahead, (by rintro _ _ (hno | hno) <;> cases hno), fun hg => h.gap ?_, h.ready, h.behind,
      fun hn => h.noted ?_, h.delack⟩
    · rw [hnone]
      exact hg.2
    · rw [hnone]
      exact hn.2.2
  | turn hpc _ hroom ht => exact h.turn hlt hok hpc (hs.run _ hpc).1 hroom.2 hest' ht
  | take hpc _ ht => exact h.take hs hlt hpc hest' ht
  | delack hpc hm => exact h.delackMove hpc hm
  | beside hb => exact h.beside hb

theorem Host.Step.mono {room' : Host → RunVars → Prop} (hroom : ∀ c r, room c r → room' c r)
    (h : Host.Step net room c c') : Host.Step net room' c c' := by
  cases h with
  | arrive hd => exact .arrive hd
  | pushsndq hlen => exact .pushsndq hlen
  | enterSend h => exact .enterSend h
  | send hnow hpc hfree h => exact .send hnow hpc hfree h
  | enterRun h => exact .enterRun h
  | turn hpc hst hfree hr h => exact .turn hpc hst hfree (hroom _ _ hr) h
  | take hpc hfree h => exact .take hpc hfree h
  | procAck hpc hst htp => exact .procAck hpc hst htp
  | ack hnow hpc hfree h => exact .ack hnow hpc hfree h
  | callSend hpc h => exact .callSend hpc h
  | enterDelack now h ht => exact .enterDelack now h ht
  | delack hpc h => exact .delack hpc h
  | clearAcked h hd hfree => exact .clearAcked h hd hfree
  | fire hnow hpc h => exact .fire hnow hpc h
  | settwnd hpc => exact .settwnd hpc
  | recvGetAt len h => exact .recvGetAt len h
  | recvRemove hpc => exact .recvRemove hpc
  | recvCheck hpc => exact .recvCheck hpc

/-! ## What ends no process -/

/-- Whatever step of a turn `run` comes to, and wherever the timer thread is in its pass of `proc_delack`, the next
step does not end the process. -/
structure Host.GoesOn (c : Host) : Prop where
  turn : ∀ r, c.run = some (.turn r) → r.state ≠ .ackWithoutData → ∀ now, ∃ c', turnMicro now c r = .ok c'
  take : ∀ r pc, c.run = some (.take r pc) → ∃ q, takeMicro c.pr r pc = .ok q
  ack : ∀ r, c.run = some (.turn r) → r.state = .ackWithoutData → ∃ tp, r.tp = some tp
  delack : ∀ pc, c.delack = some pc → ∃ q, delackMicro c.pr pc = .ok q

theorem delackXmit_returns {stb : SockTb} (h : stb.tc.tDelackState ≠ .err) (t i : ℕ) (n : Node) :
    ∃ pc, delackXmit stb t i n = .ok pc := by
  unfold delackXmit
  cases hst : stb.tc.tDelackState with
  | err => exact absurd hst h
  | _ => exact ⟨_, rfl⟩

/-- Neither the `exit` of the pass nor the assertion of `sendack` is reached. -/
theorem Settled.delack_returns (h : Settled base pieces c) {pc : DelackAt} (hpc : c.delack = some pc) :
    ∃ q, delackMicro c.pr pc = .ok q := by
  have hok := h.delack pc hpc
  cases pc with
  | putSeq | putAck | updateAck => exact ⟨_, rfl⟩
  | assertRcvNxt t i n st =>
    simp only [delackMicro]
    rw [if_pos (show c.pr.stb.tc.rcvNxt ≥ n.pId from hok.1)]
    exact ⟨_, rfl⟩
  | node t i =>
    simp only [delackMicro]
    cases c.pr.ackdeque[i]? with
    | none => exact ⟨_, rfl⟩
    | some n =>
      obtain ⟨pc, hxmit⟩ := delackXmit_returns h.ready.ne_err t i n
      simp only [hxmit]
      exact ⟨_, rfl⟩

theorem Settled.take_returns (h : Settled base pieces c) (hok : Host.RunOk D c) {r : RunVars} {pc : TakeAt}
    (hpc : c.run = some (.take r pc)) : ∃ q, takeMicro c.pr r pc = .ok q := by
  have hknown := hok.take r pc hpc
  cases pc with
  | setSocketState | setAckState | recPut | recTCBRcv | recPop | recAckState => exact ⟨_, rfl⟩
  | setTCBRcv | putcircbuf =>
    obtain ⟨d, _, htp, _⟩ := hknown
    simp only [takeMicro, RunVars.readTp, htp]
    exact ⟨_, rfl⟩
  | recEnd retval =>
    simp only [takeMicro]
    split <;> exact ⟨_, rfl⟩
  | recLoop =>
    have hahead := h.ahead
    rw [hpc] at hahead
    simp only [takeMicro]
    cases htop : c.pr.stb.minhpRecv.top? with
    | none => exact ⟨_, rfl⟩
    | some top =>
      have hge : c.pr.stb.tc.rcvNxt ≤ top.t.seq := hahead.ge top (MinHeap.mem_of_top? htop)
      simp only
      rw [if_pos (show top.t.seq ≥ c.pr.stb.tc.rcvNxt from hge)]
      split <;> exact ⟨_, rfl⟩

/-- Whatever arrives from the peer is classified. -/
theorem Settled.runStep_returns {l origin n : ℕ} {theirs : List (List Byte)} (h : Settled base pieces c)
    (hparty : Party l origin theirs base pieces n c) (hest : c.pr.stb.sockstate = .established) {r : RunVars}
    (hpc : c.run = some (.turn r)) (hack : r.state ≠ .ackWithoutData) (hrec : r.state ≠ .pktRecovery)
    (now : ℕ) : ∃ t, runStep now (c.runSt r) = .ok t := by
  have hok := hparty.known.turn r hpc
  cases ht : runStep now (c.runSt r) with
  | ok t => exact ⟨t, rfl⟩
  | error e =>
    exfalso
    cases runStep_halt hok ht with
    | @classify d rest _ hp hc =>
      have hd := hok.pending d (hp ▸ List.mem_cons_self)
      have hun := processGetPktState_error_iff.mp hc
      refine hun.other ⟨hd.flag hun.syn, hest, ?_⟩
      by_cases hpos : 0 < (recvPkg d).buf.length
      · exact Or.inl hpos
      · -- a pure ACK names the end of a transmitted segment
        have hs := hparty.side.streaming
        have hle := (hs.boundary (hd.ends hun.syn (by omega))).le_last
        have hnxt := hs.nxt_eq
        refine Or.inr ?_
        show (recvPkg d).t.ackSeq ≤ c.pr.stb.tc.sndNxt
        omega
    | ack hst => exact hack hst
    | recovery hst => exact hrec hst
    | delack _ hp =>
      obtain ⟨q, hq⟩ := h.ready.procDelack_returns now
      rw [show procDelack now c.pr = _ from hp] at hq
      cases hq

theorem Settled.turn_returns {l origin n : ℕ} {theirs : List (List Byte)} (h : Settled base pieces c)
    (hparty : Party l origin theirs base pieces n c) (hest : c.pr.stb.sockstate = .established) {r : RunVars}
    (hpc : c.run = some (.turn r)) (hack : r.state ≠ .ackWithoutData) (now : ℕ) :
    ∃ c', Host.turnMicro now c r = .ok c' := by
  have hrun := fun hrec => h.runStep_returns hparty hest hpc hack hrec now
  unfold Host.turnMicro
  cases hs : r.state with
  | procSyn | pktRecovery => exact ⟨_, rfl⟩
  | ackWithoutData => exact absurd hs hack
  | ackWithDataMatchExpectedSeq | ackWithDataMoreExpectedSeq =>
    obtain ⟨d, hd⟩ := (hparty.known.turn r hpc).handling (by show Handles r.state; rw [hs]; trivial)
    have htp : r.tp = some (recvPkg d) := hd.tp_eq
    simp only [RunVars.readTp, htp]
    exact ⟨_, rfl⟩
  | ackDatarecsuccSendbackAck =>
    obtain ⟨q, hq⟩ := h.ready.procDelack_returns now
    simp only [hq]
    exact ⟨_, rfl⟩
  | _ =>
    obtain ⟨t, ht⟩ := hrun (by rw [hs]; decide)
    simp only [ht]
    exact ⟨_, rfl⟩

theorem Settled.goesOn {l origin n : ℕ} {theirs : List (List Byte)} (h : Settled base pieces c)
    (hparty : Party l origin theirs base pieces n c) (hest : c.pr.stb.sockstate = .established) : c.GoesOn where
  turn _ hpc hack now := h.turn_returns hparty hest hpc hack now
  take _ _ hpc := h.take_returns hparty.known hpc
  ack r hpc hst := by
    obtain ⟨d, hd⟩ := (hparty.known.turn r hpc).handling (by show Handles r.state; rw [hst]; trivial)
    exact ⟨_, hd.tp_eq⟩
  delack _ hpc := h.delack_returns hpc

end Steps

/-! ## Two processes -/

/-- The packets of `c` arrive at its peer as whole segments, and in `minhp_recv` they are in order. -/
structure Orderly (k base : ℕ) (pieces : List (List Byte)) (c peer : Host) : Prop where
  whole : Whole k c.pr
  cut : Host.RunOk (Cut base pieces) peer
  settled : peer.pr.stb.sockstate = .established → Settled base pieces peer

section Orderly
variable {k l base origin n m : ℕ} {pieces theirs more : List (List Byte)} {c c' peer peer' : Host}

theorem Orderly.sends {net : Host → Datagram → Prop} {room : Host → RunVars → Prop}
    (h : Orderly k base pieces c peer) (hparty : Party k base pieces origin theirs n c)
    (hb : base + c.accepted.length < 4294967296) (hnul : (0 : Byte) ∉ c.accepted) (more : List (List Byte))
    (hst : Host.Step net room c c') : Orderly k base (pieces ++ more) c' peer where
  whole := h.whole.step hparty.side.streaming hparty.watched hb hnul hst.sendStep
  cut := h.cut.mono fun _ hd hpos => (hd hpos).append more
  settled hest := (h.settled hest).append more

theorem Orderly.takes (h : Orderly k base pieces c peer) (hs : Streaming k base pieces c)
    (hb : base + c.accepted.length < 4294967296) (hparty : Party l origin theirs base pieces n peer)
    (ho : origin + peer.accepted.length < 4294967296)
    (hst : Host.Step (fun _ d => Carries c.pr.sent d) RoomFresh peer peer') :
    Orderly k base pieces c peer' := by
  have hend := hs.end_le
  have hnet : ∀ d, Carries c.pr.sent d → Cut base pieces d := fun d hd => h.whole.delivers hs hb hd
  refine ⟨h.whole, (hparty.side.streaming.step h.cut hnet ho hst).run_ok, fun hest' => ?_⟩
  have hest := hst.recvStep.established hest'
  exact (h.settled hest).step hparty.side.reading (by omega) h.cut hest' hst.recvStep

/-- Both processes of a connection. Only a stream without a NUL keeps its order. -/
def Orders (k l base origin : ℕ) (x : Hosts) : Prop :=
  ∃ pieces theirs, Party k base pieces origin theirs (receivedOf x.right).length x.left ∧
    Party l origin theirs base pieces (receivedOf x.left).length x.right ∧
    ((0 : Byte) ∉ x.left.accepted → Orderly k base pieces x.left x.right) ∧
    ((0 : Byte) ∉ x.right.accepted → Orderly l origin theirs x.right x.left)

variable {x y : Hosts}

theorem Orders.step (hx : Orders k l base origin x) (hb : base + x.left.accepted.length < 4294967296)
    (ho : origin + x.right.accepted.length < 4294967296) (hst : Hosts.Step RoomFresh x y) :
    Orders k l base origin y := by
  obtain ⟨pieces, theirs, hleft, hright, hlr, hrl⟩ := hx
  have hlt := hleft.side.end_lt hb
  have hlt' := hright.side.end_lt ho
  cases hst with
  | left h =>
    obtain ⟨⟨more, hleft'⟩, hle⟩ := hleft.step
      (fun d hd => hright.delivers ho hlt hleft.side.streaming hd) hb hlt' (h.mono fun _ _ hr => hr.1)
    refine ⟨pieces ++ more, theirs, hleft', hright.append more hle, fun hnul => ?_, fun hnul => ?_⟩
    · have hnul₀ : (0 : Byte) ∉ x.left.accepted := fun h0 => hnul (h.accepted_prefix.subset h0)
      exact (hlr hnul₀).sends hleft hb hnul₀ more h
    · exact (hrl hnul).takes hright.side.streaming ho hleft hb h
  | right h =>
    obtain ⟨⟨more, hright'⟩, hle⟩ := hright.step
      (fun d hd => hleft.delivers hb hlt' hright.side.streaming hd) ho hlt (h.mono fun _ _ hr => hr.1)
    refine ⟨pieces, theirs ++ more, hleft.append more hle, hright', fun hnul => ?_, fun hnul => ?_⟩
    · exact (hlr hnul).takes hleft.side.streaming hb hright ho h
    · have hnul₀ : (0 : Byte) ∉ x.right.accepted := fun h0 => hnul (h.accepted_prefix.subset h0)
      exact (hrl hnul₀).sends hright ho hnul₀ more h

theorem Orders.run (hx : Orders k l base origin x)
    (hrun : Relation.ReflTransGen (Hosts.Step RoomFresh) x y)
    (hb : base + y.left.accepted.length < 4294967296)
    (ho : origin + y.right.accepted.length < 4294967296) : Orders k l base origin y := by
  induction hrun with
  | refl => exact hx
  | tail _ hst ih =>
    have hle := hst.accepted_le
    exact (ih (by omega) (by omega)).step (by omega) (by omega) hst

theorem SentFrom.buf_nil {pkt : TouPkg} (h : SentFrom base [] pkt) : pkt.buf = [] := by
  cases h with
  | bare hbuf => exact hbuf
  | data hs => cases hs

theorem orderly_start {a b : Process} (h : Connected a b) :
    Orderly a.sent.length a.stb.tc.sndNxt [] (Host.idle a [] [] []) (Host.idle b [] [] []) := by
  have hf := h.peer_opened.fresh.1
  have hnil : ∀ P : TouPkg → Prop, ∀ pkt ∈ b.stb.minhpRecv.elems, P pkt := by
    intro P
    rw [hf.minhpRecv]
    exact List.forall_mem_nil _
  refine ⟨fun tx htx hpos => ?_, runOk_start b [] [], fun _ => ⟨⟨?_, hnil _, ?_, hnil _⟩, ?_, fun _ => hnil _,
    hf.ackReady, hf.acksBehind, fun _ => ⟨?_, Or.inl h.rcvNxt_eq⟩, fun _ hno => by cases hno⟩⟩
  · rw [(@Opened.sent a.stb.tc.sndNxt [] a h.opened tx htx).buf_nil] at hpos
    exact absurd hpos (lt_irrefl 0)
  · show Boundary _ _ b.stb.tc.rcvNxt
    rw [h.rcvNxt_eq]
    exact boundary_base _ _
  · show (b.stb.minhpRecv.elems.map _).Nodup
    rw [hf.minhpRecv]
    exact List.nodup_nil
  · rintro _ _ (hno | hno) <;> cases hno
  · show b.stb.tc.tDelackState ≠ _
    rw [hf.tDelackState]
    decide

theorem orders_start {a b : Process} (h : Connected a b) :
    Orders a.sent.length b.sent.length a.stb.tc.sndNxt b.stb.tc.sndNxt (Hosts.start a b) := by
  have hswap : Connected b a := ⟨h.peer_opened, h.opened, h.agree.symm⟩
  exact ⟨[], [], party_start h _, party_start hswap _, fun _ => orderly_start h, fun _ => orderly_start hswap⟩

/-- In whatever order the threads of the two processes of a connection take their steps and whatever the network
does, if every segment that `run` takes first in a call fits and none is put aside twice, a process that is still
established and whose peer sends no NUL is ended by no step of a turn of `run` and by no step of `proc_delack`. -/
theorem interleaved_receive_no_halt (a b : Process) (hconn : Connected a b) (x : Hosts)
    (hrun : Relation.ReflTransGen (Hosts.Step RoomFresh) (Hosts.start a b) x)
    (ha : a.stb.tc.sndNxt + x.left.accepted.length < 4294967296)
    (hb : b.stb.tc.sndNxt + x.right.accepted.length < 4294967296) :
    ((0 : Byte) ∉ x.left.accepted → x.right.pr.stb.sockstate = .established → x.right.GoesOn) ∧
      ((0 : Byte) ∉ x.right.accepted → x.left.pr.stb.sockstate = .established → x.left.GoesOn) := by
  obtain ⟨pieces, theirs, hleft, hright, hlr, hrl⟩ := (orders_start hconn).run hrun ha hb
  exact ⟨fun hnul hest => ((hlr hnul).settled hest).goesOn hright hest,
    fun hnul hest => ((hrl hnul).settled hest).goesOn hleft hest⟩

/-- A segment has arrived at the right, and `run` is about to take it. -/
theorem interleaved_receive_no_halt_segment : ∃ a b x r c', Connected a b ∧
    Relation.ReflTransGen (Hosts.Step RoomFresh) (Hosts.start a b) x ∧ x.right.queue ≠ [] ∧
    x.right.run = some (.turn r) ∧ Host.turnMicro 5 x.right r = .ok c' := by
  obtain ⟨a, b, q, payload, hconn, h₀, hlen, hnul, htou, _, htx, _⟩ := Host.exists_touSend
  obtain ⟨d, hd⟩ : ∃ d, d = segmentFrom ⟨0, 0⟩ 1 a.stb.tc.rcvNxt payload := ⟨_, rfl⟩
  have htake : payload.take (1456 : ℤ).toNat = payload := List.take_of_length_le (le_of_eq hlen)
  obtain ⟨c₁, hc₁⟩ : ∃ c₁ : Host, c₁ = { Host.idle a [] [] [] with pr := q, accepted := payload } := ⟨_, rfl⟩
  have h1 : Relation.ReflTransGen (Hosts.Step RoomFresh) (Hosts.start a b)
      { Hosts.start a b with left := c₁ } := by
    have hsteps := @Host.touSend_steps (fun _ d => Carries (Hosts.start a b).right.pr.sent d) RoomFresh 5
      (Host.idle a [] [] []) ⟨rfl, rfl, rfl, rfl, rfl⟩ Host.shows_five _ _ _ (by rw [hlen]; decide) htou
    rw [show (Host.idle a [] [] []).accepted ++ payload.take (1456 : ℤ).toNat = payload from htake] at hsteps
    exact hc₁ ▸ Hosts.left_steps hsteps
  have hcarries : Carries c₁.pr.sent d := by
    rw [hc₁, hd]
    exact carries_segmentFrom htx _ _ (List.mem_singleton.mpr rfl)
  have h2 : Host.Step (fun _ d => Carries c₁.pr.sent d) RoomFresh (Host.idle b [] [] [])
      (Host.idle b [d] [] []) := @Host.Step.arrive _ _ (Host.idle b [] [] []) d hcarries
  have h3 := @Host.Step.enterRun (fun _ d => Carries c₁.pr.sent d) RoomFresh (Host.idle b [d] [] []) rfl
  have hx := h1.trans (@Hosts.right_steps { Hosts.start a b with left := c₁ } RoomFresh _
    ((Relation.ReflTransGen.single h2).tail h3))
  have hn : a.stb.tc.sndNxt = 1 := h₀.sender.sndNxt_eq
  have hacc : c₁.accepted = payload := by rw [hc₁]
  obtain ⟨hgoes, _⟩ := interleaved_receive_no_halt a b hconn _ hx
    (by
      show a.stb.tc.sndNxt + c₁.accepted.length < 4294967296
      rw [hacc]
      omega)
    h₀.sndNxt_lt
  have hgo := hgoes (show (0 : Byte) ∉ c₁.accepted from hacc ▸ hnul) hconn.peer_opened.fresh.2
  obtain ⟨c', ht⟩ := hgo.turn _ rfl (by
    show b.stb.runstate.toProcState ≠ _
    rw [hconn.peer_opened.fresh.1.runstate]
    decide) 5
  exact ⟨a, b, _, _, c', hconn, hx, List.cons_ne_nil _ _, rfl, ht⟩

end Orderly
end Process
end TcpOverUdp
