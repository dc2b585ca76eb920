import TcpOverUdp.Proof.RunEnds
import TcpOverUdp.Proof.StreamIntegrity

/-! # Recovery that finds no room

Recovery moves packets that continue `rcv_nxt` into `cb_recv`. It stalls at a packet that `cb_recv`
refuses, and it fails its assertion at a packet below `rcv_nxt`; the table it starts from decides which.
A stalled recovery leaves `runstate` at `PROCESS_PKT_RECOVERY`, and the next call of `run` starts with it:
it takes no datagram, stalls again and answers 0.
-/
namespace TcpOverUdp
open MachineInt
set_option autoImplicit false

namespace Process

/-- Packets that continue `rcv_nxt` and fit move into `cb_recv`, one after the other, until `P` holds. -/
inductive MovesTo (P : SockTb → Prop) : SockTb → Prop
  | here {stb : SockTb} (h : P stb) : MovesTo P stb
  | moved {stb : SockTb} {top : TouPkg} {n : ℤ} {cb : SockBuf} (h : Offered stb top n cb) (hn : n > 0)
      (hr : MovesTo P (movedTable stb top cb)) : MovesTo P stb

/-- `cb_recv` refuses the packet at `rcv_nxt`. -/
def NoRoom (stb : SockTb) : Prop :=
  ∃ top, stb.minhpRecv.top? = some top ∧ top.t.seq = stb.tc.rcvNxt ∧
    ¬ (stb.cbRecv.insert top.buf top.buf.length).1 > 0

/-- The least packet begins below `rcv_nxt`. -/
def Below (stb : SockTb) : Prop :=
  ∃ top, stb.minhpRecv.top? = some top ∧ top.t.seq < stb.tc.rcvNxt

def Stalled (stb : SockTb) : Prop := MovesTo NoRoom stb

def Overlapped (stb : SockTb) : Prop := MovesTo Below stb

/-! ## What recovery answers -/

theorem NoRoom.of_same {a b : SockTb} (h : NoRoom a) (hheap : b.minhpRecv = a.minhpRecv)
    (hrcv : b.tc.rcvNxt = a.tc.rcvNxt) (hcb : b.cbRecv = a.cbRecv) : NoRoom b := by
  obtain ⟨top, htop, hseq, hn⟩ := h
  refine ⟨top, by rw [hheap, htop], hseq.trans hrcv.symm, ?_⟩
  rw [hcb]
  exact hn

theorem putcircbuf_insert {stb : SockTb} {str : List Byte} {len n : ℤ} {cb : SockBuf}
    (h : putcircbuf stb str len = (n, { stb with cbRecv := cb })) :
    (stb.cbRecv.insert str len).1 = n ∧ (stb.cbRecv.insert str len).2 = cb := by
  unfold putcircbuf SockTb.setCbData at h
  exact ⟨congrArg Prod.fst h, congrArg (fun x => x.2.cbRecv) h⟩

/-- A packet that was refused is still at `rcv_nxt`, and would be refused again. -/
theorem Offered.noRoom {stb : SockTb} {top : TouPkg} {n : ℤ} {cb : SockBuf} (h : Offered stb top n cb)
    (hn : ¬ n > 0) : NoRoom stb ∧ NoRoom { stb with cbRecv := cb } := by
  obtain ⟨hret, hcb⟩ := putcircbuf_insert h.put_eq
  rw [← hret] at hn
  have hroom : NoRoom stb := ⟨top, h.top_eq, h.seq_eq, hn⟩
  exact ⟨hroom, hroom.of_same rfl rfl (hcb.symm.trans (RingBuf.insert_ret_zero _ _ _ hn))⟩

theorem Recovery.stalled {stb q : SockTb} {ret : ℤ} (h : Recovery stb (.ok (ret, q))) (hret : ret ≠ 0) :
    Stalled stb := by
  generalize hr : (Except.ok (ret, q) : Except Halt (ℤ × SockTb)) = r at h
  induction h with
  | empty | gap =>
    cases hr
    exact absurd rfl hret
  | refused h hn => exact MovesTo.here (h.noRoom hn).1
  | failed => cases hr
  | moved h hn _ ih => exact MovesTo.moved h hn (ih hr)

theorem Recovery.overlapped {stb : SockTb} {e : Halt} (h : Recovery stb (.error e)) : Overlapped stb := by
  generalize hr : (Except.error e : Except Halt (ℤ × SockTb)) = r at h
  induction h with
  | empty | gap | refused => cases hr
  | failed h hlt => exact MovesTo.here ⟨_, h, hlt⟩
  | moved h hn _ ih => exact MovesTo.moved h hn (ih hr)

/-- Moves do not change what recovery comes to. -/
theorem MovesTo.loop {P : SockTb → Prop} {Q : Except Halt (ℤ × SockTb) → Prop}
    (hP : ∀ stb k, P stb → stb.minhpRecv.size ≤ k → Q (doProcPktRecLoop k stb)) {stb : SockTb} {k : ℕ}
    (h : MovesTo P stb) (hk : stb.minhpRecv.size ≤ k) : Q (doProcPktRecLoop k stb) := by
  induction h generalizing k with
  | here h => exact hP _ _ h hk
  | @moved stb top n cb h hn _ ih =>
    have hpos := MinHeap.size_pos_of_top? h.top_eq
    obtain ⟨m, rfl⟩ : ∃ m, k = m + 1 := ⟨k - 1, by omega⟩
    have hsize := MinHeap.size_pop stb.minhpRecv
    rw [doProcPktRecLoop_offered h, if_pos hn]
    refine ih ?_
    show stb.minhpRecv.pop.size ≤ m
    omega

theorem Stalled.loop {stb : SockTb} (h : Stalled stb) :
    ∃ q, NoRoom q ∧ doProcPktRec stb = .ok (-1, q) := by
  refine MovesTo.loop (Q := fun r => ∃ q, NoRoom q ∧ r = .ok (-1, q)) ?_ h le_rfl
  rintro stb k ⟨top, htop, hseq, hn⟩ hk
  have hpos := MinHeap.size_pos_of_top? htop
  obtain ⟨m, rfl⟩ : ∃ m, k = m + 1 := ⟨k - 1, by omega⟩
  have hoff : Offered stb top _ _ := ⟨htop, hseq, rfl⟩
  rw [doProcPktRecLoop_offered hoff, if_neg hn]
  exact ⟨_, (hoff.noRoom hn).2, rfl⟩

theorem Overlapped.loop {stb : SockTb} (h : Overlapped stb) :
    doProcPktRec stb = .error (.assertFail .doProcPktRec) := by
  refine MovesTo.loop (Q := fun r => r = .error (.assertFail .doProcPktRec)) ?_ h le_rfl
  rintro stb k ⟨top, htop, hlt⟩ hk
  have hpos := MinHeap.size_pos_of_top? htop
  obtain ⟨m, rfl⟩ : ∃ m, k = m + 1 := ⟨k - 1, by omega⟩
  rw [doProcPktRecLoop, htop]
  simp only
  rw [if_neg (by omega)]

theorem MovesTo.isEmpty {P : SockTb → Prop} (hP : ∀ stb, P stb → ∃ top, stb.minhpRecv.top? = some top)
    {stb : SockTb} (h : MovesTo P stb) : ¬ stb.minhpRecv.isEmpty = true := by
  have htop : ∃ top, stb.minhpRecv.top? = some top := by
    cases h with
    | here h => exact hP _ h
    | moved h => exact ⟨_, h.top_eq⟩
  intro hempty
  obtain ⟨top, htop⟩ := htop
  rw [MinHeap.top?_eq_none.mpr (List.isEmpty_iff.mp hempty)] at htop
  cases htop

theorem Stalled.procPktRec {stb : SockTb} (h : Stalled stb) :
    ∃ q, NoRoom q ∧ Process.procPktRec stb = .ok (-1, q.setAckState .immedUpdateXmit) := by
  obtain ⟨q, hq, hloop⟩ := h.loop
  refine ⟨q, hq, ?_⟩
  unfold Process.procPktRec
  rw [if_neg (h.isEmpty fun _ h => ⟨_, h.choose_spec.1⟩), hloop]
  rfl

theorem Overlapped.procPktRec {stb : SockTb} (h : Overlapped stb) :
    Process.procPktRec stb = .error (.assertFail .doProcPktRec) := by
  unfold Process.procPktRec
  rw [if_neg (h.isEmpty fun _ h => ⟨_, h.choose_spec.1⟩), h.loop]
  rfl

/-- `proc_pkt_rec` answers another number than 0 only on a stalled table. -/
theorem stalled_of_procPktRec {stb : SockTb} {r : ℤ × SockTb} (h : procPktRec stb = .ok r)
    (hret : r.1 ≠ 0) : Stalled stb := by
  rcases procPktRec_cases stb with ⟨_, hr⟩ | ⟨res, hres, hr⟩
  · rw [hr] at h
    cases h
    exact absurd rfl hret
  · rw [hr] at h
    obtain ⟨x, rfl, hx⟩ := of_bind_ok h
    cases hx
    exact hres.stalled hret

/-- It fails its assertion only on an overlapped table. -/
theorem overlapped_of_procPktRec {stb : SockTb} {e : Halt} (h : procPktRec stb = .error e) :
    Overlapped stb := by
  rcases procPktRec_cases stb with ⟨_, hr⟩ | ⟨res, hres, hr⟩
  · rw [hr] at h
    cases h
  · rw [hr] at h
    rcases of_bind_error h with rfl | ⟨_, _, h⟩
    · exact hres.overlapped
    · cases h

/-! ## A call of `run` that starts with a stalled recovery -/

/-- The next call of `run` starts with a recovery that stalls. -/
structure Spinning (p : Process) : Prop where
  runstate : p.stb.runstate = .pktRecovery
  stalled : Stalled p.stb

theorem runStep_stalled (now : ℕ) {s : RunSt} (hs : s.state = .pktRecovery) (h : Stalled s.pr.stb) :
    ∃ q, runStep now s = .ok (.next (s.goto q .ackDatarecsuccNoSendbackAck)) ∧ Spinning q ∧
      q.timerheap = s.pr.timerheap := by
  obtain ⟨stb, hroom, hrec⟩ := h.procPktRec
  refine ⟨s.pr.setTable ((stb.setAckState .immedUpdateXmit).setRunstate .pktRecovery), ?_,
    ⟨rfl, MovesTo.here (hroom.of_same rfl rfl rfl)⟩, rfl⟩
  unfold runStep
  rw [hs, hrec]
  rfl

/-- The turns from a stalled recovery on: the call takes nothing more. -/
theorem runLoop_stalled (now k : ℕ) {s : RunSt} (hs : s.state = .pktRecovery) (h : Stalled s.pr.stb) :
    ∃ q, fuelLoop .outOfFuel (runStep now) (k + 3) s =
      .ok { rv := s.rv, pr := q, pending := s.pending } ∧ Spinning q ∧
      q.timerheap = s.pr.timerheap := by
  obtain ⟨q, hstep, hq, hheap⟩ := runStep_stalled now hs h
  have hrun : (s.goto q .ackDatarecsuccNoSendbackAck).pr.stb.runstate ≠ .getPkt := by
    show q.stb.runstate ≠ .getPkt
    rw [hq.runstate]
    decide
  exact ⟨q, (fuelLoop_next hstep).trans (runLoop_noSendback now k rfl (Or.inr hrun)), hq, hheap⟩

/-- The call takes no datagram, answers 0 and leaves a process of the same kind. -/
theorem Spinning.run {p : Process} (h : Spinning p) (now : ℕ) (pending : List Datagram) :
    ∃ q, Process.run now p pending = .ok { rv := 0, pr := q, pending := pending } ∧ Spinning q := by
  obtain ⟨q, hloop, hq, _⟩ := runLoop_stalled now (6 * pending.length + 5)
    (runSt_pktRecovery h.runstate pending) h.stalled
  exact ⟨q, hloop, hq⟩

/-! ## A session that comes to it -/

/-- A client that has sent one byte, for which a timer runs. -/
theorem exists_sender : ∃ p, Session p ∧ Idle p ∧ p.stb.tc.rcvNxt = 1 ∧ p.stb.cbRecv.contents = [] ∧
    p.timerheap.elems ≠ [] := by
  have hone : ((touConnect (Process.init 3 1) ⟨2, 80⟩ 425984 (synAckFrom ⟨2, 80⟩ 0 1) >>=
      fun c => touSend 5 c.2 [65] 1).toOption.map fun r => r.2.timerheap.elems.length) = some 1 := by
    decide +kernel
  obtain ⟨c, hc, hopen, hrcv⟩ := exists_client
  have hf := hopen.fresh.1
  rw [hc, ok_bind] at hone
  cases hsend : touSend 5 c [65] 1 with
  | error e =>
    rw [hsend] at hone
    cases hone
  | ok r =>
    rw [hsend] at hone
    have hsess : Session r.2 := ⟨c, hopen, Relation.ReflTransGen.single (ProcStepIf.touSend hsend)⟩
    obtain ⟨pieces, he⟩ := send_ok (touSend_ok hsend).2
    have ht := he.table_eq
    have hready := hsess.sound.ackReady
    refine ⟨r.2, hsess, ⟨?_, ?_, ?_, hready⟩, ?_, ?_, ?_⟩
    · rw [ht]
      exact hopen.fresh.2
    · rw [ht]
      exact hf.runstate
    · rw [ht]
      exact hf.minhpRecv
    · rw [ht]
      exact hrcv
    · rw [ht]
      exact hf.cbRecv
    · intro hnil
      rw [Except.toOption, Option.map_some, hnil] at hone
      cases hone

/-- After `k` segments that the application did not read. -/
theorem exists_filled (k : ℕ) (hk : k ≤ 4321) : ∃ p, Session p ∧ Idle p ∧
    p.stb.tc.rcvNxt = 1 + 1456 * k ∧ p.stb.cbRecv.contents.length = 1456 * k ∧
    p.timerheap.elems ≠ [] := by
  induction k with
  | zero =>
    obtain ⟨p, hsess, hidle, hrcv, hnil, htimer⟩ := exists_sender
    exact ⟨p, hsess, hidle, hrcv, by rw [hnil]; rfl, htimer⟩
  | succ k ih =>
    obtain ⟨p, ⟨p₀, hopen, hsteps⟩, hidle, hrcv, hlen, htimer⟩ := ih (by omega)
    obtain ⟨r, hrun, hidle', hrcv', hheap, hlen'⟩ := hidle.run_zeroSegment (by omega) hrcv
    have hroom : 1456 * k + 1456 < touMaxCircularBuf := by
      unfold touMaxCircularBuf
      omega
    rw [hlen, if_pos hroom] at hlen'
    exact ⟨r.pr, ⟨p₀, hopen, hsteps.tail (ProcStepIf.run trivial hrun)⟩, hidle', hrcv', by omega,
      by rw [hheap]; exact htimer⟩

/-- An established socket that holds one packet out of order. -/
structure HoldsOne (p : Process) (tp : TouPkg) : Prop where
  established : p.stb.sockstate = .established
  runstate : p.stb.runstate = .getPkt
  minhpRecv : p.stb.minhpRecv.elems = [tp]

theorem classify_future {stb : SockTb} {tp : TouPkg} (hd : IsData tp) (hseq : stb.tc.rcvNxt < tp.t.seq)
    (hst : stb.sockstate = .established) :
    processGetPktState stb tp = .ok .ackWithDataMoreExpectedSeq := by
  rw [processGetPktState_data hst hd, (cmp_eq_gt_iff _ _).2 hseq]
  rfl

/-- A packet above `rcv_nxt` is put aside. -/
theorem Idle.run_future (now : ℕ) {p : Process} {d : Datagram} (hp : Idle p) (hd : IsData (recvPkg d))
    (hseq : p.stb.tc.rcvNxt < (recvPkg d).t.seq) :
    ∃ r, run now p [d] = .ok r ∧ HoldsOne r.pr (recvPkg d) ∧
      r.pr.stb.tc.rcvNxt = p.stb.tc.rcvNxt ∧ r.pr.stb.cbRecv = p.stb.cbRecv ∧
      r.pr.timerheap = p.timerheap := by
  obtain ⟨s, hs⟩ : ∃ s, s = (runSt p [d]).took d [] .ackWithDataMoreExpectedSeq := ⟨_, rfl⟩
  obtain ⟨a, ha⟩ : ∃ a, a = p.setTable ((p.stb.pushHpRecvBuf (recvPkg d)).setAckState .immedUpdateXmit) :=
    ⟨_, rfl⟩
  have hfirst : runStep now (runSt p [d]) = .ok (.next s) := by
    rw [hs]
    exact runStep_start now hp.runstate hd.bytes_ne (classify_future hd hseq hp.established)
  have hpush : runStep now s = .ok (.next (s.goto a .ackDatarecsuccSendbackAck)) := by
    rw [hs, ha]
    rfl
  have hstb : a.stb = { p.stb with
      minhpRecv := p.stb.minhpRecv.push (recvPkg d)
      tc := { p.stb.tc with tDelackState := .immedUpdateXmit } } := by
    rw [ha, pushHpRecvBuf_eq _ hd.pos]
    rfl
  have hready : AckReady a := by
    rw [ha, pushHpRecvBuf_eq _ hd.pos]
    exact hp.ackReady.of_eq rfl (Or.inr rfl) rfl
  obtain ⟨q, hq⟩ := hready.procDelack_returns now
  have hloop := runLoop_sendback now 10 (s := s.goto a .ackDatarecsuccSendbackAck) rfl (by rw [hs]; rfl) hq
  have hsame := (procDelack_effect hq).recvSame
  have htable := (procDelack_effect hq).table_eq
  have hheap : a.timerheap = p.timerheap := by
    rw [ha]
    rfl
  have hk : runFuel [d] = 10 + 2 + 1 + 1 := rfl
  refine ⟨{ rv := s.rv, pr := q, pending := [] }, ?_, ⟨?_, ?_, ?_⟩, ?_, ?_,
    (procDelack_effect hq).heap_eq.trans hheap⟩
  · unfold run
    rw [hk, fuelLoop_next hfirst, fuelLoop_next hpush, hloop]
    rfl
  · show q.stb.sockstate = _
    rw [htable, hstb]
    exact hp.established
  · refine hsame.runstate_eq.trans ?_
    rw [hstb]
    exact hp.runstate
  · rw [hsame.minhpRecv_eq, hstb]
    show (p.stb.minhpRecv.push (recvPkg d)).elems = _
    have hperm := MinHeap.push_perm p.stb.minhpRecv (recvPkg d)
    rw [hp.minhpRecv] at hperm
    exact List.perm_singleton.mp hperm
  · refine hsame.rcvNxt_eq.trans ?_
    rw [hstb]
  · refine hsame.cbRecv_eq.trans ?_
    rw [hstb]

/-- The segment that closes the gap takes the room of the packet put aside. -/
theorem HoldsOne.run_stalls (now : ℕ) {p : Process} {tp : TouPkg} {d : Datagram} (hp : HoldsOne p tp)
    (hd : IsData (recvPkg d)) (hseq : (recvPkg d).t.seq = p.stb.tc.rcvNxt)
    (hnext : (recvPkg d).t.seq + (recvPkg d).buf.length = tp.t.seq) (hlt : tp.t.seq < 4294967296)
    (hfit : ((recvPkg d).buf.length : ℤ) < p.stb.cbRecv.getAvSize) (hlen : tp.buf.length < 4294967296)
    (hfull : p.stb.cbRecv.getAvSize ≤ (recvPkg d).buf.length + tp.buf.length) :
    ∃ r, run now p [d] = .ok r ∧ Spinning r.pr ∧ r.pr.timerheap = p.timerheap := by
  have hend : u32 (((recvPkg d).t.seq : ℤ) + (recvPkg d).buf.length) = tp.t.seq := by
    rw [u32_add _ _ (by omega), hnext]
  obtain ⟨cb, hcb, hput⟩ := putcircbuf_room
    (p.stb.setTCBRcv (u32 (((recvPkg d).t.seq : ℤ) + (recvPkg d).buf.length))) hd.pos hfit
  obtain ⟨stb, hstb⟩ : ∃ stb, stb = { p.stb.setTCBRcv
      (u32 (((recvPkg d).t.seq : ℤ) + (recvPkg d).buf.length)) with cbRecv := cb } := ⟨_, rfl⟩
  rw [← hstb] at hput
  obtain ⟨s, hs⟩ : ∃ s, s = (runSt p [d]).took d [] .ackWithDataMatchExpectedSeq := ⟨_, rfl⟩
  have hfirst : runStep now (runSt p [d]) = .ok (.next s) := by
    rw [hs]
    exact runStep_start now hp.runstate hd.bytes_ne (classify_inOrder hd hseq hp.established)
  have hmatch : runStep now s = .ok (.next (s.goto (p.setTable stb) .pktRecovery)) := by
    rw [hs]
    exact runStep_match now rfl rfl (congrArg Prod.snd hput)
  have hstalled : Stalled stb := by
    rw [hstb]
    refine MovesTo.here ⟨tp, ?_, hend.symm, ?_⟩
    · show p.stb.minhpRecv.elems.head? = some tp
      rw [hp.minhpRecv]
      rfl
    · have hav := cb.getAvSize_eq
      have hav' := p.stb.cbRecv.getAvSize_eq
      have hcb' : cb.contents.length = p.stb.cbRecv.contents.length + (recvPkg d).buf.length := by
        rw [hcb, List.length_append]
        rfl
      show ¬ (cb.insert tp.buf tp.buf.length).1 > 0
      rw [(cb.insert_no_room tp.buf hlen (by omega)).1]
      decide
  obtain ⟨q, hloop, hq, hheap⟩ := runLoop_stalled now 9 (s := s.goto (p.setTable stb) .pktRecovery) rfl
    hstalled
  have hk : runFuel [d] = 9 + 3 + 1 + 1 := rfl
  refine ⟨{ rv := s.rv, pr := q, pending := s.pending }, ?_, hq, hheap⟩
  unfold run
  rw [hk, fuelLoop_next hfirst, fuelLoop_next hmatch]
  exact hloop

/-- 200 bytes that begin one byte behind what 4321 full segments end at, and that byte. -/
def aheadSegment : Datagram := segmentFrom ⟨2, 80⟩ 6291378 1 (List.replicate 200 0)

def gapSegment : Datagram := segmentFrom ⟨2, 80⟩ 6291377 1 [0]

theorem recvPkg_aheadSegment :
    recvPkg aheadSegment = TouPkg.segment 6291378 1 (List.replicate 200 0) :=
  recvPkg_segmentFrom _ (by decide) (by decide) (by rw [List.length_replicate]; decide)

theorem recvPkg_gapSegment : recvPkg gapSegment = TouPkg.segment 6291377 1 [0] :=
  recvPkg_segmentFrom _ (by decide) (by decide) (by decide)

/-- The buffer is filled to 80 bytes, 200 bytes arrive out of order, and then the byte before them. -/
theorem exists_spinning : ∃ p, Session p ∧ Spinning p ∧ p.timerheap.elems ≠ [] := by
  obtain ⟨p, ⟨p₀, hopen, hsteps⟩, hidle, hrcv, hlen, htimer⟩ := exists_filled 4321 le_rfl
  have hahead : IsData (recvPkg aheadSegment) ∧ (recvPkg aheadSegment).t.seq = 6291378 ∧
      (recvPkg aheadSegment).buf.length = 200 := by
    rw [recvPkg_aheadSegment]
    exact ⟨isData_segment (by rw [List.length_replicate]; decide), TouPkg.segment_seq .., by
      rw [TouPkg.segment_buf, List.length_replicate]⟩
  have hgap : IsData (recvPkg gapSegment) ∧ (recvPkg gapSegment).t.seq = 6291377 ∧
      (recvPkg gapSegment).buf.length = 1 := by
    rw [recvPkg_gapSegment]
    exact ⟨isData_segment (by decide), TouPkg.segment_seq .., by
      rw [TouPkg.segment_buf]
      rfl⟩
  obtain ⟨hdata2, hseq2, hlen2⟩ := hahead
  obtain ⟨hdata1, hseq1, hlen1⟩ := hgap
  have hav := p.stb.cbRecv.getAvSize_eq
  rw [hlen] at hav
  unfold touMaxCircularBuf at hav
  obtain ⟨r2, hrun2, hone, hrcv2, hcb2, hheap2⟩ := hidle.run_future 5 hdata2 (by omega)
  rw [← hcb2] at hav
  obtain ⟨r1, hrun1, hspin, hheap1⟩ := hone.run_stalls 5 hdata1 (by omega) (by omega) (by omega)
    (by omega) (by omega) (by omega)
  refine ⟨r1.pr, ⟨p₀, hopen, ?_⟩, hspin, by rw [hheap1, hheap2]; exact htimer⟩
  exact (hsteps.tail (ProcStepIf.run trivial hrun2)).tail (ProcStepIf.run trivial hrun1)

end Process
end TcpOverUdp
