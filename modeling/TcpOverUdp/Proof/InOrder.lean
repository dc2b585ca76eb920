import TcpOverUdp.Proof.DelayedAck

/-! # A call of `run` that finds the next segment

What a call does, from its first turn to its last, when one datagram is pending that carries the segment
at `rcv_nxt` and `minhp_recv` is empty.
-/
namespace TcpOverUdp
open MachineInt
set_option autoImplicit false

namespace Process

/-! ## Turns that a call begins and ends with -/

theorem IsData.bytes_ne {d : Datagram} (hd : IsData (recvPkg d)) : d.bytes ≠ [] := by
  intro h
  have hpos := hd.pos
  have hlen := congrArg List.length (recvPkg_buf d)
  rw [h, List.take_nil, List.drop_nil, List.length_nil] at hlen
  omega

/-- The first turn takes the first datagram. -/
theorem runStep_start (now : ℕ) {p : Process} {d : Datagram} {rest : List Datagram} {st : ProcState}
    (hrs : p.stb.runstate = .getPkt) (hne : d.bytes ≠ [])
    (hclass : processGetPktState p.stb (recvPkg d) = .ok st) :
    runStep now (runSt p (d :: rest)) = .ok (.next ((runSt p (d :: rest)).took d rest st)) := by
  have hstate : (runSt p (d :: rest)).state = .getPkt := by
    unfold runSt
    rw [hrs]
    rfl
  have hget := getPkt_cons (s := runSt p (d :: rest)) rfl hne
  have hpr : (runSt p (d :: rest)).pr = p := rfl
  rw [hpr, hclass, ok_bind] at hget
  refine Eq.trans ?_ hget
  unfold runStep
  rw [hstate]

theorem noSendback_ends {s : RunSt} (h : s.pending = [] ∨ s.pr.stb.runstate ≠ .getPkt) :
    noSendback s = s.goto s.pr .procEnd := by
  unfold noSendback
  rw [if_neg]
  · rfl
  · rintro ⟨hpend, _, hrun⟩
    rcases h with h | h
    · rw [h] at hpend
      exact absurd hpend (by decide)
    · exact h hrun

theorem runLoop_procEnd (now k : ℕ) (s : RunSt) (p : Process) :
    fuelLoop .outOfFuel (runStep now) (k + 1) (s.goto p .procEnd) =
      .ok { rv := s.rv, pr := p, pending := s.pending } := fuelLoop_done rfl

/-- The last turns of a call that has nothing more to take. -/
theorem runLoop_noSendback (now k : ℕ) {s : RunSt} (hs : s.state = .ackDatarecsuccNoSendbackAck)
    (h : s.pending = [] ∨ s.pr.stb.runstate ≠ .getPkt) :
    fuelLoop .outOfFuel (runStep now) (k + 2) s =
      .ok { rv := s.rv, pr := s.pr, pending := s.pending } := by
  have h1 : runStep now s = .ok (.next (s.goto s.pr .procEnd)) := by
    unfold runStep
    rw [hs]
    simp only [noSendback_ends h]
  exact (fuelLoop_next h1).trans (runLoop_procEnd now k s s.pr)

theorem runLoop_sendback (now k : ℕ) {s : RunSt} {q : Process}
    (hs : s.state = .ackDatarecsuccSendbackAck) (hpend : s.pending = [])
    (hq : procDelack now s.pr = .ok q) :
    fuelLoop .outOfFuel (runStep now) (k + 2) s = .ok { rv := s.rv, pr := q, pending := [] } := by
  have h1 : runStep now s = .ok (.next (s.goto q .procEnd)) := by
    have hend : noSendback (s.goto q .ackDatarecsuccSendbackAck) = s.goto q .procEnd :=
      noSendback_ends (Or.inl hpend)
    unfold runStep
    rw [hs]
    simp only [hq, ok_bind]
    exact congrArg (fun t => Except.ok (Turn.next t)) hend
  have h2 := runLoop_procEnd now k s q
  rw [hpend] at h2
  exact (fuelLoop_next h1).trans h2

/-! ## The next segment -/

/-- A segment at `rcv_nxt` goes to `putcircbuf`, and recovery follows. -/
theorem runStep_match (now : ℕ) {s : RunSt} {tp : TouPkg} {stb : SockTb}
    (hs : s.state = .ackWithDataMatchExpectedSeq) (htp : s.tp = some tp)
    (hput : (putcircbuf (s.pr.stb.setTCBRcv (u32 ((tp.t.seq : ℤ) + tp.buf.length))) tp.buf
      tp.buf.length).2 = stb) :
    runStep now s = .ok (.next (s.goto (s.pr.setTable stb) .pktRecovery)) := by
  have hread : readTp s = .ok tp := by
    unfold readTp
    rw [htp]
  unfold runStep
  rw [hs]
  simp only [hread, ok_bind, hput]
  rfl

theorem classify_inOrder {stb : SockTb} {tp : TouPkg} (hd : IsData tp) (hseq : tp.t.seq = stb.tc.rcvNxt)
    (hst : stb.sockstate = .established) :
    processGetPktState stb tp = .ok .ackWithDataMatchExpectedSeq := by
  rw [processGetPktState_data hst hd, hseq, cmp_self_eq_eq]
  rfl

theorem runLoop_inOrder (now k : ℕ) {s : RunSt} {tp : TouPkg} {stb : SockTb} {q : Process}
    (hs : s.state = .ackWithDataMatchExpectedSeq) (htp : s.tp = some tp) (hpend : s.pending = [])
    (hput : (putcircbuf (s.pr.stb.setTCBRcv (u32 ((tp.t.seq : ℤ) + tp.buf.length))) tp.buf
      tp.buf.length).2 = stb) (hheap : stb.minhpRecv.isEmpty = true)
    (hq : procDelack now (s.pr.setTable (stb.setRunstate .getPkt)) = .ok q) :
    fuelLoop .outOfFuel (runStep now) (k + 4) s = .ok { rv := s.rv, pr := q, pending := [] } := by
  have h1 := runStep_match now hs htp hput
  have h2 : runStep now (s.goto (s.pr.setTable stb) .pktRecovery) =
      .ok (.next (s.goto (s.pr.setTable (stb.setRunstate .getPkt)) .ackDatarecsuccSendbackAck)) := by
    have hrec : procPktRec stb = .ok (0, stb) := by
      unfold procPktRec
      rw [if_pos hheap]
    unfold runStep
    simp only [RunSt.goto, setTable, hrec, ok_bind, if_true]
    rfl
  exact (fuelLoop_next h1).trans ((fuelLoop_next h2).trans (runLoop_sendback now k rfl hpend hq))

/-- The next segment arrives alone: it is handed to `putcircbuf`, `rcv_nxt` moves behind it, and
`proc_delack` has its turn. -/
theorem run_inOrder (now : ℕ) {p : Process} {d : Datagram} {stb : SockTb}
    (hd : IsData (recvPkg d)) (hseq : (recvPkg d).t.seq = p.stb.tc.rcvNxt)
    (hst : p.stb.sockstate = .established) (hrs : p.stb.runstate = .getPkt)
    (hput : (putcircbuf (p.stb.setTCBRcv (u32 (((recvPkg d).t.seq : ℤ) + (recvPkg d).buf.length)))
      (recvPkg d).buf (recvPkg d).buf.length).2 = stb) (hheap : stb.minhpRecv.isEmpty = true)
    {q : Process} (hq : procDelack now (p.setTable (stb.setRunstate .getPkt)) = .ok q) :
    run now p [d] = .ok { rv := (d.bytes.take recvBufSize).length, pr := q, pending := [] } := by
  have hclass := classify_inOrder hd hseq hst
  have hfirst : runStep now (runSt p [d]) = .ok (.next ((runSt p [d]).took d []
      .ackWithDataMatchExpectedSeq)) := runStep_start now hrs hd.bytes_ne hclass
  have hk : runFuel [d] = 9 + 4 + 1 := rfl
  unfold run
  rw [hk, fuelLoop_next hfirst]
  exact runLoop_inOrder now 9 rfl rfl rfl hput hheap hq

/-! ## A receiver with nothing left to do -/

/-- An established socket on which recovery has nothing to do. -/
structure Idle (p : Process) : Prop where
  established : p.stb.sockstate = .established
  runstate : p.stb.runstate = .getPkt
  minhpRecv : p.stb.minhpRecv.elems = []
  ackReady : AckReady p

/-- The table after the segment was handled and `cb_recv` became `cb`. -/
def inOrderTable (stb : SockTb) (tp : TouPkg) (cb : SockBuf) : SockTb :=
  { stb with cbRecv := cb, tc := { stb.tc with rcvNxt := tp.t.seq + tp.buf.length } }

/-- What `putcircbuf` of the block `str` makes of `cb_recv`: all of it is stored, or nothing is. -/
structure StoredWhole (stb : SockTb) (str : List Byte) (cb : SockBuf) : Prop where
  room : (str.length : ℤ) < stb.cbRecv.getAvSize → cb.contents = stb.cbRecv.contents ++ str
  no_room : ¬ (str.length : ℤ) < stb.cbRecv.getAvSize → cb = stb.cbRecv

theorem putcircbuf_storedWhole (stb : SockTb) {str : List Byte} (h0 : 0 < str.length)
    (hlt : str.length < 4294967296) :
    ∃ cb n, StoredWhole stb str cb ∧ putcircbuf stb str str.length = (n, { stb with cbRecv := cb }) := by
  by_cases hfit : (str.length : ℤ) < stb.cbRecv.getAvSize
  · obtain ⟨cb, hcb, hput⟩ := putcircbuf_room stb h0 hfit
    exact ⟨cb, _, ⟨fun _ => hcb, fun h => absurd hfit h⟩, hput⟩
  · exact ⟨stb.cbRecv, _, ⟨fun h => absurd h hfit, fun _ => rfl⟩, putcircbuf_no_room hlt hfit⟩

/-- `rcv_nxt` moves behind the segment, whether `cb_recv` takes the bytes or not. -/
theorem Idle.run_inOrder (now : ℕ) {p : Process} {d : Datagram} (hp : Idle p)
    (hd : IsData (recvPkg d)) (hseq : (recvPkg d).t.seq = p.stb.tc.rcvNxt)
    (hlt : (recvPkg d).t.seq + (recvPkg d).buf.length < 4294967296) :
    ∃ cb q, StoredWhole p.stb (recvPkg d).buf cb ∧
      procDelack now (p.setTable (inOrderTable p.stb (recvPkg d) cb)) = .ok q ∧ Idle q ∧
      run now p [d] = .ok { rv := (d.bytes.take recvBufSize).length, pr := q, pending := [] } := by
  have hnext : u32 (((recvPkg d).t.seq : ℤ) + (recvPkg d).buf.length) =
      (recvPkg d).t.seq + (recvPkg d).buf.length := u32_add _ _ hlt
  obtain ⟨cb, n, hcb, hput⟩ := putcircbuf_storedWhole
    (p.stb.setTCBRcv ((recvPkg d).t.seq + (recvPkg d).buf.length)) hd.pos (by omega)
  have hstored : StoredWhole p.stb (recvPkg d).buf cb := ⟨hcb.room, hcb.no_room⟩
  have htable : (putcircbuf (p.stb.setTCBRcv (u32 (((recvPkg d).t.seq : ℤ) + (recvPkg d).buf.length)))
      (recvPkg d).buf (recvPkg d).buf.length).2 = inOrderTable p.stb (recvPkg d) cb := by
    rw [hnext, hput]
    rfl
  have hready : AckReady (p.setTable (inOrderTable p.stb (recvPkg d) cb)) :=
    hp.ackReady.of_eq rfl (Or.inl rfl) rfl
  obtain ⟨q, hq⟩ := hready.procDelack_returns now
  have hrun : (inOrderTable p.stb (recvPkg d) cb).setRunstate .getPkt =
      inOrderTable p.stb (recvPkg d) cb := by
    unfold SockTb.setRunstate inOrderTable
    rw [← hp.runstate]
  have hheap : (inOrderTable p.stb (recvPkg d) cb).minhpRecv.isEmpty = true :=
    List.isEmpty_iff.mpr hp.minhpRecv
  have hsame := (procDelack_effect hq).recvSame
  have hafter := (procDelack_effect hq).table_eq
  refine ⟨cb, q, hstored, hq, ?_, ?_⟩
  · refine ⟨?_, hsame.runstate_eq.trans hp.runstate, ?_, procDelack_ready hq⟩
    · rw [hafter]
      exact hp.established
    · rw [hsame.minhpRecv_eq]
      exact hp.minhpRecv
  · rw [← hrun] at hq
    exact Process.run_inOrder now hd hseq hp.established hp.runstate htable hheap hq

end Process
end TcpOverUdp
